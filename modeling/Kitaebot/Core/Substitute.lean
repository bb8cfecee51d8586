import Mathlib.Data.List.Chain
import Mathlib.Data.Nat.Notation

/-!
# Replacing a pattern

Every occurrence of a pattern is replaced, from the left and without overlaps.
A pattern of one symbol replaces symbol by symbol; a doubled symbol is replaced
pairwise, and writing the double back restores the text.
-/

namespace Kitaebot.Substitute

variable {Symbol : Type} [DecidableEq Symbol]

/-- Replace from here on; the first symbols still belong to a match. -/
def replaceFrom (pattern replacement : List Symbol) : ℕ → List Symbol → List Symbol
  | _, [] => []
  | skip + 1, _ :: text => replaceFrom pattern replacement skip text
  | 0, symbol :: text =>
      if pattern.isPrefixOf (symbol :: text) then
        replacement ++ replaceFrom pattern replacement (pattern.length - 1) text
      else symbol :: replaceFrom pattern replacement 0 text

attribute [local simp] replaceFrom

def replace (pattern replacement text : List Symbol) : List Symbol :=
  replaceFrom pattern replacement 0 text

/-- A replacement brings no symbol of its own but those it writes. -/
theorem mem_replace {pattern replacement : List Symbol} {symbol : Symbol} :
    ∀ {text : List Symbol} {skip : ℕ},
      symbol ∈ replaceFrom pattern replacement skip text →
        symbol ∈ replacement ∨ symbol ∈ text
  | [], _, hmem => by
      rw [replaceFrom] at hmem
      cases hmem
  | _ :: text, skip + 1, hmem =>
      have hrest : symbol ∈ replacement ∨ symbol ∈ text := mem_replace hmem
      hrest.imp_right (List.mem_cons_of_mem _)
  | other :: text, 0, hmem => by
      rw [replaceFrom] at hmem
      split at hmem
      · rcases List.mem_append.1 hmem with hnew | hold
        · exact .inl hnew
        · exact (mem_replace hold).imp_right (List.mem_cons_of_mem _)
      · rcases List.mem_cons.1 hmem with rfl | hold
        · exact .inr List.mem_cons_self
        · exact (mem_replace hold).imp_right (List.mem_cons_of_mem _)

/-! ### One symbol -/

theorem replace_symbol (symbol : Symbol) (replacement text : List Symbol) :
    replace [symbol] replacement text =
      text.flatMap fun other => if other = symbol then replacement else [other] := by
  induction text with
  | nil => rfl
  | cons other text ih =>
      rw [List.flatMap_cons, ← ih, replace, replaceFrom]
      by_cases hother : other = symbol
      · subst hother
        simp [replace]
      · have hne : ¬ symbol = other := fun heq => hother heq.symm
        simp [hother, hne, replace]

theorem replace_symbol_nil (symbol : Symbol) (text : List Symbol) :
    replace [symbol] [] text = text.filter (· ≠ symbol) := by
  rw [replace_symbol]
  induction text with
  | nil => rfl
  | cons other text ih =>
      rw [List.flatMap_cons, ih]
      by_cases hother : other = symbol
      · simp [hother]
      · simp [hother]

theorem replace_symbol_self {symbol : Symbol} (replacement : List Symbol)
    {text : List Symbol} (htext : symbol ∉ text) :
    replace [symbol] replacement text = text := by
  rw [replace_symbol]
  induction text with
  | nil => rfl
  | cons other text ih =>
      rw [List.mem_cons, not_or] at htext
      rw [List.flatMap_cons, ih htext.2, if_neg (Ne.symm htext.1)]
      rfl

/-! ### A doubled symbol -/

section Double

variable (symbol : Symbol) (replacement : List Symbol)

theorem replace_double_single (other : Symbol) :
    replace [symbol, symbol] replacement [other] = [other] := by
  simp [replace, replaceFrom]

theorem replace_double_hit (text : List Symbol) :
    replace [symbol, symbol] replacement (symbol :: symbol :: text) =
      replacement ++ replace [symbol, symbol] replacement text := by
  simp [replace, replaceFrom]

theorem replace_double_miss {first second : Symbol} (text : List Symbol)
    (hmiss : ¬ (first = symbol ∧ second = symbol)) :
    replace [symbol, symbol] replacement (first :: second :: text) =
      first :: replace [symbol, symbol] replacement (second :: text) := by
  rw [replace, replaceFrom, if_neg]
  · rfl
  · simp only [List.isPrefixOf, Bool.and_true, Bool.and_eq_true, beq_iff_eq]
    rintro ⟨hfirst, hsecond⟩
    exact hmiss ⟨hfirst.symm, hsecond.symm⟩

/-- What a replacement starts with. -/
theorem head_replace_double (other : Symbol) (text : List Symbol) :
    (∃ rest, replace [symbol, symbol] replacement (other :: text) = other :: rest) ∨
      other = symbol ∧ ∃ after, replace [symbol, symbol] replacement (other :: text) =
        replacement ++ replace [symbol, symbol] replacement after := by
  cases text with
  | nil => exact .inl ⟨[], replace_double_single symbol replacement other⟩
  | cons second text =>
      by_cases hhit : other = symbol ∧ second = symbol
      · obtain ⟨rfl, rfl⟩ := hhit
        exact .inr ⟨rfl, text, replace_double_hit _ replacement text⟩
      · exact .inl ⟨_, replace_double_miss symbol replacement text hhit⟩

/-- Nowhere does the symbol stand twice in a row. -/
def Single (symbol : Symbol) (text : List Symbol) : Prop :=
  text.IsChain fun first second => ¬ (first = symbol ∧ second = symbol)

instance (text : List Symbol) : Decidable (Single symbol text) :=
  inferInstanceAs (Decidable (text.IsChain _))

omit [DecidableEq Symbol] in
/-- Another symbol makes no double with what follows. -/
theorem Single.cons_of_ne {symbol first : Symbol} (hfirst : first ≠ symbol)
    {text : List Symbol} (hsingle : Single symbol text) : Single symbol (first :: text) :=
  hsingle.cons fun _ _ hpair => hfirst hpair.1

/-- Where the symbol never stands twice there is nothing to replace. -/
theorem replace_double_self {symbol : Symbol} (replacement : List Symbol) :
    ∀ {text : List Symbol}, Single symbol text →
      replace [symbol, symbol] replacement text = text
  | [], _ => rfl
  | [other], _ => replace_double_single symbol replacement other
  | first :: second :: text, hsingle => by
      have hpair := List.isChain_cons_cons.1 hsingle
      rw [replace_double_miss symbol replacement text hpair.1,
        replace_double_self replacement hpair.2]

/-- After the doubles are deleted none is left. -/
theorem single_replace_double :
    ∀ text : List Symbol, Single symbol (replace [symbol, symbol] [] text)
  | [] => .nil
  | [other] => by
      rw [replace_double_single]
      exact .singleton other
  | first :: second :: text => by
      by_cases hhit : first = symbol ∧ second = symbol
      · rw [hhit.1, hhit.2, replace_double_hit]
        exact single_replace_double text
      · rw [replace_double_miss symbol [] text hhit]
        apply (single_replace_double (second :: text)).cons
        rintro next hnext ⟨hfirst, hother⟩
        rcases head_replace_double symbol [] second text with ⟨_, hhead⟩ | ⟨hsecond, _⟩
        · rw [hhead] at hnext
          exact hhit ⟨hfirst, (Option.some.inj hnext).trans hother⟩
        · exact hhit ⟨hfirst, hsecond⟩

/-- Writing the doubles back restores the text. -/
theorem restore_double {symbol mark : Symbol} :
    ∀ {text : List Symbol}, mark ∉ text →
      replace [mark] [symbol, symbol] (replace [symbol, symbol] [mark] text) = text
  | [], _ => rfl
  | [other], htext => by
      rw [replace_double_single, replace_symbol_self _ htext]
  | first :: second :: text, htext => by
      by_cases hhit : first = symbol ∧ second = symbol
      · obtain ⟨rfl, rfl⟩ := hhit
        have hrest : mark ∉ text := fun hmem =>
          htext (List.mem_cons_of_mem _ (List.mem_cons_of_mem _ hmem))
        rw [replace_double_hit, replace_symbol, List.flatMap_append,
          ← replace_symbol, ← replace_symbol, restore_double hrest]
        simp [replace_symbol]
      · have hrest : mark ∉ second :: text := fun hmem =>
          htext (List.mem_cons_of_mem _ hmem)
        have hfirst : first ≠ mark := fun heq => htext (heq ▸ List.mem_cons_self)
        rw [replace_double_miss symbol [mark] text hhit, replace_symbol,
          List.flatMap_cons, ← replace_symbol, restore_double hrest, if_neg hfirst]
        rfl

/-- A mark in place of a double brings no other symbol next to itself. -/
theorem single_mark_double {other mark : Symbol} (hmark : mark ≠ other) :
    ∀ {text : List Symbol}, Single other text →
      Single other (replace [symbol, symbol] [mark] text)
  | [], _ => .nil
  | [first], _ => by
      rw [replace_double_single]
      exact .singleton first
  | first :: second :: text, hsingle => by
      have hpair := List.isChain_cons_cons.1 hsingle
      by_cases hhit : first = symbol ∧ second = symbol
      · rw [hhit.1, hhit.2, replace_double_hit]
        exact (single_mark_double hmark hpair.2.tail).cons_of_ne hmark
      · rw [replace_double_miss symbol [mark] text hhit]
        apply (single_mark_double hmark hpair.2).cons
        rintro next hnext ⟨hfirst, hother⟩
        rcases head_replace_double symbol [mark] second text with
          ⟨_, hhead⟩ | ⟨_, _, hhead⟩
        · rw [hhead] at hnext
          exact hpair.1 ⟨hfirst, (Option.some.inj hnext).trans hother⟩
        · rw [hhead] at hnext
          exact hmark ((Option.some.inj hnext).trans hother)

/-- Nor do doubles in place of a mark. -/
theorem single_double_mark {other mark : Symbol} (hsymbol : symbol ≠ other)
    {text : List Symbol} (hsingle : Single other text) :
    Single other (replace [mark] [symbol, symbol] text) := by
  rw [replace_symbol]
  induction text with
  | nil => exact .nil
  | cons first text ih =>
      have hrest := ih hsingle.tail
      rw [List.flatMap_cons]
      split
      · exact (hrest.cons_of_ne hsymbol).cons_of_ne hsymbol
      · apply hrest.cons
        rintro next hnext ⟨hfirst, hother⟩
        cases text with
        | nil => cases hnext
        | cons second text =>
            rw [List.flatMap_cons] at hnext
            split at hnext
            · exact hsymbol ((Option.some.inj hnext).trans hother)
            · exact (List.isChain_cons_cons.1 hsingle).1
                ⟨hfirst, (Option.some.inj hnext).trans hother⟩

end Double

end Kitaebot.Substitute
