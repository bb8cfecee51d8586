import Mathlib.Data.List.Infix
import Mathlib.Data.List.Range
import Mathlib.Data.List.TakeWhile
import Kitaebot.Core.Redaction

/-!
# Regular expressions by backtracking

An expression is read as the list of match lengths at the start of a text, in
the order in which a backtracking matcher tries them: a greedy run tries its
longest count first, a lazy one its shortest, and the left alternative comes
before the right one.  The matcher takes the first.
-/

namespace Kitaebot

inductive Regex where
  | text (chars : List Char)
  | times (allowed : Char → Bool) (count : ℕ)
  | greedy (allowed : Char → Bool) (least : ℕ)
  | lazy (allowed : Char → Bool) (least : ℕ)
  | seq (first second : Regex)
  | alt (first second : Regex)
  | endOfText

namespace Regex

/-- The counts a run may take, shortest first. -/
def counts (least most : ℕ) : List ℕ := List.range' least (most + 1 - least)

def lengths : Regex → List Char → List ℕ
  | text chars, input => if chars <+: input then [chars.length] else []
  | times allowed count, input =>
      if count ≤ (input.takeWhile allowed).length then [count] else []
  | greedy allowed least, input =>
      (counts least (input.takeWhile allowed).length).reverse
  | lazy allowed least, input => counts least (input.takeWhile allowed).length
  | seq first second, input =>
      (first.lengths input).flatMap fun count =>
        (second.lengths (input.drop count)).map (count + ·)
  | alt first second, input => first.lengths input ++ second.lengths input
  | endOfText, input => if input = [] then [0] else []

/-- The match at the start of a text. -/
def find (regex : Regex) (input : List Char) : Option ℕ :=
  (regex.lengths input).head?

def isMatch (regex : Regex) (input : List Char) : Bool :=
  input.tails.any fun rest => (regex.find rest).isSome

/-- The expression does not look past its match. -/
def isLocal : Regex → Bool
  | seq first second => first.isLocal && second.isLocal
  | alt first second => first.isLocal && second.isLocal
  | endOfText => false
  | _ => true

/-! ## Locality -/

theorem mem_counts {least most count : ℕ} :
    count ∈ counts least most ↔ least ≤ count ∧ count ≤ most := by
  rw [counts, List.mem_range'_1]
  omega

theorem filter_counts (least most bound : ℕ) :
    (counts least most).filter (· ≤ bound) = counts least (min most bound) := by
  rw [counts, counts]
  generalize hcount : most + 1 - least = count
  induction count generalizing least with
  | zero =>
      have hnone : min most bound + 1 - least = 0 := by omega
      rw [hnone]
      rfl
  | succ count ih =>
      rw [List.range'_succ, List.filter_cons]
      by_cases hle : least ≤ bound
      · have hsucc : min most bound + 1 - least =
            min most bound + 1 - (least + 1) + 1 := by omega
        rw [if_pos (by simpa using hle), ih (least + 1) (by omega), hsucc,
          List.range'_succ]
      · have hnone : min most bound + 1 - least = 0 := by omega
        have hrest : min most bound + 1 - (least + 1) = 0 := by omega
        rw [if_neg (by simpa using hle), ih (least + 1) (by omega), hnone, hrest]
        rfl

theorem length_takeWhile_append (allowed : Char → Bool) (first second : List Char) :
    min ((first ++ second).takeWhile allowed).length first.length =
      (first.takeWhile allowed).length := by
  induction first with
  | nil => simp
  | cons symbol first ih =>
      rw [List.cons_append, List.takeWhile_cons, List.takeWhile_cons]
      by_cases hallowed : allowed symbol
      · rw [if_pos hallowed, if_pos hallowed, List.length_cons, List.length_cons,
          List.length_cons, Nat.succ_min_succ, ih]
      · rw [if_neg hallowed, if_neg hallowed]
        simp

theorem flatMap_filter {Value Other : Type*} {values : List Value}
    {keep : Value → Bool} {images : Value → List Other}
    (hdropped : ∀ value, keep value = false → images value = []) :
    (values.filter keep).flatMap images = values.flatMap images := by
  induction values with
  | nil => rfl
  | cons value values ih =>
      rw [List.filter_cons]
      cases hkeep : keep value with
      | true => rw [if_pos rfl, List.flatMap_cons, List.flatMap_cons, ih]
      | false =>
          rw [if_neg Bool.false_ne_true, List.flatMap_cons, hdropped value hkeep,
            ih, List.nil_append]

/-- The matches within a prefix only depend on the prefix. -/
theorem filter_lengths_append {regex : Regex} (hlocal : regex.isLocal = true)
    (first second : List Char) :
    (regex.lengths (first ++ second)).filter (· ≤ first.length) =
      regex.lengths first := by
  induction regex generalizing first with
  | text chars =>
      rw [lengths, lengths]
      by_cases hleading : chars <+: first
      · rw [if_pos hleading, if_pos (hleading.trans (List.prefix_append _ _))]
        simpa using hleading.length_le
      · rw [if_neg hleading]
        split
        · next happend =>
            refine List.filter_cons_of_neg ?_
            intro hle
            have hbound : chars.length ≤ first.length := by simpa using hle
            exact hleading
              (List.prefix_of_prefix_length_le happend
                (List.prefix_append _ _) hbound)
        · rfl
  | times allowed count =>
      have hmin := length_takeWhile_append allowed first second
      rw [lengths, lengths]
      by_cases hcount : count ≤ (first.takeWhile allowed).length
      · rw [if_pos hcount, if_pos (by omega)]
        have hbound : count ≤ first.length := by omega
        simpa using hbound
      · rw [if_neg hcount]
        split
        · refine List.filter_cons_of_neg ?_
          intro hle
          have hbound : count ≤ first.length := by simpa using hle
          omega
        · rfl
  | greedy allowed least =>
      rw [lengths, lengths, List.filter_reverse, filter_counts,
        length_takeWhile_append]
  | lazy allowed least =>
      rw [lengths, lengths, filter_counts, length_takeWhile_append]
  | seq left right ihLeft ihRight =>
      obtain ⟨hleft, hright⟩ := Bool.and_eq_true_iff.mp hlocal
      rw [lengths, lengths, List.filter_flatMap, ← ihLeft hleft first]
      have hwithin : ∀ count ≤ first.length,
          ((right.lengths ((first ++ second).drop count)).map
            (count + ·)).filter (· ≤ first.length) =
          (right.lengths (first.drop count)).map (count + ·) := by
        intro count hcount
        rw [List.filter_map, List.drop_append_of_le_length hcount,
          ← ihRight hright (first.drop count)]
        congr 1
        apply List.filter_congr
        intro length _
        simp only [Function.comp_apply, List.length_drop]
        congr 1
        exact propext (by omega)
      have hbeyond : ∀ count, decide (count ≤ first.length) = false →
          ((right.lengths ((first ++ second).drop count)).map
            (count + ·)).filter (· ≤ first.length) = [] := by
        intro count hcount
        rw [List.filter_map, List.map_eq_nil_iff, List.filter_eq_nil_iff]
        intro length _
        have hlong := of_decide_eq_false hcount
        simp only [Function.comp_apply, decide_eq_true_eq]
        omega
      rw [← flatMap_filter hbeyond]
      apply List.flatMap_congr
      intro count hmem
      exact hwithin count (of_decide_eq_true (List.mem_filter.mp hmem).2)
  | alt left right ihLeft ihRight =>
      obtain ⟨hleft, hright⟩ := Bool.and_eq_true_iff.mp hlocal
      rw [lengths, lengths, List.filter_append, ihLeft hleft, ihRight hright]
  | endOfText => cases hlocal

theorem find_eq_none {regex : Regex} {input : List Char} :
    regex.find input = none ↔ regex.lengths input = [] := by
  rw [find, List.head?_eq_none_iff]

theorem find_none_append {regex : Regex} (hlocal : regex.isLocal = true)
    {first second : List Char} (hnone : regex.find (first ++ second) = none) :
    regex.find first = none := by
  rw [find_eq_none] at hnone ⊢
  rw [← filter_lengths_append hlocal first second, hnone]
  rfl

/-- A match within a prefix is the match of the prefix alone. -/
theorem find_some_append {regex : Regex} (hlocal : regex.isLocal = true)
    {first second : List Char} {count : ℕ}
    (hfind : regex.find (first ++ second) = some count)
    (hcount : count ≤ first.length) : regex.find first = some count := by
  obtain ⟨rest, hlengths⟩ := List.head?_eq_some_iff.mp hfind
  rw [find, ← filter_lengths_append hlocal first second, hlengths,
    List.filter_cons_of_pos (by simpa using hcount), List.head?_cons]

/-- Where no match reaches past a prefix, only the prefix is read. -/
theorem find_append_of_le {regex : Regex} (hlocal : regex.isLocal = true)
    {first second : List Char}
    (hle : ∀ count ∈ regex.lengths (first ++ second), count ≤ first.length) :
    regex.find (first ++ second) = regex.find first := by
  rw [find, find, ← filter_lengths_append hlocal first second,
    List.filter_eq_self.mpr]
  intro count hcount
  simpa using hle count hcount

theorem lengths_le_length {regex : Regex} {input : List Char} {count : ℕ}
    (hcount : count ∈ regex.lengths input) : count ≤ input.length := by
  induction regex generalizing input count with
  | text chars =>
      rw [lengths] at hcount
      split at hcount
      · next hleading =>
          rw [List.mem_singleton.mp hcount]
          exact hleading.length_le
      · cases hcount
  | times allowed total =>
      rw [lengths] at hcount
      split at hcount
      · next htotal =>
          rw [List.mem_singleton.mp hcount]
          exact htotal.trans (List.takeWhile_prefix (l := input) allowed).length_le
      · cases hcount
  | greedy allowed least =>
      rw [lengths, List.mem_reverse, mem_counts] at hcount
      exact hcount.2.trans (List.takeWhile_prefix (l := input) allowed).length_le
  | lazy allowed least =>
      rw [lengths, mem_counts] at hcount
      exact hcount.2.trans (List.takeWhile_prefix (l := input) allowed).length_le
  | seq first second ihFirst ihSecond =>
      rw [lengths, List.mem_flatMap] at hcount
      obtain ⟨head, hhead, hmap⟩ := hcount
      obtain ⟨tail, htail, rfl⟩ := List.mem_map.mp hmap
      have hfirst := ihFirst hhead
      have hsecond := ihSecond htail
      rw [List.length_drop] at hsecond
      omega
  | alt first second ihFirst ihSecond =>
      rcases List.mem_append.mp hcount with hleft | hright
      · exact ihFirst hleft
      · exact ihSecond hright
  | endOfText =>
      rw [lengths] at hcount
      split at hcount
      · rw [List.mem_singleton.mp hcount]
        exact Nat.zero_le _
      · cases hcount

/-! ## What a match is made of -/

/-- Every symbol the expression reads is allowed. -/
def Within (allowed : Char → Bool) : Regex → Prop
  | text chars => ∀ symbol ∈ chars, allowed symbol = true
  | times inner _ => ∀ symbol, inner symbol = true → allowed symbol = true
  | greedy inner _ => ∀ symbol, inner symbol = true → allowed symbol = true
  | lazy inner _ => ∀ symbol, inner symbol = true → allowed symbol = true
  | seq first second => first.Within allowed ∧ second.Within allowed
  | alt first second => first.Within allowed ∧ second.Within allowed
  | endOfText => True

theorem mem_lengths_seq {first second : Regex} {input : List Char} {count : ℕ} :
    count ∈ (seq first second).lengths input ↔
      ∃ head ∈ first.lengths input, ∃ tail ∈ second.lengths (input.drop head),
        head + tail = count := by
  simp only [lengths, List.mem_flatMap, List.mem_map]

theorem mem_take_takeWhile {allowed : Char → Bool} {input : List Char}
    {count : ℕ} (hcount : count ≤ (input.takeWhile allowed).length)
    {symbol : Char} (hsymbol : symbol ∈ input.take count) :
    allowed symbol = true := by
  have hleading := List.takeWhile_prefix (l := input) allowed
  rw [← List.take_append_drop count (input.takeWhile allowed)] at hleading
  have htake : input.take count = (input.takeWhile allowed).take count := by
    have hpart := (List.prefix_append _ _).trans hleading
    rw [List.prefix_iff_eq_take] at hpart
    rw [hpart, List.length_take, Nat.min_eq_left hcount]
  rw [htake] at hsymbol
  exact List.mem_takeWhile_imp (List.mem_of_mem_take hsymbol)

theorem take_within {regex : Regex} {allowed : Char → Bool}
    (hwithin : regex.Within allowed) {input : List Char} {count : ℕ}
    (hcount : count ∈ regex.lengths input) :
    ∀ symbol ∈ input.take count, allowed symbol = true := by
  induction regex generalizing input count with
  | text chars =>
      rw [lengths] at hcount
      split at hcount
      · next hleading =>
          rw [List.mem_singleton.mp hcount, ← List.prefix_iff_eq_take.mp hleading]
          exact hwithin
      · cases hcount
  | times inner total =>
      rw [lengths] at hcount
      split at hcount
      · next htotal =>
          rw [List.mem_singleton.mp hcount]
          exact fun symbol hsymbol =>
            hwithin symbol (mem_take_takeWhile htotal hsymbol)
      · cases hcount
  | greedy inner least =>
      rw [lengths, List.mem_reverse, mem_counts] at hcount
      exact fun symbol hsymbol =>
        hwithin symbol (mem_take_takeWhile hcount.2 hsymbol)
  | lazy inner least =>
      rw [lengths, mem_counts] at hcount
      exact fun symbol hsymbol =>
        hwithin symbol (mem_take_takeWhile hcount.2 hsymbol)
  | seq first second ihFirst ihSecond =>
      obtain ⟨head, hhead, tail, htail, rfl⟩ := mem_lengths_seq.mp hcount
      intro symbol hsymbol
      rw [List.take_add] at hsymbol
      rcases List.mem_append.mp hsymbol with hleft | hright
      · exact ihFirst hwithin.1 hhead symbol hleft
      · exact ihSecond hwithin.2 htail symbol hright
  | alt first second ihFirst ihSecond =>
      rcases List.mem_append.mp hcount with hleft | hright
      · exact ihFirst hwithin.1 hleft
      · exact ihSecond hwithin.2 hright
  | endOfText =>
      rw [lengths] at hcount
      split at hcount
      · rw [List.mem_singleton.mp hcount]
        simp
      · cases hcount

/-- Every match ends in the symbol. -/
def EndsIn (last : Char) : Regex → Prop
  | text chars => chars.getLast? = some last
  | seq _ second => second.EndsIn last
  | _ => False

theorem getLast?_take {regex : Regex} {last : Char} (hends : regex.EndsIn last)
    {input : List Char} {count : ℕ} (hcount : count ∈ regex.lengths input) :
    (input.take count).getLast? = some last := by
  induction regex generalizing input count with
  | text chars =>
      rw [lengths] at hcount
      split at hcount
      · next hleading =>
          rw [List.mem_singleton.mp hcount, ← List.prefix_iff_eq_take.mp hleading]
          exact hends
      · cases hcount
  | seq first second _ ihSecond =>
      obtain ⟨head, _, tail, htail, rfl⟩ := mem_lengths_seq.mp hcount
      rw [List.take_add, List.getLast?_append, ihSecond hends htail]
      rfl
  | times inner total => cases hends
  | greedy inner least => cases hends
  | lazy inner least => cases hends
  | alt first second => cases hends
  | endOfText => cases hends

/-- A match of an expression that begins with a text begins with that text. -/
theorem mem_lengths_text {chars : List Char} {rest : Regex} {input : List Char}
    {count : ℕ} (hcount : count ∈ (seq (text chars) rest).lengths input) :
    chars <+: input ∧ chars.length ≤ count := by
  obtain ⟨head, hhead, tail, _, rfl⟩ := mem_lengths_seq.mp hcount
  rw [lengths] at hhead
  split at hhead
  · next hleading =>
      rw [List.mem_singleton.mp hhead]
      exact ⟨hleading, Nat.le_add_right _ _⟩
  · cases hhead

/-! ## Up to a closing expression -/

/-- A lazy run of anything up to a closing match or the end of the text. -/
theorem find_upTo {closing : Regex} (hclosing : closing.find [] = none)
    (input : List Char) :
    (seq (lazy (fun _ => true) 0) (alt closing endOfText)).find input =
      some (Redaction.closeAt closing.find input) := by
  have hall : ∀ rest : List Char, rest.takeWhile (fun _ => true) = rest :=
    fun rest => List.takeWhile_eq_self_iff.mpr (by simp)
  have hsplit : ∀ (symbol : Char) (rest : List Char),
      (seq (lazy (fun _ => true) 0) (alt closing endOfText)).lengths
          (symbol :: rest) =
        closing.lengths (symbol :: rest) ++
          ((seq (lazy (fun _ => true) 0) (alt closing endOfText)).lengths
            rest).map (· + 1) := by
    intro symbol rest
    have hcounts : counts 0 (rest.length + 1) =
        0 :: (counts 0 rest.length).map (· + 1) := by
      simp only [counts, Nat.sub_zero, ← List.range_eq_range']
      exact List.range_succ_eq_map
    simp only [lengths, hall, List.length_cons, hcounts, List.flatMap_cons,
      List.drop_zero, List.flatMap_map, List.map_flatMap, List.drop_succ_cons,
      List.map_append, List.map_map]
    have hshift : ∀ count : ℕ,
        ((· + 1) ∘ (count + ·)) = (count + 1 + ·) := by
      intro count
      funext length
      exact Nat.add_right_comm count length 1
    simp only [hshift, Nat.zero_add, List.map_id', reduceCtorEq, if_false,
      List.map_nil, List.append_nil]
  induction input with
  | nil =>
      rw [find_eq_none] at hclosing
      simp [find, lengths, counts, hclosing, Redaction.closeAt]
  | cons symbol rest ih =>
      rw [find, hsplit, List.head?_append, Redaction.closeAt]
      cases hfind : closing.find (symbol :: rest) with
      | some count =>
          rw [find] at hfind
          rw [hfind]
          rfl
      | none =>
          rw [find] at hfind ih
          rw [hfind, List.head?_map, ih]
          rfl

/-- An expression followed by one that always matches. -/
theorem find_seq {first second : Regex} {length : List Char → ℕ}
    (hsecond : ∀ rest, second.find rest = some (length rest))
    (input : List Char) :
    (seq first second).find input =
      (first.find input).map fun count => count + length (input.drop count) := by
  rw [find, find, lengths]
  cases first.lengths input with
  | nil => rfl
  | cons count counts =>
      have hhead := hsecond (input.drop count)
      rw [find] at hhead
      rw [List.flatMap_cons, List.head?_append, List.head?_map, hhead]
      rfl

/-! ## Matching at all -/

/-- The expression matches at the start of the text. -/
def Accepts (regex : Regex) (input : List Char) : Prop := regex.lengths input ≠ []

theorem find_isSome_iff {regex : Regex} {input : List Char} :
    (regex.find input).isSome = true ↔ regex.Accepts input := by
  rw [find, Accepts]
  cases regex.lengths input with
  | nil => exact iff_of_false Bool.false_ne_true fun hne => hne rfl
  | cons count counts => exact iff_of_true rfl (List.cons_ne_nil _ _)

theorem accepts_seq {first second : Regex} {input : List Char} {head : ℕ}
    (hhead : head ∈ first.lengths input) (hrest : second.Accepts (input.drop head)) :
    (seq first second).Accepts input := by
  obtain ⟨tail, htail⟩ := List.exists_mem_of_ne_nil _ hrest
  exact List.ne_nil_of_mem (mem_lengths_seq.2 ⟨head, hhead, tail, htail, rfl⟩)

theorem accepts_text {chars rest : List Char} {second : Regex} (hrest : second.Accepts rest) :
    (seq (text chars) second).Accepts (chars ++ rest) := by
  have hhead : chars.length ∈ (text chars).lengths (chars ++ rest) := by
    rw [lengths, if_pos (List.prefix_append _ _)]
    exact List.mem_singleton_self _
  refine accepts_seq hhead ?_
  rwa [List.drop_left]

theorem accepts_greedy {allowed : Char → Bool} {least : ℕ} {run rest : List Char}
    {second : Regex} (hrun : ∀ symbol ∈ run, allowed symbol = true)
    (hlength : least ≤ run.length) (hrest : second.Accepts rest) :
    (seq (greedy allowed least) second).Accepts (run ++ rest) := by
  have hhead : run.length ∈ (greedy allowed least).lengths (run ++ rest) := by
    rw [lengths, List.mem_reverse, mem_counts, List.takeWhile_append_of_pos hrun,
      List.length_append]
    exact ⟨hlength, Nat.le_add_right _ _⟩
  refine accepts_seq hhead ?_
  rwa [List.drop_left]

theorem Accepts.assoc {first second third : Regex} {input : List Char}
    (haccepts : (seq first (seq second third)).Accepts input) :
    (seq (seq first second) third).Accepts input := by
  obtain ⟨count, hcount⟩ := List.exists_mem_of_ne_nil _ haccepts
  obtain ⟨head, hhead, rest, hrest, rfl⟩ := mem_lengths_seq.1 hcount
  obtain ⟨middle, hmiddle, tail, htail, rfl⟩ := mem_lengths_seq.1 hrest
  refine accepts_seq (mem_lengths_seq.2 ⟨head, hhead, middle, hmiddle, rfl⟩) ?_
  rw [← List.drop_drop]
  exact List.ne_nil_of_mem htail

theorem Accepts.alt_left {first other second : Regex} {input : List Char}
    (haccepts : (seq first second).Accepts input) :
    (seq (alt first other) second).Accepts input := by
  obtain ⟨count, hcount⟩ := List.exists_mem_of_ne_nil _ haccepts
  obtain ⟨head, hhead, tail, htail, rfl⟩ := mem_lengths_seq.1 hcount
  exact accepts_seq (List.mem_append_left _ hhead) (List.ne_nil_of_mem htail)

theorem Accepts.alt_right {first other second : Regex} {input : List Char}
    (haccepts : (seq other second).Accepts input) :
    (seq (alt first other) second).Accepts input := by
  obtain ⟨count, hcount⟩ := List.exists_mem_of_ne_nil _ haccepts
  obtain ⟨head, hhead, tail, htail, rfl⟩ := mem_lengths_seq.1 hcount
  exact accepts_seq (List.mem_append_right _ hhead) (List.ne_nil_of_mem htail)

theorem accepts_text_end (chars : List Char) : (seq (text chars) endOfText).Accepts chars := by
  have hend : (seq (text chars) endOfText).Accepts (chars ++ []) :=
    accepts_text (List.cons_ne_nil _ _)
  rwa [List.append_nil] at hend

end Regex
end Kitaebot
