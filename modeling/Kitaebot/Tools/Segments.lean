import Mathlib.Data.List.Forall2
import Kitaebot.Core.Shell
import Kitaebot.Tools.Exec

/-!
# The splitter and the shell

The scanners of the command filter keep a quote state and an escape flag; the
shell also knows comments and more operators.  Read side by side they agree
symbol by symbol, up to the first comment.
-/

namespace Kitaebot.Tools

open Kitaebot.Shell

/-- What the scanners know of the shell's mode. -/
def quoteOf : Mode → QuoteState × Bool
  | .plain => (.none, false)
  | .escaped => (.none, true)
  | .single => (.single, false)
  | .double => (.double, false)
  | .doubleEscaped => (.double, true)
  | .comment => (.none, false)

/-- No symbol is an operator. -/
def noOperator : Char → Bool := fun _ => false

/-- The token of a separator. -/
def separatorToken (symbol : Char) : Token :=
  if symbol = '\n' then .newline else .operator symbol

/-- A symbol that scanners and shell pass alike: it splits nothing, and the
words it ends are the same whether or not operators are known. -/
structure Quiet (mode : Mode) (current : Option Word) (symbol : Char) : Prop where
  split : ∀ segment rest,
    splitFrom (quoteOf mode).1 (quoteOf mode).2 segment (symbol :: rest) =
      splitFrom (quoteOf (step isOperator mode current symbol).2.1).1
        (quoteOf (step isOperator mode current symbol).2.1).2
        (segment ++ [symbol]) rest
  redirection : ∀ rest,
    redirectionFrom (quoteOf mode).1 (quoteOf mode).2 (symbol :: rest) =
      redirectionFrom (quoteOf (step isOperator mode current symbol).2.1).1
        (quoteOf (step isOperator mode current symbol).2.1).2 rest
  same : step noOperator mode current symbol = step isOperator mode current symbol
  words : ∃ words : List Word,
    (step isOperator mode current symbol).1 = words.map .word
  notComment : (step isOperator mode current symbol).2.1 ≠ .comment

/-- What a symbol outside comments can be. -/
inductive Kind (mode : Mode) (current : Option Word) (symbol : Char) : Prop where
  | quiet (hquiet : Quiet mode current symbol)
  | separator (hmode : mode = .plain) (hsymbol : isSeparator symbol = true)
      (hstep : step isOperator mode current symbol =
        (close current ++ [separatorToken symbol], .plain, none))
  | bracket (hmode : mode = .plain) (hsymbol : symbol ∈ ['(', ')', '<', '>'])
      (hstep : step isOperator mode current symbol =
        (close current ++ [.operator symbol], .plain, none))
  | comment (hmode : mode = .plain) (hsign : symbol = '#' ∧ current = none)
      (hstep : step isOperator mode current symbol = ([.comment], .comment, none))

/-- A symbol that is not escaped and, outside quotes, splits nothing. -/
theorem Quiet.of_next {mode : Mode} {current : Option Word} {symbol : Char}
    (hescaped : (quoteOf mode).2 = false)
    (hkeep : (quoteOf mode).1 = .none →
      isSeparator symbol = false ∧ symbol ≠ '<' ∧ symbol ≠ '>')
    (hnext : quoteOf (step isOperator mode current symbol).2.1 =
      (quoteOf mode).1.next symbol)
    (hsame : step noOperator mode current symbol =
      step isOperator mode current symbol)
    (hwords : ∃ words : List Word,
      (step isOperator mode current symbol).1 = words.map .word)
    (hnot : (step isOperator mode current symbol).2.1 ≠ .comment) :
    Quiet mode current symbol := by
  refine ⟨fun segment rest => ?_, fun rest => ?_, hsame, hwords, hnot⟩
  · have hno : ¬ ((quoteOf mode).1 = .none ∧ isSeparator symbol = true) := by
      rintro ⟨hnone, hsep⟩
      rw [(hkeep hnone).1] at hsep
      cases hsep
    rw [splitFrom, hescaped, hnext, if_neg Bool.false_ne_true, if_neg hno]
  · have hno : ¬ ((quoteOf mode).1 = .none ∧ (symbol = '<' ∨ symbol = '>')) := by
      rintro ⟨hnone, hsymbol⟩
      exact hsymbol.elim (hkeep hnone).2.1 (hkeep hnone).2.2
    rw [redirectionFrom, hescaped, hnext, if_neg Bool.false_ne_true, if_neg hno]

/-- A symbol after a backslash. -/
theorem Quiet.of_escaped {mode : Mode} {current : Option Word} {symbol : Char}
    (hescaped : (quoteOf mode).2 = true)
    (hnext : quoteOf (step isOperator mode current symbol).2.1 =
      ((quoteOf mode).1, false))
    (hsame : step noOperator mode current symbol =
      step isOperator mode current symbol)
    (hwords : ∃ words : List Word,
      (step isOperator mode current symbol).1 = words.map .word)
    (hnot : (step isOperator mode current symbol).2.1 ≠ .comment) :
    Quiet mode current symbol := by
  refine ⟨fun segment rest => ?_, fun rest => ?_, hsame, hwords, hnot⟩
  · rw [splitFrom, hescaped, hnext, if_pos rfl]
  · rw [redirectionFrom, hescaped, hnext, if_pos rfl]

theorem close_words (current : Option Word) :
    ∃ words : List Word, close current = words.map .word := by
  cases current with
  | none => exact ⟨[], rfl⟩
  | some word => exact ⟨[word], rfl⟩

/-- A symbol outside quotes that is no operator, line end or comment sign. -/
theorem quiet_plain {current : Option Word} {symbol : Char}
    (hsep : isSeparator symbol = false)
    (hbracket : symbol ∉ ['(', ')', '<', '>'])
    (hcomment : ¬ (symbol = '#' ∧ current = none)) :
    Quiet .plain current symbol := by
  have hoperator : isOperator symbol = false := by
    simp only [isSeparator, List.mem_cons, List.not_mem_nil, or_false,
      decide_eq_false_iff_not, not_or] at hsep hbracket
    simp [isOperator, hsep, hbracket]
  have hline : symbol ≠ '\n' := by
    rintro rfl
    cases hsep
  have hkeep : QuoteState.none = .none →
      isSeparator symbol = false ∧ symbol ≠ '<' ∧ symbol ≠ '>' := by
    simp only [List.mem_cons, List.not_mem_nil, or_false, not_or] at hbracket
    exact fun _ => ⟨hsep, hbracket.2.2⟩
  by_cases hslash : symbol = '\\'
  · subst hslash
    exact .of_next rfl hkeep rfl rfl ⟨[], rfl⟩ nofun
  by_cases hsingle : symbol = '\''
  · subst hsingle
    exact .of_next rfl hkeep rfl rfl ⟨[], rfl⟩ nofun
  by_cases hdouble : symbol = '"'
  · subst hdouble
    exact .of_next rfl hkeep rfl rfl ⟨[], rfl⟩ nofun
  have hnext : QuoteState.none.next symbol = (.none, false) := by
    simp [QuoteState.next, hslash, hsingle, hdouble]
  by_cases hblank : symbol = ' ' ∨ symbol = '\t'
  · have hstep (operator : Char → Bool) : step operator .plain current symbol =
        (close current, .plain, none) := by
      simp [step, hslash, hsingle, hdouble, hcomment, hline, hblank]
    refine .of_next rfl hkeep ?_ ?_ ?_ ?_
    · rw [hstep]
      exact hnext.symm
    · rw [hstep, hstep]
    · rw [hstep]
      exact close_words current
    · rw [hstep]
      exact nofun
  · have hstep (operator : Char → Bool) (hnone : operator symbol = false) :
        step operator .plain current symbol =
          ([], .plain, push current symbol false) := by
      simp [step, hslash, hsingle, hdouble, hcomment, hline, hblank, hnone]
    refine .of_next rfl hkeep ?_ ?_ ?_ ?_
    · rw [hstep _ hoperator]
      exact hnext.symm
    · rw [hstep _ hoperator, hstep _ rfl]
    · rw [hstep _ hoperator]
      exact ⟨[], rfl⟩
    · rw [hstep _ hoperator]
      exact nofun

theorem quiet_escaped (current : Option Word) (symbol : Char) :
    Quiet .escaped current symbol := by
  by_cases hline : symbol = '\n'
  · subst hline
    exact .of_escaped rfl rfl rfl ⟨[], rfl⟩ nofun
  · have hstep (operator : Char → Bool) : step operator .escaped current symbol =
        ([], .plain, push current symbol true) := by simp [step, hline]
    refine .of_escaped rfl ?_ ?_ ?_ ?_ <;> rw [hstep]
    · rfl
    · rw [hstep]
    · exact ⟨[], rfl⟩
    · exact nofun

/-- Inside quotes nothing is a separator. -/
theorem keeps_of_ne {state : QuoteState} {symbol : Char} (hquoted : state ≠ .none) :
    state = .none → isSeparator symbol = false ∧ symbol ≠ '<' ∧ symbol ≠ '>' :=
  fun hnone => absurd hnone hquoted

theorem plain_ne_comment : Mode.plain ≠ .comment := by decide

theorem single_ne_comment : Mode.single ≠ .comment := by decide

theorem double_ne_comment : Mode.double ≠ .comment := by decide

theorem doubleEscaped_ne_comment : Mode.doubleEscaped ≠ .comment := by decide

theorem single_ne_none : QuoteState.single ≠ .none := by decide

theorem double_ne_none : QuoteState.double ≠ .none := by decide

theorem quiet_single (current : Option Word) (symbol : Char) :
    Quiet .single current symbol := by
  by_cases hquote : symbol = '\''
  · subst hquote
    exact .of_next rfl (keeps_of_ne single_ne_none) rfl rfl ⟨[], rfl⟩
      plain_ne_comment
  · have hstep (operator : Char → Bool) : step operator .single current symbol =
        ([], .single, push current symbol true) := by simp [step, hquote]
    refine .of_next rfl (keeps_of_ne single_ne_none) ?_ ?_ ?_ ?_ <;> rw [hstep]
    · simp [quoteOf, QuoteState.next, hquote]
    · rw [hstep]
    · exact ⟨[], rfl⟩
    · exact single_ne_comment

theorem quiet_double (current : Option Word) (symbol : Char) :
    Quiet .double current symbol := by
  by_cases hquote : symbol = '"'
  · subst hquote
    exact .of_next rfl (keeps_of_ne double_ne_none) rfl rfl ⟨[], rfl⟩
      plain_ne_comment
  by_cases hslash : symbol = '\\'
  · subst hslash
    exact .of_next rfl (keeps_of_ne double_ne_none) rfl rfl ⟨[], rfl⟩
      doubleEscaped_ne_comment
  · have hstep (operator : Char → Bool) : step operator .double current symbol =
        ([], .double, push current symbol true) := by simp [step, hquote, hslash]
    refine .of_next rfl (keeps_of_ne double_ne_none) ?_ ?_ ?_ ?_ <;> rw [hstep]
    · simp [quoteOf, QuoteState.next, hquote, hslash]
    · rw [hstep]
    · exact ⟨[], rfl⟩
    · exact double_ne_comment

theorem quiet_doubleEscaped (current : Option Word) (symbol : Char) :
    Quiet .doubleEscaped current symbol := by
  have hstep : ∃ word, ∀ operator, step operator .doubleEscaped current symbol =
      ([], .double, word) := by
    by_cases hline : symbol = '\n'
    · exact ⟨current, fun _ => by simp [step, hline]⟩
    by_cases hescapable : symbol ∈ escapable
    · exact ⟨push current symbol true, fun _ => by
        simp [step, hline, hescapable]⟩
    · exact ⟨push (push current '\\' true) symbol true, fun _ => by
        simp [step, hline, hescapable]⟩
  obtain ⟨word, hstep⟩ := hstep
  refine .of_escaped rfl ?_ ?_ ?_ ?_ <;> rw [hstep]
  · rfl
  · rw [hstep]
  · exact ⟨[], rfl⟩
  · exact nofun

/-- Outside comments a symbol is quiet, an operator or starts a comment. -/
theorem kind_of {mode : Mode} (hmode : mode ≠ .comment) (current : Option Word)
    (symbol : Char) : Kind mode current symbol := by
  cases mode with
  | plain =>
      by_cases hsep : isSeparator symbol = true
      · refine .separator rfl hsep ?_
        simp only [isSeparator, List.mem_cons, List.not_mem_nil, or_false,
          decide_eq_true_eq] at hsep
        rcases hsep with rfl | rfl | rfl | rfl <;>
          simp [step, separatorToken, isOperator]
      by_cases hbracket : symbol ∈ ['(', ')', '<', '>']
      · refine .bracket rfl hbracket ?_
        simp only [List.mem_cons, List.not_mem_nil, or_false] at hbracket
        rcases hbracket with rfl | rfl | rfl | rfl <;> simp [step, isOperator]
      by_cases hcomment : symbol = '#' ∧ current = none
      · obtain ⟨rfl, rfl⟩ := hcomment
        exact .comment rfl ⟨rfl, rfl⟩ (by simp [step])
      · exact .quiet (quiet_plain (Bool.eq_false_of_not_eq_true hsep) hbracket
          hcomment)
  | escaped => exact .quiet (quiet_escaped current symbol)
  | single => exact .quiet (quiet_single current symbol)
  | double => exact .quiet (quiet_double current symbol)
  | doubleEscaped => exact .quiet (quiet_doubleEscaped current symbol)
  | comment => exact absurd rfl hmode

/-! ### Segments are commands -/

def isPlainToken : Token → Bool
  | .word _ => true
  | .operator symbol => symbol ∈ ['|', '&', ';']
  | .newline => true
  | .comment => false

/-- Words and separators only. -/
def Plain (tokens : List Token) : Prop :=
  ∀ token ∈ tokens, isPlainToken token = true

instance (tokens : List Token) : Decidable (Plain tokens) :=
  inferInstanceAs (Decidable (∀ token ∈ tokens, _))

/-- What was read of a segment stays at its front. -/
theorem splitFrom_segment (state : QuoteState) (escaped : Bool)
    (rest : List Char) :
    ∃ head tail, ∀ segment,
      splitFrom state escaped segment rest = (segment ++ head) :: tail := by
  induction rest generalizing state escaped with
  | nil => exact ⟨[], [], fun segment => by rw [splitFrom, List.append_nil]⟩
  | cons symbol rest ih =>
      cases escaped with
      | true =>
          obtain ⟨head, tail, ih⟩ := ih state false
          refine ⟨symbol :: head, tail, fun segment => ?_⟩
          rw [splitFrom, if_pos rfl, ih, List.append_assoc, List.singleton_append]
      | false =>
          by_cases hsep : state = .none ∧ isSeparator symbol = true
          · refine ⟨[], splitFrom .none false [] rest, fun segment => ?_⟩
            rw [splitFrom, if_neg Bool.false_ne_true, if_pos hsep,
              List.append_nil]
          · obtain ⟨head, tail, ih⟩ := ih (state.next symbol).1 (state.next symbol).2
            refine ⟨symbol :: head, tail, fun segment => ?_⟩
            rw [splitFrom, if_neg Bool.false_ne_true, if_neg hsep]
            show splitFrom (state.next symbol).1 (state.next symbol).2
              (segment ++ [symbol]) rest = _
            rw [ih, List.append_assoc, List.singleton_append]

/-- One symbol of the reader. -/
theorem lexFrom_cons (operator : Char → Bool) (mode : Mode)
    (current : Option Word) (symbol : Char) (rest : List Char) :
    lexFrom operator mode current (symbol :: rest) =
      (lexFrom operator (step operator mode current symbol).2.1
        (step operator mode current symbol).2.2 rest).map
          ((step operator mode current symbol).1 ++ ·) := by
  cases mode <;> rfl

theorem groupsOf_words (words : List Word) {tokens : List Token}
    {group : List Word} {groups : List (List Word)}
    (hgroups : groupsOf tokens = group :: groups) :
    groupsOf (words.map .word ++ tokens) = (words ++ group) :: groups := by
  induction words with
  | nil => exact hgroups
  | cons word words ih =>
      rw [List.map_cons, List.cons_append, groupsOf, ih]
      rfl

theorem groupsOf_separator (symbol : Char) (tokens : List Token) :
    groupsOf (separatorToken symbol :: tokens) = [] :: groupsOf tokens := by
  rw [separatorToken]
  split <;> rfl

/-- The text of some words. -/
def Spells (mode : Mode) (current : Option Word) (text : List Char)
    (words : List Word) : Prop :=
  lexFrom noOperator mode current text = some (words.map .word)

theorem Spells.cons {mode : Mode} {current : Option Word} {symbol : Char}
    {text : List Char} {done words : List Word}
    (hdone : (step noOperator mode current symbol).1 = done.map .word)
    (hrest : Spells (step noOperator mode current symbol).2.1
      (step noOperator mode current symbol).2.2 text words) :
    Spells mode current (symbol :: text) (done ++ words) := by
  rw [Spells, lexFrom_cons, hdone, hrest, Option.map_some, List.map_append]

/-- The segments of a command line of words and separators spell the groups of
its words. -/
theorem splitFrom_spells {mode : Mode} {current : Option Word}
    {rest : List Char} {tokens : List Token} (hmode : mode ≠ .comment)
    (hlex : lexFrom isOperator mode current rest = some tokens)
    (hplain : Plain tokens) :
    ∃ head tail group groups,
      splitFrom (quoteOf mode).1 (quoteOf mode).2 [] rest = head :: tail ∧
        groupsOf tokens = group :: groups ∧
        Spells mode current head group ∧
        List.Forall₂ (Spells .plain none) tail groups := by
  induction rest generalizing mode current tokens with
  | nil =>
      cases mode with
      | plain =>
          obtain ⟨words, hwords⟩ := close_words current
          obtain rfl := Option.some.inj hlex
          refine ⟨[], [], words, [], rfl, ?_, ?_, .nil⟩
          · have hgroups : groupsOf (words.map .word ++ []) = [words ++ []] :=
              groupsOf_words words rfl
            rwa [← hwords, List.append_nil, List.append_nil] at hgroups
          · rw [Spells, ← hwords]
            rfl
      | comment => exact absurd rfl hmode
      | _ => cases hlex
  | cons symbol rest ih =>
      rw [lexFrom_cons, Option.map_eq_some_iff] at hlex
      obtain ⟨later, hlater, rfl⟩ := hlex
      have hlaterPlain : Plain later := fun token hmem =>
        hplain token (List.mem_append_right _ hmem)
      cases kind_of hmode current symbol with
      | quiet hquiet =>
          obtain ⟨done, hdone⟩ := hquiet.words
          obtain ⟨head, tail, group, groups, hsplit, hgroups, hhead, htail⟩ :=
            ih hquiet.notComment hlater hlaterPlain
          obtain ⟨first, others, hsegment⟩ := splitFrom_segment
            (quoteOf (step isOperator mode current symbol).2.1).1
            (quoteOf (step isOperator mode current symbol).2.1).2 rest
          obtain ⟨rfl, rfl⟩ := List.cons.inj ((hsegment []).symm.trans hsplit)
          refine ⟨symbol :: first, others, done ++ group, groups, ?_, ?_, ?_,
            htail⟩
          · rw [hquiet.split, hsegment]
            rfl
          · rw [hdone]
            exact groupsOf_words done hgroups
          · refine Spells.cons ?_ ?_ <;> rw [hquiet.same]
            · exact hdone
            · exact hhead
      | separator hplainMode hsymbol hstep =>
          subst hplainMode
          rw [hstep] at hlater ⊢
          obtain ⟨head, tail, group, groups, hsplit, hgroups, hhead, htail⟩ :=
            ih hmode hlater hlaterPlain
          obtain ⟨words, hwords⟩ := close_words current
          refine ⟨[], head :: tail, words, group :: groups, ?_, ?_, ?_,
            .cons hhead htail⟩
          · change splitFrom .none false [] (symbol :: rest) = _
            rw [splitFrom, if_neg Bool.false_ne_true, if_pos ⟨rfl, hsymbol⟩]
            exact congrArg _ hsplit
          · rw [hwords, List.append_assoc]
            have hnext := groupsOf_separator symbol later
            rw [hgroups] at hnext
            have hall := groupsOf_words words hnext
            rwa [List.append_nil] at hall
          · rw [Spells, ← hwords]
            rfl
      | bracket hplainMode hsymbol hstep =>
          have hbad := hplain (.operator symbol) (by simp [hstep])
          simp only [List.mem_cons, List.not_mem_nil, or_false] at hsymbol
          rcases hsymbol with rfl | rfl | rfl | rfl <;> cases hbad
      | comment hplainMode hsign hstep =>
          exact absurd (hplain .comment (by simp [hstep])) Bool.false_ne_true

/-- Of a plain command line every segment tokenizes to the words of its
command. -/
theorem segments_spell {cmd : String} {tokens : List Token}
    (hlex : lex cmd = some tokens) (hplain : Plain tokens) :
    List.Forall₂ (fun segment words =>
        posixSplit segment = some (words.map value))
      (splitUnquotedSeparators cmd) (groupsOf tokens) := by
  obtain ⟨head, tail, group, groups, hsplit, hgroups, hhead, htail⟩ :=
    splitFrom_spells (show Mode.plain ≠ .comment from nofun) hlex hplain
  have hspell (segment : List Char) (words : List Word)
      (hspells : Spells .plain none segment words) :
      posixSplit (String.ofList segment) = some (words.map value) := by
    rw [posixSplit, String.toList_ofList]
    change (lexFrom noOperator .plain none segment).map _ = _
    rw [hspells, Option.map_some, wordsOf_words]
  have hsegments : splitUnquotedSeparators cmd =
      (head :: tail).map String.ofList := congrArg _ hsplit
  rw [hsegments, hgroups, List.forall₂_map_left_iff]
  exact .cons (hspell _ _ hhead) (htail.imp hspell)

end Kitaebot.Tools
