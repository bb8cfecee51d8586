import Mathlib.Data.List.Infix
import Kitaebot.Tools.CommandDeny

/-!
# Exempt searches

A static search is not shown to the raw-string rules.  Three readers must agree
for that: the scanners, the tokenizer and the shell.  They do up to the first
comment; quotes in a comment move the scanners but not the shell, which starts a
new command at the next line.
-/

namespace Kitaebot.Tools

open Kitaebot.Shell

/-- A word that names grep or rg. -/
def IsSearch (word : Word) : Prop :=
  binaryName (value word) = "grep" ∨ binaryName (value word) = "rg"

instance (word : Word) : Decidable (IsSearch word) :=
  inferInstanceAs (Decidable (_ ∨ _))

/-- The commands of a token list, without the empty ones. -/
def commandsOf (tokens : List Token) : List (List Word) :=
  (groupsOf tokens).filter fun words => !words.isEmpty

/-- The word a simple command runs: the first that is no assignment. -/
def binaryOf (words : List Word) : Option Word :=
  words.find? fun word => !isAssignment word

def NoOperator (tokens : List Token) : Prop :=
  ∀ symbol, Token.operator symbol ∉ tokens

/-- The shell runs one simple command, grep or rg, with no redirection and
nothing to substitute. -/
def OneSearch (cmd : String) : Prop :=
  ∃ tokens, lex cmd = some tokens ∧ NoOperator tokens ∧
    (∃ words, commandsOf tokens = [words] ∧
      ∃ binary ∈ binaryOf words, IsSearch binary) ∧
    '$' ∉ cmd.toList ∧ '\x60' ∉ cmd.toList

/-- No parenthesis, no binary that only looks like an assignment, and no comment
before a line end, unless everything else is on one line without operators. -/
def Readable (cmd : String) : Prop :=
  ∃ tokens, lex cmd = some tokens ∧
    (Token.operator '(' ∉ tokens ∧ Token.operator ')' ∉ tokens) ∧
    (∀ binary ∈ binaryOf (wordsOf tokens),
      isEnvAssignment (value binary) = true → IsSearch binary) ∧
    (¬ [.comment, .newline] <:+: tokens ∨
      NoOperator tokens ∧ (commandsOf tokens).length ≤ 1)

/-! ### Agreement up to the first comment -/

/-- After a comment the shell reads a line end or nothing. -/
theorem lexFrom_comment {rest : List Char} {current : Option Word}
    {tokens : List Token}
    (hlex : lexFrom isOperator .comment current rest = some tokens) :
    tokens = [] ∨ ∃ later, tokens = .newline :: later := by
  induction rest generalizing current tokens with
  | nil => exact .inl (Option.some.inj hlex).symm
  | cons symbol rest ih =>
      rw [lexFrom_cons, Option.map_eq_some_iff] at hlex
      obtain ⟨later, hlater, rfl⟩ := hlex
      by_cases hline : symbol = '\n'
      · exact .inr ⟨later, by simp [step, hline]⟩
      · have hstep : step isOperator .comment current symbol =
            ([], .comment, none) := by simp [step, hline]
        rw [hstep] at hlater
        rw [hstep]
        exact ih hlater

theorem splitFrom_ne_nil (state : QuoteState) (escaped : Bool)
    (segment rest : List Char) : splitFrom state escaped segment rest ≠ [] := by
  obtain ⟨head, tail, hsegment⟩ := splitFrom_segment state escaped rest
  rw [hsegment]
  exact List.cons_ne_nil _ _

/-- Where the scanners see one segment without redirections, and no comment
before a line end throws them off, the shell sees words only. -/
theorem lexFrom_unsplit {mode : Mode} {current : Option Word}
    {rest : List Char} {tokens : List Token} (hmode : mode ≠ .comment)
    (hlex : lexFrom isOperator mode current rest = some tokens)
    (segment : List Char)
    (hsplit : (splitFrom (quoteOf mode).1 (quoteOf mode).2 segment rest).length = 1)
    (hredirection :
      redirectionFrom (quoteOf mode).1 (quoteOf mode).2 rest = false)
    (hparens : Token.operator '(' ∉ tokens ∧ Token.operator ')' ∉ tokens)
    (hcomment : ¬ [.comment, .newline] <:+: tokens) :
    NoOperator tokens ∧ Token.newline ∉ tokens := by
  induction rest generalizing mode current tokens segment with
  | nil =>
      cases mode with
      | plain =>
          obtain ⟨words, hwords⟩ := close_words current
          obtain rfl := Option.some.inj hlex
          rw [hwords]
          simp [NoOperator]
      | comment => exact absurd rfl hmode
      | _ => cases hlex
  | cons symbol rest ih =>
      rw [lexFrom_cons, Option.map_eq_some_iff] at hlex
      obtain ⟨later, hlater, rfl⟩ := hlex
      cases kind_of hmode current symbol with
      | quiet hquiet =>
          obtain ⟨done, hdone⟩ := hquiet.words
          rw [hquiet.split] at hsplit
          rw [hquiet.redirection] at hredirection
          have hrest := ih hquiet.notComment hlater _ hsplit hredirection
            ⟨fun hmem => hparens.1 (List.mem_append_right _ hmem),
              fun hmem => hparens.2 (List.mem_append_right _ hmem)⟩
            fun hsub => hcomment (hsub.trans (List.suffix_append _ _).isInfix)
          rw [hdone]
          simpa [NoOperator] using hrest
      | separator hplain hsymbol hstep =>
          subst hplain
          change (splitFrom .none false segment (symbol :: rest)).length = 1
            at hsplit
          rw [splitFrom, if_neg Bool.false_ne_true, if_pos ⟨rfl, hsymbol⟩,
            List.length_cons, Nat.add_eq_right, List.length_eq_zero_iff] at hsplit
          exact absurd hsplit (splitFrom_ne_nil _ _ _ _)
      | bracket hplain hsymbol hstep =>
          subst hplain
          have hmem : Token.operator symbol ∈
              (step isOperator .plain current symbol).1 ++ later := by simp [hstep]
          simp only [List.mem_cons, List.not_mem_nil, or_false] at hsymbol
          rcases hsymbol with rfl | rfl | rfl | rfl
          · exact absurd hmem hparens.1
          · exact absurd hmem hparens.2
          · simp [redirectionFrom, quoteOf] at hredirection
          · simp [redirectionFrom, quoteOf] at hredirection
      | comment hplain hsign hstep =>
          rw [hstep] at hlater hcomment
          change lexFrom isOperator .comment none rest = some later at hlater
          rw [hstep]
          rcases lexFrom_comment hlater with rfl | ⟨later, rfl⟩
          · simp [NoOperator]
          · exact absurd ⟨[], later, rfl⟩ hcomment

/-- Where the shell reads no operators it does not matter whether it knows
them. -/
theorem lexFrom_noOperator {mode : Mode} {current : Option Word}
    {rest : List Char} {tokens : List Token}
    (hlex : lexFrom isOperator mode current rest = some tokens)
    (hnone : NoOperator tokens) :
    lexFrom noOperator mode current rest = some tokens := by
  induction rest generalizing mode current tokens with
  | nil => cases mode <;> exact hlex
  | cons symbol rest ih =>
      rw [lexFrom_cons, Option.map_eq_some_iff] at hlex
      obtain ⟨later, hlater, rfl⟩ := hlex
      have hsame : step noOperator mode current symbol =
          step isOperator mode current symbol := by
        by_cases hmode : mode = .comment
        · subst hmode
          rfl
        cases kind_of hmode current symbol with
        | quiet hquiet => exact hquiet.same
        | separator hplain hsymbol hstep =>
            subst hplain
            by_cases hline : symbol = '\n'
            · subst hline
              rfl
            · refine absurd ?_ (hnone symbol)
              simp [hstep, separatorToken, hline]
        | bracket hplain hsymbol hstep =>
            exact absurd (by simp [hstep]) (hnone symbol)
        | comment hplain hsign hstep =>
            obtain ⟨rfl, rfl⟩ := hsign
            subst hplain
            rfl
      rw [lexFrom_cons, hsame, ih hlater, Option.map_some]
      exact fun symbol hmem => hnone symbol (List.mem_append_right _ hmem)

theorem flatten_groupsOf (tokens : List Token) :
    (groupsOf tokens).flatten = wordsOf tokens := by
  induction tokens with
  | nil => rfl
  | cons token tokens ih =>
      cases token with
      | word word =>
          rw [wordsOf_word, ← ih, groupsOf]
          split
          · next hnil => exact absurd hnil (groupsOf_ne_nil tokens)
          · next hcons => rw [hcons, List.flatten_cons, List.flatten_cons,
              List.cons_append]
      | operator symbol => exact ih
      | newline => exact ih
      | comment => exact ih

/-- The commands together are all the words. -/
theorem flatten_commandsOf (tokens : List Token) :
    (commandsOf tokens).flatten = wordsOf tokens := by
  rw [← flatten_groupsOf, commandsOf]
  induction groupsOf tokens with
  | nil => rfl
  | cons group groups ih =>
      cases group with
      | nil => exact ih
      | cons word words =>
          rw [List.filter_cons_of_pos rfl, List.flatten_cons, List.flatten_cons, ih]

/-- Without operators and line ends there is one command at most. -/
theorem length_commandsOf_le {tokens : List Token} (hnone : NoOperator tokens)
    (hline : Token.newline ∉ tokens) : (commandsOf tokens).length ≤ 1 := by
  have hgroups : (groupsOf tokens).length = 1 := by
    induction tokens with
    | nil => rfl
    | cons token tokens ih =>
        have ih := ih (fun symbol hmem => hnone symbol (.tail _ hmem))
          fun hmem => hline (.tail _ hmem)
        cases token with
        | word word =>
            rw [groupsOf]
            split
            · rfl
            · next hcons => rwa [hcons] at ih
        | operator symbol => exact absurd (.head _) (hnone symbol)
        | newline => exact absurd (.head _) hline
        | comment => exact ih
  exact hgroups ▸ List.length_filter_le _ _

/-- What the exemption checks. -/
theorem inertSearch_iff {shlex : String → Option (List String)} {cmd : String} :
    inertSearch shlex cmd = true ↔
      splitUnquotedSeparators cmd = [cmd] ∧ hasUnquotedRedirection cmd = false ∧
        ('$' ∉ cmd.toList ∧ '\x60' ∉ cmd.toList) ∧
        ∃ tokens, shlex cmd = some tokens ∧
          ∃ binary ∈ tokens.find? (fun token => !isEnvAssignment token),
            binaryName binary = "grep" ∨ binaryName binary = "rg" := by
  have hsigns : (cmd.toList.any fun symbol => symbol == '$' || symbol == '\x60') =
      false ↔ '$' ∉ cmd.toList ∧ '\x60' ∉ cmd.toList := by
    simp only [List.any_eq_false, Bool.or_eq_true, beq_iff_eq, not_or]
    exact ⟨fun h => ⟨fun hmem => (h _ hmem).1 rfl, fun hmem => (h _ hmem).2 rfl⟩,
      fun h symbol hmem => ⟨fun heq => h.1 (heq ▸ hmem), fun heq => h.2 (heq ▸ hmem)⟩⟩
  simp only [inertSearch, Bool.and_eq_true, beq_iff_eq, Bool.not_eq_true',
    hsigns, Option.any_eq_true, Bool.or_eq_true, and_assoc, Option.mem_def]

/-- Where the tokenizer's binary is a search, so is the shell's, unless the
shell's looks like an assignment. -/
theorem binaryOf_isSearch {words : List Word}
    (hfound : ∃ binary ∈ (words.map value).find? fun token => !isEnvAssignment token,
      binaryName binary = "grep" ∨ binaryName binary = "rg")
    (hlooks : ∀ binary ∈ binaryOf words,
      isEnvAssignment (value binary) = true → IsSearch binary) :
    ∃ binary ∈ binaryOf words, IsSearch binary := by
  induction words with
  | nil =>
      obtain ⟨binary, hbinary, -⟩ := hfound
      cases hbinary
  | cons word words ih =>
      by_cases hassignment : isAssignment word = true
      · have hbinary : binaryOf (word :: words) = binaryOf words :=
          List.find?_cons_of_neg (by simp [hassignment])
        have henv := isEnvAssignment_of_isAssignment hassignment
        rw [List.map_cons, List.find?_cons_of_neg (by simp [henv])] at hfound
        rw [hbinary] at hlooks ⊢
        exact ih hfound hlooks
      · have hbinary : binaryOf (word :: words) = some word :=
          List.find?_cons_of_pos (by simp [hassignment])
        refine ⟨word, hbinary, ?_⟩
        by_cases henv : isEnvAssignment (value word) = true
        · exact hlooks word hbinary henv
        · rw [List.map_cons, List.find?_cons_of_pos (by simp [henv])] at hfound
          obtain ⟨binary, hsome, hsearch⟩ := hfound
          obtain rfl := Option.some.inj hsome
          exact hsearch

/-- One command is all the words. -/
theorem commandsOf_eq {tokens : List Token} (hlen : (commandsOf tokens).length ≤ 1)
    (hwords : wordsOf tokens ≠ []) : commandsOf tokens = [wordsOf tokens] := by
  have hflatten := flatten_commandsOf tokens
  match hcommands : commandsOf tokens, hlen with
  | [], _ =>
      rw [hcommands] at hflatten
      exact absurd hflatten.symm hwords
  | [words], _ =>
      rw [hcommands, List.flatten_singleton] at hflatten
      rw [hflatten]

/-- An exempt search is one search to the shell as well exactly when it is
readable. -/
theorem inertSearch_sound_iff (shlex : String → Option (List String))
    (hshlex : Posix shlex) (cmd : String) (hinert : inertSearch shlex cmd = true) :
    OneSearch cmd ↔ Readable cmd := by
  obtain ⟨hsplit, hredirection, hsigns, split, hshlexed, hfound⟩ :=
    inertSearch_iff.1 hinert
  constructor
  · rintro ⟨tokens, hlex, hnone, ⟨words, hcommands, binary, hbinary, hsearch⟩, -⟩
    have hwords : wordsOf tokens = words := by
      rw [← flatten_commandsOf, hcommands, List.flatten_singleton]
    refine ⟨tokens, hlex, ⟨hnone _, hnone _⟩, ?_, .inr ⟨hnone, by rw [hcommands]; rfl⟩⟩
    rintro other hother -
    rw [hwords, hbinary] at hother
    exact Option.some.inj hother ▸ hsearch
  · rintro ⟨tokens, hlex, hparens, hlooks, hcomment⟩
    obtain ⟨hnone, hlen⟩ : NoOperator tokens ∧ (commandsOf tokens).length ≤ 1 := by
      rcases hcomment with hcomment | hone
      · have hsegment : (splitFrom .none false [] cmd.toList).length = 1 := by
          have hlength := congrArg List.length hsplit
          rwa [splitUnquotedSeparators, List.length_map] at hlength
        have hmode : Mode.plain ≠ .comment := nofun
        obtain ⟨hnone, hline⟩ :=
          lexFrom_unsplit hmode hlex [] hsegment hredirection hparens hcomment
        exact ⟨hnone, length_commandsOf_le hnone hline⟩
      · exact hone
    have hposix : posixSplit cmd = some ((wordsOf tokens).map value) := by
      rw [posixSplit]
      exact congrArg (Option.map _) (lexFrom_noOperator hlex hnone)
    obtain rfl := Option.some.inj (hshlexed.symm.trans (hshlex _ _ hposix))
    obtain ⟨binary, hbinary, hsearch⟩ := binaryOf_isSearch hfound hlooks
    have hwords : wordsOf tokens ≠ [] := by
      rintro hnil
      rw [hnil] at hbinary
      cases hbinary
    exact ⟨tokens, hlex, hnone,
      ⟨_, commandsOf_eq hlen hwords, binary, hbinary, hsearch⟩, hsigns⟩

/-- An apostrophe in a comment hides the line end, and with it the next command,
from the scanners. -/
def hiddenRemoval : String := "rg foo # it's\nrm -rf dir"

/-- The removal on the second line is a command of its own, and it is refused
alone but not behind the search. -/
theorem hiddenRemoval_inert :
    inertSearch posixSplit hiddenRemoval = true ∧ ¬ OneSearch hiddenRemoval ∧
      blockedReason posixSplit asciiWords hiddenRemoval 600 = none ∧
      (blockedReason posixSplit asciiWords "rm -rf dir" 600).isSome = true := by
  refine ⟨by decide +kernel, ?_, by decide +kernel, by decide +kernel⟩
  rintro ⟨tokens, hlex, -, ⟨words, hcommands, -⟩, -⟩
  obtain rfl := Option.some.inj hlex
  have hlength : ([words] : List (List Word)).length = 2 := by
    rw [← hcommands]
    decide +kernel
  cases hlength

/-- `rg 'a|b' src`. -/
theorem inertSearch_sound_quoted : OneSearch "rg 'a|b' src" := by
  have hinert : inertSearch posixSplit "rg 'a|b' src" = true := by decide +kernel
  refine (inertSearch_sound_iff posixSplit (fun _ _ hsplit => hsplit) _ hinert).2 ?_
  refine ⟨_, rfl, by decide +kernel, ?_, .inl ?_⟩
  · rintro binary hbinary -
    obtain rfl := Option.some.inj hbinary
    decide +kernel
  · decide +kernel

end Kitaebot.Tools
