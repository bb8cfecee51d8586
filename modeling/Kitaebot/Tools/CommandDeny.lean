import Kitaebot.Tools.Segments

/-!
# The structural deny rules

A command line is read as simple commands: assignments, a binary, options before
the subcommand, the subcommand and its arguments.  The rules take for the
subcommand the first word that is no flag and has no `=`, so an option with a
separate value hides the subcommand from them.
-/

namespace Kitaebot.Tools

open Kitaebot.Shell

/-- The tokenizer splits words as the shell does. -/
def Posix (shlex : String → Option (List String)) : Prop :=
  ∀ text words, posixSplit text = some words → shlex text = some words

/-- An option before the subcommand, with its value if that is a word of its
own. -/
structure GlobalOption where
  flag : Word
  argument : Option Word
  isFlag : (value flag).toList.head? = some '-'

def GlobalOption.words (option : GlobalOption) : List Word :=
  option.flag :: option.argument.toList

/-- A simple command. -/
structure Invocation where
  assignments : List Word
  binary : Word
  options : List GlobalOption
  subcommand : Option Word
  args : List Word
  assigned : ∀ word ∈ assignments, isAssignment word = true

namespace Invocation

variable (inv : Invocation) (rule : CommandDeny)

def words : List Word :=
  inv.assignments ++ inv.binary ::
    (inv.options.flatMap GlobalOption.words ++ inv.subcommand.toList ++ inv.args)

/-- The command is one the rule names. -/
def Denied : Prop :=
  binaryName (value inv.binary) = rule.binary ∧
    ∀ denied ∈ rule.subcommand, inv.subcommand.map value = some denied

/-- Nothing hides the command from the rule: its binary does not look like an
assignment, and no option before the subcommand has a value that looks like
one. -/
def Shown : Prop :=
  isEnvAssignment (value inv.binary) = false ∧
    (rule.subcommand.isSome → ∀ option ∈ inv.options,
      ∀ argument ∈ option.argument, isPositional (value argument) = false)

instance : Decidable (inv.Denied rule) := inferInstanceAs (Decidable (_ ∧ _))

instance : Decidable (inv.Shown rule) := inferInstanceAs (Decidable (_ ∧ _))

end Invocation

/-- The command line is made of these simple commands, between pipes, `;`, `&`,
`&&`, `||` and line ends. -/
def Parses (cmd : String) (invs : List Invocation) : Prop :=
  ∃ tokens, lex cmd = some tokens ∧ Plain tokens ∧
    (groupsOf tokens).filter (fun words => !words.isEmpty) =
      invs.map Invocation.words

/-- What the rules take for the binary and the subcommand is denied. -/
def Caught (tokens : List String) : Prop :=
  ∃ name args, tokens.dropWhile isEnvAssignment = name :: args ∧
    ∃ rule ∈ commandDenyRules,
      rule.hits (binaryName name) (args.find? isPositional) = true

/-- A sleep that cannot return within the budget. -/
def Oversleeps (budget : ℕ) (tokens : List String) : Prop :=
  ∃ name args secs, tokens.dropWhile isEnvAssignment = name :: args ∧
    binaryName name = "sleep" ∧ sleepSecs args = some secs ∧
      secs.exceeds (budget - sleepHeadroom) = true

/-- A rule on the whole string fires. -/
def RawRule (shlex : String → Option (List String)) (isWord : Char → Bool)
    (cmd : String) : Prop :=
  ripgrepPreprocessor shlex cmd = true ∨
    (inertSearch shlex cmd = false ∧
      (denySetMatch isWord (sanitize isWord cmd)).isSome = true) ∨
    pipedTestCommand shlex cmd = true

/-! ### What the filter does -/

section Filter

variable {shlex : String → Option (List String)} {isWord : Char → Bool}
  {cmd : String} {budget : ℕ} {invs : List Invocation}

/-- The tokens of one segment are refused for a sleep or for a rule. -/
theorem tokensBlocked_isSome (budget : ℕ) (tokens : List String) :
    (tokensBlocked budget tokens).isSome = true ↔
      Oversleeps budget tokens ∨ Caught tokens := by
  cases hrest : tokens.dropWhile isEnvAssignment with
  | nil => simp [tokensBlocked, Oversleeps, Caught, hrest]
  | cons name args =>
      have hrule : (commandDenyRules.find?
          (·.hits (binaryName name) (args.find? isPositional))).isSome = true ↔
          Caught tokens := by
        simp [Caught, hrest, List.find?_isSome]
      have hsleep : Oversleeps budget tokens ↔ binaryName name = "sleep" ∧
          ∃ secs, sleepSecs args = some secs ∧
            secs.exceeds (budget - sleepHeadroom) = true := by
        simp [Oversleeps, hrest]
      simp only [tokensBlocked, hrest]
      rw [hsleep, ← hrule]
      by_cases hname : binaryName name = "sleep"
      · cases hsecs : sleepSecs args with
        | none => simp [hname]
        | some secs =>
            cases hlong : secs.exceeds (budget - sleepHeadroom) with
            | true => simp [hname, hlong, Option.filter_some_pos]
            | false => simp [hname, hlong, Option.filter_some]
      · simp [hname]

/-- Segment by segment the filter looks at the words of the groups. -/
theorem segments_blocked (hshlex : Posix shlex) {tokens : List Token}
    (hlex : lex cmd = some tokens) (hplain : Plain tokens) (budget : ℕ) :
    (splitUnquotedSeparators cmd).map (segmentBlocked shlex budget) =
      (groupsOf tokens).map fun words =>
        tokensBlocked budget (words.map value) := by
  have hspell := segments_spell hlex hplain
  generalize splitUnquotedSeparators cmd = segments at hspell
  generalize groupsOf tokens = groups at hspell
  induction hspell with
  | nil => rfl
  | cons hsegment _ ih =>
      rw [List.map_cons, List.map_cons, ih, segmentBlocked, hshlex _ _ hsegment]

theorem commandBlocked_isSome (hshlex : Posix shlex) (hparses : Parses cmd invs)
    (budget : ℕ) :
    (commandBlocked shlex cmd budget).isSome = true ↔
      pipedTestCommand shlex cmd = true ∨
        ∃ inv ∈ invs, Oversleeps budget (inv.words.map value) ∨
          Caught (inv.words.map value) := by
  obtain ⟨tokens, hlex, hplain, hgroups⟩ := hparses
  have hwords : (∃ words ∈ groupsOf tokens,
      (tokensBlocked budget (words.map value)).isSome = true) ↔
        ∃ inv ∈ invs,
          (tokensBlocked budget (inv.words.map value)).isSome = true := by
    have hmap : (∃ words ∈ invs.map Invocation.words,
        (tokensBlocked budget (words.map value)).isSome = true) ↔
          ∃ inv ∈ invs,
            (tokensBlocked budget (inv.words.map value)).isSome = true := by
      simp only [List.mem_map, exists_exists_and_eq_and]
    rw [← hmap, ← hgroups]
    constructor
    · rintro ⟨words, hmem, hblocked⟩
      refine ⟨words, List.mem_filter.2 ⟨hmem, ?_⟩, hblocked⟩
      cases words with
      | nil => cases hblocked
      | cons word words => rfl
    · rintro ⟨words, hmem, hblocked⟩
      exact ⟨words, List.mem_of_mem_filter hmem, hblocked⟩
  have hsegments : ((splitUnquotedSeparators cmd).findSome?
      (segmentBlocked shlex budget)).isSome = true ↔
        ∃ words ∈ groupsOf tokens,
          (tokensBlocked budget (words.map value)).isSome = true := by
    have hverdicts := segments_blocked hshlex hlex hplain budget
    have hmem : (∃ verdict ∈ (splitUnquotedSeparators cmd).map
        (segmentBlocked shlex budget), verdict.isSome = true) ↔
          ∃ words ∈ groupsOf tokens,
            (tokensBlocked budget (words.map value)).isSome = true := by
      rw [hverdicts]
      simp only [List.mem_map, exists_exists_and_eq_and]
    rw [List.findSome?_isSome_iff, ← hmem]
    simp only [List.mem_map, exists_exists_and_eq_and]
  rw [commandBlocked]
  split
  · next hpiped => simp [hpiped]
  · next hpiped =>
      rw [hsegments, hwords, or_iff_right hpiped]
      simp only [tokensBlocked_isSome]

/-- When a command line of simple commands is refused. -/
theorem blockedReason_isSome (hshlex : Posix shlex) (isWord : Char → Bool)
    (hparses : Parses cmd invs) (budget : ℕ) :
    (blockedReason shlex isWord cmd budget).isSome = true ↔
      RawRule shlex isWord cmd ∨
        ∃ inv ∈ invs, Oversleeps budget (inv.words.map value) ∨
          Caught (inv.words.map value) := by
  have hcommand := commandBlocked_isSome hshlex hparses budget
  simp only [blockedReason, RawRule]
  cases hpre : ripgrepPreprocessor shlex cmd with
  | true => simp
  | false =>
      cases hinert : inertSearch shlex cmd with
      | true => simpa using hcommand
      | false =>
          cases hdeny : denySetMatch isWord (sanitize isWord cmd) with
          | some guidance => simp
          | none => simpa using hcommand

end Filter

/-! ### What the rules see -/

/-- An assignment of the shell looks like one without its quoting. -/
theorem isEnvAssignment_of_isAssignment {word : Word}
    (hassignment : isAssignment word = true) :
    isEnvAssignment (value word) = true := by
  have htake : (word.map Symbol.char).takeWhile (· != '=') =
      (word.takeWhile fun symbol => symbol.char != '=').map Symbol.char :=
    List.takeWhile_map
  have hdrop : (word.map Symbol.char).dropWhile (· != '=') =
      (word.dropWhile fun symbol => symbol.char != '=').map Symbol.char :=
    List.dropWhile_map
  rw [isAssignment, List.span_eq_takeWhile_dropWhile] at hassignment
  rw [isEnvAssignment, Text.splitOnce, value, String.toList_ofList,
    List.span_eq_takeWhile_dropWhile, htake, hdrop]
  cases hrest : word.dropWhile fun symbol => symbol.char != '=' with
  | nil =>
      rw [hrest] at hassignment
      cases hassignment
  | cons equals rest =>
      rw [hrest] at hassignment
      simp only [Bool.and_eq_true] at hassignment
      have hname := hassignment.1.1
      simp only [List.map_cons, String.toList_ofList]
      cases hchars : (word.takeWhile fun symbol => symbol.char != '=').map
          Symbol.char with
      | nil =>
          rw [hchars] at hname
          cases hname
      | cons first others =>
          rw [hchars] at hname
          exact hname

/-- No denied subcommand is a flag or has a `=`. -/
theorem commandDenyRules_positional :
    ∀ rule ∈ commandDenyRules, ∀ denied ∈ rule.subcommand,
      isPositional denied = true := by
  decide +kernel

theorem GlobalOption.flag_not_positional (option : GlobalOption) :
    isPositional (value option.flag) = false := by
  simp [isPositional, option.isFlag]

/-- A denied command that nothing hides is caught. -/
theorem Invocation.caught_of_shown {inv : Invocation} {rule : CommandDeny}
    (hrule : rule ∈ commandDenyRules) (hdenied : inv.Denied rule)
    (hshown : inv.Shown rule) : Caught (inv.words.map value) := by
  obtain ⟨hbinary, hsubcommand⟩ := hdenied
  obtain ⟨hname, hoptions⟩ := hshown
  have hdrop : (inv.words.map value).dropWhile isEnvAssignment =
      value inv.binary :: (inv.options.flatMap GlobalOption.words ++
        inv.subcommand.toList ++ inv.args).map value := by
    rw [Invocation.words, List.map_append, List.map_cons,
      List.dropWhile_append_of_pos, List.dropWhile_cons_of_neg (by simp [hname])]
    intro token hmem
    obtain ⟨word, hword, rfl⟩ := List.mem_map.1 hmem
    exact isEnvAssignment_of_isAssignment (inv.assigned word hword)
  refine ⟨_, _, hdrop, rule, hrule, ?_⟩
  rw [CommandDeny.hits, hbinary, beq_self_eq_true, Bool.true_and]
  cases hsub : rule.subcommand with
  | none => rfl
  | some denied =>
      have hgiven := hsubcommand denied hsub
      obtain ⟨word, hword, rfl⟩ := Option.map_eq_some_iff.1 hgiven
      have hnone : ((inv.options.flatMap GlobalOption.words).map value).find?
          isPositional = none := by
        rw [List.find?_eq_none]
        intro token hmem
        obtain ⟨word, hword, rfl⟩ := List.mem_map.1 hmem
        obtain ⟨option, hoption, hword⟩ := List.mem_flatMap.1 hword
        rw [GlobalOption.words, List.mem_cons, Option.mem_toList] at hword
        rcases hword with rfl | hargument
        · simp [option.flag_not_positional]
        · simp [hoptions (by simp [hsub]) option hoption word hargument]
      have hpositional := commandDenyRules_positional rule hrule _ hsub
      simp [hword, List.find?_append, hnone, hpositional]

def bareWord (text : String) : Word := text.toList.map fun symbol => ⟨symbol, false⟩

/-- `git -C dir push`. -/
def pushElsewhere : Invocation where
  assignments := []
  binary := bareWord "git"
  options := [⟨bareWord "-C", some (bareWord "dir"), by decide +kernel⟩]
  subcommand := some (bareWord "push")
  args := []
  assigned := nofun

/-- `A=b /usr/bin/git -c x=y push`. -/
def pushPrefixed : Invocation where
  assignments := [bareWord "A=b"]
  binary := bareWord "/usr/bin/git"
  options := [⟨bareWord "-c", some (bareWord "x=y"), by decide +kernel⟩]
  subcommand := some (bareWord "push")
  args := []
  assigned := by decide +kernel

/-- Beyond ASCII no symbol makes a word. -/
abbrev asciiWords : Char → Bool := wordSymbol fun _ => false

end Kitaebot.Tools
