import Mathlib.Data.List.Basic
import Mathlib.Data.String.Basic

/-!
# Search patterns

Expressions that are searched for in a text, with its start and the edges of
words as anchors.  A match at some place is listed by what it leaves: the symbol
before that place and the rest of the text.  The list is in the order in which a
leftmost-first matcher tries the ways to match.
-/

namespace Kitaebot

inductive Pattern where
  | text (chars : List Char)
  | one (allowed : Char → Bool)
  | many (allowed : Char → Bool)
  | seq (first second : Pattern)
  | alt (first second : Pattern)
  | nothing
  | startOfText
  | wordEdge

namespace Pattern

/-- A place in a text: the symbol before it and what follows. -/
abbrev Place := Option Char × List Char

/-- The places a run of allowed symbols can reach, the longest run first. -/
def runs (allowed : Char → Bool) : Option Char → List Char → List Place
  | before, [] => [(before, [])]
  | before, symbol :: rest =>
      if allowed symbol then
        runs allowed (some symbol) rest ++ [(before, symbol :: rest)]
      else [(before, symbol :: rest)]

/-- The place after some literal symbols. -/
def after : List Char → Option Char → List Char → Option Place
  | [], before, rest => some (before, rest)
  | _ :: _, _, [] => none
  | expected :: chars, _, symbol :: rest =>
      if expected = symbol then after chars (some symbol) rest else none

/-- The places a match can end, for a notion of the symbols that make words. -/
def ends (isWord : Char → Bool) : Pattern → Option Char → List Char → List Place
  | text chars, before, rest => (after chars before rest).toList
  | one _, _, [] => []
  | one allowed, _, symbol :: rest =>
      if allowed symbol then [(some symbol, rest)] else []
  | many allowed, before, rest => runs allowed before rest
  | seq first second, before, rest =>
      (first.ends isWord before rest).flatMap fun place =>
        second.ends isWord place.1 place.2
  | alt first second, before, rest =>
      first.ends isWord before rest ++ second.ends isWord before rest
  | nothing, before, rest => [(before, rest)]
  | startOfText, before, rest => if before.isNone then [(before, rest)] else []
  | wordEdge, before, rest =>
      if before.any isWord != rest.head?.any isWord then [(before, rest)] else []

attribute [local simp] ends

/-- The pattern matches somewhere from this place on. -/
def isMatchFrom (isWord : Char → Bool) (pattern : Pattern) :
    Option Char → List Char → Bool
  | before, [] => !(pattern.ends isWord before []).isEmpty
  | before, symbol :: rest =>
      !(pattern.ends isWord before (symbol :: rest)).isEmpty ||
        pattern.isMatchFrom isWord (some symbol) rest

def isMatch (isWord : Char → Bool) (pattern : Pattern) (input : String) : Bool :=
  pattern.isMatchFrom isWord none input.toList

/-- A way to match, and what to put in place of the match. -/
structure Rewrite where
  pattern : Pattern
  replacement : List Char → List Char

/-- The first way that matches at this place: the length of its match and what
replaces it. -/
def firstRewrite (isWord : Char → Bool) (before : Option Char)
    (input : List Char) : List Rewrite → Option (ℕ × List Char)
  | [] => none
  | rewrite :: rewrites =>
      match rewrite.pattern.ends isWord before input with
      | [] => firstRewrite isWord before input rewrites
      | (_, rest) :: _ =>
          let length := input.length - rest.length
          some (length, rewrite.replacement (input.take length))

/-- Replace the matches from left to right; `skip` symbols of the last match
are still to pass. -/
def replaceFrom (isWord : Char → Bool) (rewrites : List Rewrite) :
    ℕ → Option Char → List Char → List Char
  | _, _, [] => []
  | skip + 1, _, symbol :: rest =>
      replaceFrom isWord rewrites skip (some symbol) rest
  | 0, before, symbol :: rest =>
      match firstRewrite isWord before (symbol :: rest) rewrites with
      | none => symbol :: replaceFrom isWord rewrites 0 (some symbol) rest
      | some (length, replacement) =>
          replacement ++
            replaceFrom isWord rewrites (length - 1) (some symbol) rest

def replaceAll (isWord : Char → Bool) (rewrites : List Rewrite)
    (input : String) : String :=
  String.ofList (replaceFrom isWord rewrites 0 none input.toList)

/-- The matches from left to right, none of them empty; `skip` symbols of the
last match are still to pass. -/
def matchesFrom (isWord : Char → Bool) (pattern : Pattern) :
    ℕ → Option Char → List Char → List (List Char)
  | _, _, [] => []
  | skip + 1, _, symbol :: rest =>
      matchesFrom isWord pattern skip (some symbol) rest
  | 0, before, symbol :: rest =>
      match pattern.ends isWord before (symbol :: rest) with
      | [] => matchesFrom isWord pattern 0 (some symbol) rest
      | (_, after) :: _ =>
          let length := (symbol :: rest).length - after.length
          (symbol :: rest).take length ::
            matchesFrom isWord pattern (length - 1) (some symbol) rest

def findIter (isWord : Char → Bool) (pattern : Pattern) (input : String) :
    List String :=
  (matchesFrom isWord pattern 0 none input.toList).map String.ofList

/-! ### Common expressions -/

def literal (chars : String) : Pattern := text chars.toList

/-- One after the other. -/
def all : List Pattern → Pattern
  | [] => nothing
  | [pattern] => pattern
  | pattern :: patterns => seq pattern (all patterns)

/-- One of several, tried in order. -/
def any : List Pattern → Pattern
  | [] => one fun _ => false
  | [pattern] => pattern
  | pattern :: patterns => alt pattern (any patterns)

def plus (allowed : Char → Bool) : Pattern := seq (one allowed) (many allowed)

def optional (pattern : Pattern) : Pattern := alt pattern nothing

def within (low high : Char) (symbol : Char) : Bool :=
  decide (low ≤ symbol) && decide (symbol ≤ high)

def oneOf (chars : String) : Char → Bool := fun symbol => symbol ∈ chars.toList

def noneOf (chars : String) : Char → Bool := fun symbol => symbol ∉ chars.toList

def letter (symbol : Char) : Bool := within 'a' 'z' symbol || within 'A' 'Z' symbol

def digit : Char → Bool := within '0' '9'

def hexDigit (symbol : Char) : Bool :=
  digit symbol || within 'a' 'f' symbol || within 'A' 'F' symbol

/-- Any symbol but a line end. -/
def anything : Pattern := many (noneOf "\n")

/-- The pattern so many times. -/
def repeated (count : ℕ) (pattern : Pattern) : Pattern :=
  all (List.replicate count pattern)

/-- The text as a whole word. -/
def word (chars : String) : Pattern := all [wordEdge, literal chars, wordEdge]

/-! ### What matches -/

section Matching

variable {isWord : Char → Bool}

theorem after_append (chars : List Char) (before : Option Char)
    (rest : List Char) :
    after chars before (chars ++ rest) = some (chars.getLast?.or before, rest) := by
  induction chars generalizing before with
  | nil => rfl
  | cons symbol chars ih =>
      rw [List.cons_append, after, if_pos rfl, ih]
      cases chars with
      | nil => rfl
      | cons second chars => rw [List.getLast?_cons_cons, List.getLast?_cons]; rfl

theorem after_eq_none {chars rest : List Char} (before : Option Char)
    (hleading : ¬ chars <+: rest) : after chars before rest = none := by
  induction chars generalizing before rest with
  | nil => exact absurd (List.nil_prefix) hleading
  | cons expected chars ih =>
      cases rest with
      | nil => rfl
      | cons symbol rest =>
          rw [after]
          split
          · next heq =>
              apply ih
              intro hrest
              exact hleading (List.cons_prefix_cons.2 ⟨heq, hrest⟩)
          · rfl

theorem ends_text {chars rest : List Char} {before : Option Char} {place : Place}
    (hafter : after chars before rest = some place) :
    (text chars).ends isWord before rest = [place] := by
  rw [ends, hafter]
  rfl

theorem ends_wordEdge {before : Option Char} {rest : List Char}
    (hedge : (before.any isWord != rest.head?.any isWord) = true) :
    wordEdge.ends isWord before rest = [(before, rest)] := by
  rw [ends, if_pos hedge]

theorem ends_seq {first second : Pattern} {before : Option Char}
    {rest : List Char} {place : Place}
    (hfirst : first.ends isWord before rest = [place]) :
    (seq first second).ends isWord before rest =
      second.ends isWord place.1 place.2 := by
  rw [ends, hfirst, List.flatMap_singleton]

theorem ends_repeated_one {allowed : Char → Bool} {chars : List Char}
    (hne : chars ≠ []) (hallowed : ∀ symbol ∈ chars, allowed symbol = true)
    (before : Option Char) (rest : List Char) :
    (repeated chars.length (one allowed)).ends isWord before (chars ++ rest) =
      [(chars.getLast?, rest)] := by
  induction chars generalizing before with
  | nil => exact absurd rfl hne
  | cons symbol chars ih =>
      rw [List.forall_mem_cons] at hallowed
      cases chars with
      | nil =>
          change (one allowed).ends isWord before (symbol :: rest) = _
          rw [ends, if_pos hallowed.1]
          rfl
      | cons second chars =>
          change (seq (one allowed) (repeated (second :: chars).length
            (one allowed))).ends isWord before _ = _
          rw [ends, List.cons_append, ends, if_pos hallowed.1,
            List.flatMap_singleton, ih (List.cons_ne_nil _ _) hallowed.2,
            List.getLast?_cons_cons]

theorem matchesFrom_eq_of_ends_nil {pattern : Pattern} {before : Option Char}
    {symbol : Char} {rest : List Char}
    (hends : pattern.ends isWord before (symbol :: rest) = []) :
    matchesFrom isWord pattern 0 before (symbol :: rest) =
      matchesFrom isWord pattern 0 (some symbol) rest := by
  rw [matchesFrom, hends]

/-- Where no match begins, the search goes on behind. -/
theorem matchesFrom_append {pattern : Pattern} {front rest : List Char}
    (hfront : ∀ before, ∀ suffix ∈ front.tails, suffix ≠ [] →
      pattern.ends isWord before (suffix ++ rest) = [])
    (before : Option Char) :
    matchesFrom isWord pattern 0 before (front ++ rest) =
      matchesFrom isWord pattern 0 (front.getLast?.or before) rest := by
  induction front generalizing before with
  | nil => rfl
  | cons symbol front ih =>
      have hhead := hfront before (symbol :: front) (by simp)
        (List.cons_ne_nil _ _)
      rw [List.cons_append] at hhead ⊢
      rw [matchesFrom_eq_of_ends_nil hhead, ih]
      · cases front with
        | nil => rfl
        | cons second front => rw [List.getLast?_cons_cons, List.getLast?_cons]; rfl
      · intro before suffix hsuffix
        exact hfront before suffix (by simp [List.tails, hsuffix])

/-- A match is passed symbol by symbol. -/
theorem matchesFrom_skip {pattern : Pattern} (front rest : List Char)
    (before : Option Char) :
    matchesFrom isWord pattern front.length before (front ++ rest) =
      matchesFrom isWord pattern 0 (front.getLast?.or before) rest := by
  induction front generalizing before with
  | nil => rfl
  | cons symbol front ih =>
      rw [List.length_cons, List.cons_append, matchesFrom, ih]
      cases front with
      | nil => rfl
      | cons second front => rw [List.getLast?_cons_cons, List.getLast?_cons]; rfl

/-- The match at the start comes first. -/
theorem matchesFrom_match {pattern : Pattern} {found rest : List Char}
    {before last : Option Char} {others : List Place} (hne : found ≠ [])
    (hends : pattern.ends isWord before (found ++ rest) = (last, rest) :: others) :
    matchesFrom isWord pattern 0 before (found ++ rest) =
      found :: matchesFrom isWord pattern 0 found.getLast? rest := by
  cases found with
  | nil => exact absurd rfl hne
  | cons symbol found =>
      rw [List.cons_append] at hends ⊢
      rw [matchesFrom, hends]
      have hlength : (symbol :: (found ++ rest)).length - rest.length =
          found.length + 1 := by
        simp only [List.length_cons, List.length_append]
        omega
      simp only [hlength, Nat.add_sub_cancel]
      rw [List.take_succ_cons, List.take_left' rfl, matchesFrom_skip]
      cases found with
      | nil => rfl
      | cons second found => rw [List.getLast?_cons_cons, List.getLast?_cons]; rfl

end Matching

end Pattern

end Kitaebot
