import Kitaebot.Agent.TurnLoop
import Kitaebot.Context.Stats

/-!
# Reading failures back

The statistics read the kind of a failure from the text that the turn loop stored
for it: seven kinds from what the text starts with, timeouts from words anywhere in
it.  Errors of the other variants carry text from elsewhere, which can have those
words, or start like a kind.
-/

namespace Kitaebot.Context.Stats

open Kitaebot.Agent
open Kitaebot.Text

/-! ### What is recorded -/

/-- The kind of an error's own variant, if it has one. -/
def ownKind : ToolError → Option FailureKind
  | .blocked _ _ => some .blocked
  | .commandFailed _ _ _ => some .commandFailed
  | .editLoop _ _ _ => some .editLoop
  | .invalidArguments _ => some .invalidArguments
  | .notFound _ => some .notFound
  | .precondition _ => some .precondition
  | .spawn _ _ _ => some .spawn
  | .timeout _ _ _ => some .timeout
  | _ => none

/-- How a result is to be counted. -/
def recordedKind : ToolResult → Option FailureKind
  | .ok _ => none
  | .error error => some ((ownKind error).getD .other)

/-- The texts that the seven kinds are read from. -/
def openings : List (String × FailureKind) :=
  [("Error: Blocked: ", .blocked), ("Error: Execution failed: ", .commandFailed),
    ("Error: file_edit on ", .editLoop),
    ("Error: precondition failed: ", .precondition),
    ("Error: Invalid arguments: ", .invalidArguments),
    ("Error: Tool not found: ", .notFound), ("Error: Failed to spawn ", .spawn)]

def timeoutWords : String := " timed out after "

/-- The text starts like a kind, or has the words of a timeout. -/
def imitates (content : String) : Bool :=
  openings.any (opens ·.1 content) || contains timeoutWords content

theorem classifyFailure_eq (content : String) :
    classifyFailure content =
      match openings.find? (opens ·.1 content) with
      | some (_, kind) => some kind
      | none =>
          if opens "Error: " content && contains timeoutWords content then
            some .timeout
          else if opens "Tool output blocked: " content then some .safetyBlock
          else if opens "ERROR: You have called this tool" content then
            some .repeatBlock
          else if opens "Error: " content then some .other
          else none := by
  rw [classifyFailure, openings, timeoutWords]
  -- Only which openings match matters, not what they are.
  generalize contains " timed out after " content = timedOut
  generalize hopens : (opens · content) = starts
  simp only [funext_iff] at hopens
  simp only [hopens, List.find?_cons, List.find?_nil]
  cases starts "Error: Blocked: "
  case true => rfl
  cases starts "Error: Execution failed: "
  case true => rfl
  cases starts "Error: file_edit on "
  case true => rfl
  cases starts "Error: precondition failed: "
  case true => rfl
  cases starts "Error: Invalid arguments: "
  case true => rfl
  cases starts "Error: Tool not found: "
  case true => rfl
  cases starts "Error: Failed to spawn "
  case true => rfl
  rfl

/-- No opening starts with another. -/
theorem openings_apart : ∀ first ∈ openings, ∀ second ∈ openings,
    opens first.1 second.1 = true → first = second := by
  decide

/-- A text that starts like a kind is read as that kind. -/
theorem classify_of_opens {content : String} {entry : String × FailureKind}
    (hmem : entry ∈ openings) (hopens : opens entry.1 content = true) :
    classifyFailure content = some entry.2 := by
  have hfind : openings.find? (opens ·.1 content) = some entry := by
    cases hfound : openings.find? (opens ·.1 content) with
    | none => exact absurd hopens (List.find?_eq_none.1 hfound entry hmem)
    | some found =>
        have hother := List.find?_some hfound
        have hfoundMem := List.mem_of_find?_eq_some hfound
        by_contra hne
        have hne : entry ≠ found := fun heq => hne (congrArg some heq.symm)
        have hapart (first second : String × FailureKind)
            (hfirst : first ∈ openings) (hsecond : second ∈ openings)
            (hdiffer : first ≠ second) : opens first.1 second.1 = false := by
          rw [Bool.eq_false_iff]
          exact fun hsame => hdiffer (openings_apart first hfirst second hsecond hsame)
        have hnot := not_opens_of_apart hopens (hapart entry found hmem hfoundMem hne)
          (hapart found entry hfoundMem hmem hne.symm)
        rw [hnot] at hother
        cases hother
  rw [classifyFailure_eq, hfind]

/-- An error text that starts like no kind is a timeout if it has the words of
one, and of no known kind otherwise. -/
theorem classify_of_error {content : String} (herror : opens "Error: " content = true)
    (hnone : ∀ entry ∈ openings, opens entry.1 content = false) :
    classifyFailure content =
      some (if contains timeoutWords content then .timeout else .other) := by
  have hfind : openings.find? (opens ·.1 content) = none := by
    rw [List.find?_eq_none]
    intro entry hmem
    rw [hnone entry hmem]
    exact Bool.false_ne_true
  have hblocked : opens "Tool output blocked: " content = false :=
    not_opens rfl rfl (by decide) herror
  have hrepeat : opens "ERROR: You have called this tool" content = false :=
    not_opens_of_apart herror (by decide) (by decide)
  rw [classifyFailure_eq, hfind]
  simp only [herror, hblocked, hrepeat, Bool.true_and, Bool.false_eq_true, if_false,
    if_true]
  split <;> rfl

/-- A text that starts with another symbol than the failures is none. -/
theorem classify_eq_none {content opening : String} {rest : List Char}
    (hopening : opening.toList = '<' :: rest) (hopens : opens opening content = true) :
    classifyFailure content = none := by
  have hnot (other : String) (first : Char) (more : List Char)
      (hother : other.toList = first :: more) (hne : '<' ≠ first) :
      opens other content = false :=
    not_opens hopening hother hne hopens
  have hfirst : ∀ entry ∈ openings, entry.1.toList.head? = some 'E' := by
    decide
  have hfind : openings.find? (opens ·.1 content) = none := by
    rw [List.find?_eq_none]
    intro entry hmem hentry
    obtain ⟨more, hmore⟩ := List.head?_eq_some_iff.1 (hfirst entry hmem)
    rw [hnot entry.1 'E' more hmore (by decide)] at hentry
    cases hentry
  rw [classifyFailure_eq, hfind, hnot "Error: " 'E' _ rfl (by decide),
    hnot "Tool output blocked: " 'T' _ rfl (by decide),
    hnot "ERROR: You have called this tool" 'E' _ rfl (by decide)]
  rfl

theorem opens_wrap (toolName : String) (content : List Char) :
    opens "<tool_output name=\"" (Safety.wrap toolName content) = true :=
  opens_append _ (opens_append _ (opens_append _ (opens_append _ (opens_refl _))))

/-- What a tool printed is wrapped, and recorded as no failure. -/
theorem classify_wrapped (toolName output : String) :
    classifyFailure (Safety.checkToolOutput toolName output).wrapped = none :=
  classify_eq_none rfl (opens_wrap toolName _)

/-! ### Notices -/

/-- A number in a text does not make up a part without digits. -/
theorem not_infix_of_number {part : List Char} (before after : String) (count : ℕ)
    (hpart : part ≠ []) (hdigits : part.any Char.isDigit = false)
    (hbefore : ¬ part <:+: before.toList) (hafter : ¬ part <:+: after.toList) :
    ¬ part <:+: (before ++ (toString count ++ after)).toList := by
  intro hwithin
  rw [String.toList_append, String.toList_append] at hwithin
  have hnumber : (toString count).toList ≠ [] := by
    rw [Nat.toString_eq_repr, Nat.toList_repr]
    exact Nat.toDigits_ne_nil
  have hplain : ∀ symbol ∈ (toString count).toList, symbol ∉ part := by
    intro symbol hsymbol hmem
    exact List.any_eq_false.1 hdigits symbol hmem (isDigit_of_repr hsymbol)
  exact (infix_append_append hpart hnumber hplain hwithin).elim hbefore hafter

def noticeEnd : String :=
  " times this turn. The failure is deterministic — stop retrying and adapt " ++
    "your approach or report the problem."

/-- A strike notice, after its first line end. -/
def noticeText (count : ℕ) : String :=
  "\nThis exact call has failed " ++ (toString count ++ noticeEnd)

theorem regroup {first newline rest : String} (content number second third : String)
    (hfirst : first = newline ++ rest) :
    content ++ first ++ number ++ second ++ third =
      content ++ (newline ++ (rest ++ (number ++ (second ++ third)))) := by
  rw [hfirst]
  simp only [String.append_assoc]

/-- A notice starts a new line after the error. -/
theorem augmentNotice_eq (content : String) (count : ℕ) :
    ToolStrikeTracker.augmentNotice content count = content ∨
      ToolStrikeTracker.augmentNotice content count =
        content ++ ("\n" ++ noticeText count) := by
  have hsplit : "\n\nThis exact call has failed " =
      "\n" ++ "\nThis exact call has failed " := by
    apply String.toList_inj.1
    rw [String.toList_append]
    decide
  by_cases hcount : strikeNotice ≤ count
  · exact .inr ((if_pos hcount).trans (regroup content (toString count) _ _ hsplit))
  · exact .inl (if_neg hcount)

/-- No notice has the words of a timeout. -/
theorem noticeText_plain (count : ℕ) :
    ¬ timeoutWords.toList <:+: (noticeText count).toList :=
  not_infix_of_number _ _ count (by decide) (by decide)
    (by decide +kernel) (by decide +kernel)

theorem toList_append_line (first second : String) :
    (first ++ ("\n" ++ second)).toList = first.toList ++ '\n' :: second.toList := by
  rw [String.toList_append, String.toList_append]
  rfl

/-- A notice after an error changes nothing that its kind is read from. -/
theorem imitates_append_notice (content : String) (count : ℕ) :
    imitates (content ++ ("\n" ++ noticeText count)) = imitates content := by
  have hlines : ∀ entry ∈ openings, '\n' ∉ entry.1.toList := by decide
  have hopens (entry : String × FailureKind) (hmem : entry ∈ openings) :
      opens entry.1 (content ++ ("\n" ++ noticeText count)) =
        opens entry.1 content := by
    rw [Bool.eq_iff_iff, opens, List.isPrefixOf_iff_prefix, toList_append_line,
      prefix_append_cons_iff (hlines entry hmem), opens, List.isPrefixOf_iff_prefix]
  have hwords : contains timeoutWords (content ++ ("\n" ++ noticeText count)) =
      contains timeoutWords content := by
    have hline : '\n' ∉ timeoutWords.toList := by decide
    rw [Bool.eq_iff_iff, contains_iff, toList_append_line,
      infix_append_cons_iff hline, contains_iff]
    exact or_iff_left (noticeText_plain count)
  rw [imitates, imitates, hwords]
  congr 1
  rw [Bool.eq_iff_iff, List.any_eq_true, List.any_eq_true]
  exact exists_congr fun entry => and_congr_right fun hmem => by rw [hopens entry hmem]

/-! ### Reading them back -/

def errorText (error : ToolError) : String := "Error: " ++ error.display

theorem exists_of_display {error : ToolError} {kind : FailureKind} (opening : String)
    (hmem : ("Error: " ++ opening, kind) ∈ openings)
    (hopens : opens opening error.display = true) :
    ∃ entry ∈ openings, entry.2 = kind ∧ opens entry.1 (errorText error) = true :=
  ⟨_, hmem, rfl, opens_prepend "Error: " hopens⟩

/-- An error of the seven variants starts like its kind. -/
theorem exists_opening {error : ToolError} {kind : FailureKind}
    (hkind : ownKind error = some kind) (htimeout : kind ≠ .timeout) :
    ∃ entry ∈ openings, entry.2 = kind ∧ opens entry.1 (errorText error) = true := by
  cases error with
  | blocked operation guidance =>
      obtain rfl := Option.some.inj hkind
      exact exists_of_display "Blocked: " (by decide)
        (opens_append _ (opens_append _ (opens_append _ (opens_append _
          (opens_refl _)))))
  | commandFailed command exitCode output =>
      obtain rfl := Option.some.inj hkind
      exact exists_of_display "Execution failed: " (by decide)
        (opens_append _ (opens_refl _))
  | editLoop path attempts outcome =>
      obtain rfl := Option.some.inj hkind
      exact exists_of_display "file_edit on " (by decide)
        (opens_append _ (opens_append _ (opens_append _ (opens_append _
          (opens_append _ (opens_append _ (opens_append _ (opens_refl _))))))))
  | invalidArguments text =>
      obtain rfl := Option.some.inj hkind
      exact exists_of_display "Invalid arguments: " (by decide)
        (opens_append _ (opens_refl _))
  | notFound name =>
      obtain rfl := Option.some.inj hkind
      exact exists_of_display "Tool not found: " (by decide)
        (opens_append _ (opens_refl _))
  | precondition text =>
      obtain rfl := Option.some.inj hkind
      exact exists_of_display "precondition failed: " (by decide)
        (opens_append _ (opens_refl _))
  | spawn argv cwd source =>
      obtain rfl := Option.some.inj hkind
      have htick : opens "Failed to spawn " "Failed to spawn \x60" = true := by
        decide
      exact exists_of_display "Failed to spawn " (by decide)
        (opens_append _ (opens_append _ (opens_append _ (opens_append _
          (opens_append _ htick)))))
  | timeout command secs evidence => exact absurd (Option.some.inj hkind).symm htimeout
  | _ => cases hkind

/-- What is stored for an error is its text and maybe a notice, unless it timed
out. -/
theorem failureText_eq {error : ToolError} (count : Option ℕ)
    (htimeout : ownKind error ≠ some .timeout) :
    ToolStrikeTracker.failureText error count = errorText error ∨
      ∃ number, ToolStrikeTracker.failureText error count =
        errorText error ++ ("\n" ++ noticeText number) := by
  have haugment (number : ℕ) :
      ToolStrikeTracker.augmentNotice (errorText error) number = errorText error ∨
        ∃ number', ToolStrikeTracker.augmentNotice (errorText error) number =
          errorText error ++ ("\n" ++ noticeText number') :=
    (augmentNotice_eq (errorText error) number).imp_right fun heq => ⟨number, heq⟩
  cases count with
  | none => cases error <;> exact .inl rfl
  | some number =>
      cases error with
      | timeout command secs evidence => exact absurd rfl htimeout
      | _ => exact haugment number

/-- A timeout's text is quoted, and has the words, whatever comes after them. -/
theorem classify_of_timedOut {content : String}
    (hopens : opens "Error: \x60" content = true)
    (hwords : Includes content "\x60 timed out after ") :
    classifyFailure content = some .timeout := by
  have hquote : opens "Error: " "Error: \x60" = true := by decide
  have hcontains : contains timeoutWords "\x60 timed out after " = true := by
    decide
  have hapart : ∀ entry ∈ openings, opens "Error: \x60" entry.1 = false ∧
      opens entry.1 "Error: \x60" = false := by decide
  have herror : opens "Error: " content = true := by
    obtain ⟨rest, rfl⟩ := opens_iff.1 hopens
    exact opens_append _ hquote
  rw [classify_of_error herror fun entry hmem =>
    not_opens_of_apart hopens (hapart entry hmem).1 (hapart entry hmem).2,
    if_pos (contains_of_includes hcontains hwords)]

theorem classify_timeout (command : String) (secs : ℕ)
    (evidence : TimeoutEvidence) (count : Option ℕ) :
    classifyFailure (ToolStrikeTracker.failureText (.timeout command secs evidence)
      count) = some .timeout := by
  have hbase : Includes ("Error: \x60" ++ command ++ "\x60 timed out after ")
      "\x60 timed out after " := Includes.last _ _
  cases count with
  | none =>
      have hquote : "Error: \x60" = "Error: " ++ "\x60" := by decide
      refine classify_of_timedOut (hquote ▸ opens_prepend "Error: " ?_) ?_
      · exact opens_append _ (opens_append _ (opens_append _ (opens_append _
          (opens_append _ (opens_refl _)))))
      · refine Includes.append_left _ ?_
        exact (((Includes.last _ _).append_right _).append_right _).append_right _
  | some number =>
      have hopens : opens "Error: \x60" ("Error: \x60" ++ command ++
          "\x60 timed out after " ++ toString secs ++ "s") = true :=
        opens_append _ (opens_append _ (opens_append _ (opens_append _
          (opens_refl _))))
      have hwords : Includes ("Error: \x60" ++ command ++ "\x60 timed out after " ++
          toString secs ++ "s") "\x60 timed out after " :=
        (hbase.append_right _).append_right _
      by_cases hcount : strikeNotice ≤ number
      · refine (congrArg classifyFailure (if_pos hcount)).trans
          (classify_of_timedOut ?_ ?_)
        · exact opens_append _ (opens_append _ (opens_append _ (opens_append _
            (opens_append _ hopens))))
        · exact ((((hwords.append_right _).append_right _).append_right
            _).append_right _).append_right _
      · refine (congrArg classifyFailure (if_neg hcount)).trans
          (classify_of_timedOut ?_ ?_)
        · exact opens_append _ hopens
        · exact hwords.append_right _

/-- The kind read from a stored error is that of its variant exactly when the
variant has one, or the text imitates none. -/
theorem classify_failureText (error : ToolError) (count : Option ℕ) :
    classifyFailure (ToolStrikeTracker.failureText error count) =
        some ((ownKind error).getD .other) ↔
      (ownKind error).isSome = true ∨ imitates (errorText error) = false := by
  by_cases htimeout : ownKind error = some .timeout
  · refine iff_of_true ?_ (.inl (by rw [htimeout]; rfl))
    cases error with
    | timeout command secs evidence => exact classify_timeout command secs evidence count
    | _ => cases htimeout
  · obtain ⟨content, hcontent, hopens, himitates⟩ : ∃ content,
        ToolStrikeTracker.failureText error count = content ∧
          (∀ opening, opens opening (errorText error) = true →
            opens opening content = true) ∧
          imitates content = imitates (errorText error) := by
      rcases failureText_eq count htimeout with hplain | ⟨number, hnotice⟩
      · exact ⟨_, hplain, fun _ hopens => hopens, rfl⟩
      · exact ⟨_, hnotice, fun _ hopens => opens_append _ hopens,
          imitates_append_notice _ _⟩
    have herror : opens "Error: " content = true :=
      hopens _ (opens_append _ (opens_refl _))
    rw [hcontent, ← himitates]
    cases hkind : ownKind error with
    | some kind =>
        refine iff_of_true ?_ (.inl rfl)
        obtain ⟨entry, hentry, rfl, hstarts⟩ := exists_opening hkind
          fun heq => htimeout (hkind.trans (congrArg some heq))
        exact classify_of_opens hentry (hopens _ hstarts)
    | none =>
        have hknown : ∀ entry ∈ openings, entry.2 ≠ .other := by decide
        rw [imitates]
        cases hany : openings.any (opens ·.1 content) with
        | true =>
            obtain ⟨entry, hentry, hstarts⟩ := List.any_eq_true.1 hany
            rw [classify_of_opens hentry hstarts]
            refine iff_of_false (fun heq => ?_) ?_
            · exact hknown entry hentry (Option.some.inj heq)
            · rintro (hsome | himitated)
              · cases hsome
              · cases himitated
        | false =>
            have hnone (entry : String × FailureKind) (hmem : entry ∈ openings) :
                opens entry.1 content = false :=
              Bool.eq_false_iff.2 (List.any_eq_false.1 hany entry hmem)
            rw [classify_of_error herror hnone]
            cases contains timeoutWords content with
            | true => exact iff_of_false (by decide) (by decide)
            | false => exact iff_of_true rfl (.inr rfl)

/-- Failures are read back as they were recorded, and successes as none, but for
errors without a kind whose text imitates one. -/
theorem classify_recorded_iff (parse : String → Option Json.Value)
    (recording : Recording) (call : ToolCall) (result : ToolResult) :
    classifyFailure (takeResult parse recording call result).2.content =
        recordedKind result ↔
      ∀ error, result = .error error →
        (ownKind error).isSome = true ∨ imitates (errorText error) = false := by
  cases result with
  | ok output =>
      refine iff_of_true (classify_wrapped _ _) fun error herror => ?_
      cases herror
  | error error =>
      have hstored : (takeResult parse recording call (.error error)).2.content =
          ToolStrikeTracker.failureText error
            (recording.toolStrikes.record parse call error).2 := rfl
      rw [hstored, recordedKind, classify_failureText]
      constructor
      · intro hread other hother
        obtain rfl := Except.error.inj hother
        exact hread
      · exact fun hall => hall error rfl

theorem comment_valid : isValidToolName "github_comment" = true := by decide

def commentCall : ToolCall := ⟨"call_1", ⟨⟨"github_comment", comment_valid⟩, ""⟩⟩

def gatewayTimeout : ToolError :=
  .github (.api 504 "the upstream server timed out after 30 seconds")

/-- An answer of the service is read as a timeout of the tool. -/
theorem gatewayTimeout_misread :
    classifyFailure (takeResult (fun _ => none)
        ⟨ToolStrikeTracker.new, HintTracker.new, none, []⟩ commentCall
        (.error gatewayTimeout)).2.content = some .timeout ∧
      recordedKind (.error gatewayTimeout) = some .other := by
  exact ⟨by decide, rfl⟩

end Kitaebot.Context.Stats
