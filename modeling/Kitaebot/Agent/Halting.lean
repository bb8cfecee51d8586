import Kitaebot.Agent.Deeds

/-!
# When a turn halts

The counters of the loop are functions of the rounds it went through.  From
that: how often a set of calls runs in a row, when a turn is abandoned, and in
which round blocked or failing calls end it.
-/

namespace Kitaebot.Agent

/-! ### Rounds -/

/-- A round of tool calls. -/
inductive Round where
  | refused (calls : List ToolCall)
  | executed (calls : List ToolCall) (results : List ToolResult)

namespace Round

def calls : Round → List ToolCall
  | refused calls => calls
  | executed calls _ => calls

def isRefused : Round → Bool
  | refused _ => true
  | executed _ _ => false

/-- The rules that blocked a call of the round. -/
def guidances : Round → List String
  | refused _ => []
  | executed _ results => (blockedCalls results).map Prod.snd

/-- How the calls of the round failed, blocked calls apart. -/
def failures (parse : String → Option Json.Value) : Round → List StrikeKey
  | refused _ => []
  | executed calls results => (calls.zip results).filterMap fun entry =>
      match entry.2 with
      | .ok _ => none
      | .error error =>
          if error.isBlocked then none else some (strikeKey parse entry.1 error)

end Round

def TurnEvent.round : TurnEvent → Option Round
  | .refused calls => some (.refused calls)
  | .executed calls results => some (.executed calls results)
  | _ => none

def rounds (trace : List TurnEvent) : List Round :=
  trace.filterMap TurnEvent.round

/-- In how many rounds a rule blocked. -/
def blockedIn (guidance : String) (rounds : List Round) : ℕ :=
  rounds.countP fun round => guidance ∈ round.guidances

/-- In how many rounds some rule blocked. -/
def blockedRounds (rounds : List Round) : ℕ :=
  rounds.countP fun round => round.guidances ≠ []

/-- Some rule, or all rules together, have blocked often enough. -/
def PolicyLimit (rounds : List Round) : Prop :=
  (∃ guidance, policyStrikeLimit ≤ blockedIn guidance rounds) ∨
    policyRoundLimit ≤ blockedRounds rounds

section Parsing

variable (parse : String → Option Json.Value)

/-- A call of the last round has now failed often enough in the same way. -/
def ToolLimit (before : List Round) (last : Round) : Prop :=
  ∃ key ∈ last.failures parse,
    strikeHalt ≤ ((before ++ [last]).flatMap (Round.failures parse)).count key

/-- How many rounds at the end were refused in a row. -/
def refusedLast (rounds : List Round) : ℕ :=
  (rounds.reverse.takeWhile Round.isRefused).length

/-- A round is refused exactly when the detector says so. -/
def Judged : RepeatDetector → List Round → Prop
  | _, [] => True
  | detector, round :: rounds =>
      round.isRefused = (detector.record parse round.calls).reached ∧
        Judged (detector.record parse round.calls) rounds

def detect (detector : RepeatDetector) (rounds : List Round) : RepeatDetector :=
  rounds.foldl (fun detector round => detector.record parse round.calls) detector

theorem judged_append (detector : RepeatDetector) (first second : List Round) :
    Judged parse detector (first ++ second) ↔
      Judged parse detector first ∧ Judged parse (detect parse detector first) second := by
  induction first generalizing detector with
  | nil => exact ⟨fun h => ⟨trivial, h⟩, fun h => h.2⟩
  | cons round first ih =>
      rw [List.cons_append, Judged, Judged, ih, and_assoc]
      rfl

/-! ### Repeats -/

/-- Once a set of calls has come `count` times, it runs at most so often again. -/
theorem executed_le_of_count {set : List (String × Json.Value)} (count : ℕ)
    {segment : List Round}
    (hsame : ∀ round ∈ segment, fingerprint parse round.calls = set)
    (hjudged : Judged parse ⟨some set, count⟩ segment) :
    segment.countP (fun round => !round.isRefused) ≤ repeatLimit - 1 - count := by
  induction segment generalizing count with
  | nil => exact Nat.zero_le _
  | cons round segment ih =>
      rw [List.forall_mem_cons] at hsame
      have hrecord : RepeatDetector.record parse ⟨some set, count⟩ round.calls =
          ⟨some set, count + 1⟩ := by
        rw [RepeatDetector.record, if_pos (by rw [hsame.1])]
      obtain ⟨hround, hrest⟩ := hjudged
      rw [hrecord] at hround hrest
      have htail := ih (count + 1) hsame.2 hrest
      rw [List.countP_cons]
      cases hrefused : round.isRefused with
      | true =>
          simp only [Bool.not_true, Bool.false_eq_true, if_false]
          omega
      | false =>
          rw [hrefused] at hround
          have hcount : ¬ repeatLimit ≤ count + 1 := of_decide_eq_false hround.symm
          simp only [Bool.not_false, if_true]
          omega

/-- Rounds with the same set of calls, one after the other, run less often than
the limit. -/
theorem executed_lt_limit {set : List (String × Json.Value)}
    (detector : RepeatDetector) {segment : List Round}
    (hsame : ∀ round ∈ segment, fingerprint parse round.calls = set)
    (hjudged : Judged parse detector segment) :
    segment.countP (fun round => !round.isRefused) < repeatLimit := by
  cases segment with
  | nil => exact Nat.succ_pos _
  | cons round segment =>
      by_cases hprev : detector.prev = some set
      · obtain ⟨prev, count⟩ := detector
        subst hprev
        have hle := executed_le_of_count parse count hsame hjudged
        have hlimit : repeatLimit = 3 := rfl
        omega
      · rw [List.forall_mem_cons] at hsame
        have hrecord : detector.record parse round.calls = ⟨some set, 1⟩ := by
          rw [RepeatDetector.record, hsame.1, if_neg hprev]
        have hrest := hjudged.2
        rw [hrecord] at hrest
        have hle := executed_le_of_count parse 1 hsame.2 hrest
        have hlimit : repeatLimit = 3 := rfl
        rw [List.countP_cons]
        split <;> omega

/-! ### Blocked rounds -/

theorem strikePolicies_foldl (strikes : String → ℕ) (halt : Bool)
    {round : List String} (hnodup : round.Nodup) :
    let struck := round.foldl (fun (strikes, halt) guidance =>
      let count := strikes guidance + 1
      (Function.update strikes guidance count,
        halt || decide (policyStrikeLimit ≤ count))) (strikes, halt)
    (∀ guidance, struck.1 guidance =
        strikes guidance + if guidance ∈ round then 1 else 0) ∧
      (struck.2 = true ↔ halt = true ∨
        ∃ guidance ∈ round, policyStrikeLimit ≤ strikes guidance + 1) := by
  induction round generalizing strikes halt with
  | nil => simp
  | cons first round ih =>
      rw [List.nodup_cons] at hnodup
      obtain ⟨hstrikes, hhalt⟩ := ih (Function.update strikes first (strikes first + 1))
        (halt || decide (policyStrikeLimit ≤ strikes first + 1)) hnodup.2
      constructor
      · intro guidance
        rw [List.foldl_cons, hstrikes]
        rcases eq_or_ne guidance first with rfl | hne
        · rw [Function.update_self, if_neg hnodup.1, if_pos List.mem_cons_self]
        · rw [Function.update_of_ne hne]
          simp [hne]
      · rw [List.foldl_cons, hhalt, Bool.or_eq_true, decide_eq_true_iff, or_assoc]
        apply or_congr Iff.rfl
        rw [List.exists_mem_cons_iff]
        apply or_congr Iff.rfl
        apply exists_congr
        intro guidance
        apply and_congr_right
        intro hmem
        have hne : guidance ≠ first := fun heq => hnodup.1 (heq ▸ hmem)
        rw [Function.update_of_ne hne]

theorem strikePolicies_spec (strikes : String → ℕ) (halt : Bool)
    (round : List String) :
    (∀ guidance, (strikePolicies strikes halt round).1 guidance =
        strikes guidance + if guidance ∈ round then 1 else 0) ∧
      ((strikePolicies strikes halt round).2 = true ↔ halt = true ∨
        ∃ guidance ∈ round, policyStrikeLimit ≤ strikes guidance + 1) := by
  obtain ⟨hstrikes, hhalt⟩ := strikePolicies_foldl strikes halt round.nodup_dedup
  simp only [List.mem_dedup] at hstrikes hhalt
  exact ⟨hstrikes, hhalt⟩

theorem blockedIn_concat (guidance : String) (rounds : List Round) (round : Round) :
    blockedIn guidance (rounds ++ [round]) =
      blockedIn guidance rounds + if guidance ∈ round.guidances then 1 else 0 := by
  rw [blockedIn, List.countP_append, List.countP_singleton]
  simp [blockedIn]

theorem blockedRounds_concat (rounds : List Round) (round : Round) :
    blockedRounds (rounds ++ [round]) =
      blockedRounds rounds + if round.guidances ≠ [] then 1 else 0 := by
  rw [blockedRounds, List.countP_append, List.countP_singleton]
  simp [blockedRounds]

/-- A limit stays reached. -/
theorem PolicyLimit.append {first : List Round} (hlimit : PolicyLimit first)
    (second : List Round) : PolicyLimit (first ++ second) := by
  rcases hlimit with ⟨guidance, hguidance⟩ | hrounds
  · refine .inl ⟨guidance, Nat.le_trans hguidance ?_⟩
    rw [blockedIn, blockedIn, List.countP_append]
    exact Nat.le_add_right ..
  · refine .inr (Nat.le_trans hrounds ?_)
    rw [blockedRounds, blockedRounds, List.countP_append]
    exact Nat.le_add_right ..

/-- A round without blocked calls reaches no policy limit. -/
theorem policyLimit_concat_nil {rounds : List Round} {round : Round}
    (hround : round.guidances = []) :
    PolicyLimit (rounds ++ [round]) ↔ PolicyLimit rounds := by
  simp only [PolicyLimit, blockedIn_concat, blockedRounds_concat, hround]
  simp

/-! ### Failing calls -/

/-- How the calls fail. -/
def failureKeys (round : List (ToolCall × ToolResult)) : List StrikeKey :=
  round.filterMap fun entry => match entry.2 with
    | .ok _ => none
    | .error error =>
        if error.isBlocked then none else some (strikeKey parse entry.1 error)

theorem recordOne_spec (recording : Recording) (entry : ToolCall × ToolResult) :
    (failureKeys parse [entry] = [] ∧
      (recordOne parse recording entry).toolStrikes = recording.toolStrikes ∧
      (recordOne parse recording entry).halt = recording.halt) ∨
    ∃ key, failureKeys parse [entry] = [key] ∧
      (recordOne parse recording entry).toolStrikes =
        ⟨Function.update recording.toolStrikes.strikes key
          (recording.toolStrikes.strikes key + 1)⟩ ∧
      ((recordOne parse recording entry).halt = none ↔ recording.halt = none ∧
        recording.toolStrikes.strikes key + 1 < strikeHalt) ∧
      ∀ halt, (recordOne parse recording entry).halt = some halt →
        recording.halt = some halt ∨
          ∃ tool args errorClass count, halt = .toolHalt tool args errorClass count := by
  obtain ⟨call, result⟩ := entry
  cases result with
  | ok output => exact .inl ⟨rfl, rfl, rfl⟩
  | error error =>
      cases hblocked : error.isBlocked with
      | true =>
          left
          simp [failureKeys, recordOne, takeResult, ToolStrikeTracker.record, hblocked]
      | false =>
          right
          refine ⟨strikeKey parse call error, ?_, ?_, ?_, ?_⟩
          · simp [failureKeys, hblocked]
          · simp [recordOne, takeResult, ToolStrikeTracker.record, hblocked]
          · simp only [recordOne, takeResult, ToolStrikeTracker.record, hblocked,
              Bool.false_eq_true, if_false]
            split_ifs with hcount
            · simp only [false_iff, not_and, not_lt]
              exact fun _ => hcount
            · exact ⟨fun hnone => ⟨hnone, Nat.lt_of_not_le hcount⟩, fun h => h.1⟩
          · intro halt hhalt
            simp only [recordOne, takeResult, ToolStrikeTracker.record, hblocked,
              Bool.false_eq_true, if_false] at hhalt
            split_ifs at hhalt
            · cases hhalt
              exact .inr ⟨_, _, _, _, rfl⟩
            · exact .inl hhalt

theorem failureKeys_cons (entry : ToolCall × ToolResult)
    (round : List (ToolCall × ToolResult)) :
    failureKeys parse (entry :: round) =
      failureKeys parse [entry] ++ failureKeys parse round := by
  rw [failureKeys, ← List.singleton_append, List.filterMap_append]
  rfl

/-- After a round each way of failing has its new count, and the recording halts
exactly when one of the round's has reached the limit. -/
theorem recording_spec (round : List (ToolCall × ToolResult)) (recording : Recording) :
    let after := round.foldl (recordOne parse) recording
    (∀ key, after.toolStrikes.strikes key =
        recording.toolStrikes.strikes key + (failureKeys parse round).count key) ∧
      (after.halt = none ↔ recording.halt = none ∧
        ∀ key ∈ failureKeys parse round, recording.toolStrikes.strikes key +
          (failureKeys parse round).count key < strikeHalt) ∧
      ∀ halt, after.halt = some halt → recording.halt = some halt ∨
        ∃ tool args errorClass count, halt = .toolHalt tool args errorClass count := by
  induction round generalizing recording with
  | nil =>
      refine ⟨?_, ?_, fun halt hhalt => .inl hhalt⟩
      · simp [failureKeys]
      · simp [failureKeys]
  | cons entry round ih =>
      obtain ⟨hstrikes, hnone, hsome⟩ := ih (recordOne parse recording entry)
      rw [List.foldl_cons, failureKeys_cons]
      rcases recordOne_spec parse recording entry with
        ⟨hkeys, hsame, hhalt⟩ | ⟨key, hkeys, hstruck, hhalt, hnew⟩
      · rw [hkeys, List.nil_append]
        rw [hsame] at hstrikes hnone
        rw [hhalt] at hnone hsome
        exact ⟨hstrikes, hnone, hsome⟩
      · rw [hkeys, List.singleton_append]
        rw [hstruck] at hstrikes hnone
        refine ⟨fun other => ?_, ?_, fun halt hafter => ?_⟩
        · rw [hstrikes, List.count_cons]
          rcases eq_or_ne other key with rfl | hne
          · simp only [Function.update_self, beq_self_eq_true, if_true]
            omega
          · simp [Function.update_of_ne hne, hne.symm]
        · rw [hnone, hhalt, and_assoc]
          apply and_congr_right
          intro _
          rw [List.forall_mem_cons, List.count_cons_self]
          constructor
          · rintro ⟨hfirst, hrest⟩
            have hkey : recording.toolStrikes.strikes key +
                ((failureKeys parse round).count key + 1) < strikeHalt := by
              by_cases hmem : key ∈ failureKeys parse round
              · have hbound := hrest key hmem
                simp only [Function.update_self] at hbound
                omega
              · rw [List.count_eq_zero.2 hmem]
                exact hfirst
            refine ⟨hkey, fun other hother => ?_⟩
            rcases eq_or_ne other key with rfl | hne
            · rwa [List.count_cons_self]
            · have hbound := hrest other hother
              simp only [Function.update_of_ne hne] at hbound
              rwa [List.count_cons_of_ne hne.symm]
          · rintro ⟨hkey, hrest⟩
            refine ⟨by omega, fun other hother => ?_⟩
            rcases eq_or_ne other key with rfl | hne
            · simp only [Function.update_self]
              omega
            · have hbound := hrest other hother
              rw [List.count_cons_of_ne hne.symm] at hbound
              simpa only [Function.update_of_ne hne] using hbound
        · rcases hsome halt hafter with hold | hother
          · exact hnew halt hold
          · exact .inr hother

/-! ### The counters of the loop -/

/-- The variables of the loop are what the rounds make of them. -/
structure Counted (vars : LoopVars) (rounds : List Round) : Prop where
  repeats : vars.repeats = detect parse .new rounds
  repeatStrikes : vars.repeatStrikes = refusedLast rounds
  policyStrikes : ∀ guidance, vars.policyStrikes guidance = blockedIn guidance rounds
  blockedRounds : vars.blockedRounds = Agent.blockedRounds rounds
  toolStrikes : ∀ key, vars.toolStrikes.strikes key =
    (rounds.flatMap (Round.failures parse)).count key

theorem counted_new : Counted parse .new [] where
  repeats := rfl
  repeatStrikes := rfl
  policyStrikes := fun _ => rfl
  blockedRounds := rfl
  toolStrikes := fun _ => rfl

theorem refusedLast_concat (rounds : List Round) (round : Round) :
    refusedLast (rounds ++ [round]) =
      if round.isRefused then refusedLast rounds + 1 else 0 := by
  rw [refusedLast, List.reverse_append, List.reverse_singleton,
    List.singleton_append, List.takeWhile_cons]
  split <;> rfl

theorem detect_concat (rounds : List Round) (round : Round) :
    detect parse .new (rounds ++ [round]) =
      (detect parse .new rounds).record parse round.calls := by
  rw [detect, List.foldl_append]
  rfl

theorem Counted.refused {vars : LoopVars} {rounds : List Round}
    (hcounted : Counted parse vars rounds) (calls : List ToolCall) :
    Counted parse { vars with
      repeats := vars.repeats.record parse calls
      repeatStrikes := vars.repeatStrikes + 1 } (rounds ++ [.refused calls]) where
  repeats := by rw [detect_concat, ← hcounted.repeats]; rfl
  repeatStrikes := by rw [refusedLast_concat, hcounted.repeatStrikes]; rfl
  policyStrikes := by
    intro guidance
    rw [blockedIn_concat]
    exact hcounted.policyStrikes guidance
  blockedRounds := by
    rw [blockedRounds_concat]
    exact hcounted.blockedRounds
  toolStrikes := by
    intro key
    rw [List.flatMap_append, List.flatMap_singleton]
    exact (hcounted.toolStrikes key).trans (by rw [Round.failures, List.append_nil])

/-- A round that ran: each counter takes in what the round did. -/
theorem Counted.executed {vars after : LoopVars} {rounds : List Round}
    {calls : List ToolCall} {results : List ToolResult} {recording : Recording}
    (hcounted : Counted parse vars rounds)
    (hrecording : recording = (calls.zip results).foldl (recordOne parse)
      ⟨vars.toolStrikes, vars.hints, none, []⟩)
    (hrepeats : after.repeats = vars.repeats.record parse calls)
    (hzero : after.repeatStrikes = 0)
    (hstrikes : after.toolStrikes = recording.toolStrikes)
    (hpolicies : ∀ guidance, after.policyStrikes guidance =
      vars.policyStrikes guidance +
        if guidance ∈ (Round.executed calls results).guidances then 1 else 0)
    (hblocked : after.blockedRounds = vars.blockedRounds +
      if (Round.executed calls results).guidances ≠ [] then 1 else 0) :
    Counted parse after (rounds ++ [.executed calls results]) where
  repeats := by rw [detect_concat, ← hcounted.repeats, hrepeats]; rfl
  repeatStrikes := by rw [refusedLast_concat, hzero]; rfl
  policyStrikes := by
    intro guidance
    rw [hpolicies, hcounted.policyStrikes, blockedIn_concat]
  blockedRounds := by rw [hblocked, hcounted.blockedRounds, blockedRounds_concat]
  toolStrikes := by
    intro key
    rw [List.flatMap_append, List.flatMap_singleton, List.count_append,
      ← hcounted.toolStrikes key, hstrikes, hrecording]
    exact (recording_spec parse (calls.zip results)
      ⟨vars.toolStrikes, vars.hints, none, []⟩).1 key

/-- The counters halt the turn exactly when a policy limit is reached. -/
theorem Counted.strike_iff {vars : LoopVars} {rounds : List Round}
    (hcounted : Counted parse vars rounds) (hlimit : ¬ PolicyLimit rounds)
    {calls : List ToolCall} {results : List ToolResult}
    (hblocked : blockedCalls results ≠ []) :
    (vars.strike (blockedCalls results)).2 = true ↔
      PolicyLimit (rounds ++ [.executed calls results]) := by
  have hguidances : (Round.executed calls results).guidances ≠ [] := by
    rw [Round.guidances, Ne, List.map_eq_nil_iff]
    exact hblocked
  have hstrike : (vars.strike (blockedCalls results)).2 =
      (strikePolicies vars.policyStrikes
        (decide (policyRoundLimit ≤ vars.blockedRounds + 1))
        (Round.executed calls results).guidances).2 := rfl
  rw [hstrike, (strikePolicies_spec _ _ _).2, decide_eq_true_iff, PolicyLimit,
    blockedRounds_concat, if_pos hguidances, hcounted.blockedRounds, or_comm]
  apply or_congr _ Iff.rfl
  simp only [blockedIn_concat, hcounted.policyStrikes]
  constructor
  · rintro ⟨guidance, hmem, hstrikes⟩
    exact ⟨guidance, by rwa [if_pos hmem]⟩
  · rintro ⟨guidance, hstrikes⟩
    by_cases hmem : guidance ∈ (Round.executed calls results).guidances
    · rw [if_pos hmem] at hstrikes
      exact ⟨guidance, hmem, hstrikes⟩
    · rw [if_neg hmem] at hstrikes
      exact absurd (.inl ⟨guidance, hstrikes⟩) hlimit

/-- The recording of a round halts exactly when a tool limit is reached. -/
theorem Counted.halt_iff {vars : LoopVars} {rounds : List Round}
    (hcounted : Counted parse vars rounds) {calls : List ToolCall}
    {results : List ToolResult} {recording : Recording}
    (hrecording : recording = (calls.zip results).foldl (recordOne parse)
      ⟨vars.toolStrikes, vars.hints, none, []⟩) :
    recording.halt = none ↔
      ¬ ToolLimit parse rounds (.executed calls results) := by
  have hspec := (recording_spec parse (calls.zip results)
    ⟨vars.toolStrikes, vars.hints, none, []⟩).2.1
  rw [hrecording, hspec, ToolLimit]
  simp only [true_and, not_exists, not_and, not_le, List.flatMap_append,
    List.flatMap_singleton, List.count_append, hcounted.toolStrikes]
  rfl

/-! ### Verdicts -/

/-- No limit was reached in these rounds. -/
structure Ongoing (rounds : List Round) : Prop where
  judged : Judged parse .new rounds
  refusals : ∀ before, before <+: rounds → refusedLast before < repeatStrikeLimit
  policy : ¬ PolicyLimit rounds

def IsEngine (result : Except Error TurnOutput) : Prop :=
  ∃ text, result = .error (.engine text)

/-- How a turn with these rounds ends, if a limit has to do with it. -/
structure Verdict (rounds : List Round) (result : Except Error TurnOutput) :
    Prop where
  judged : Judged parse .new rounds
  noProgress : result = .error .noProgress → repeatStrikeLimit ≤ refusedLast rounds
  refusals : ∀ before, before <+: rounds → repeatStrikeLimit ≤ refusedLast before →
    before = rounds ∧ (result = .error .noProgress ∨ IsEngine result)
  policyHalt : ∀ reasons, result = .ok (.policyHalt reasons) →
    ∃ before calls results, rounds = before ++ [.executed calls results] ∧
      ¬ PolicyLimit before ∧ PolicyLimit rounds ∧
        ¬ ToolLimit parse before (.executed calls results) ∧
          reasons = (blockedCalls results).map Prod.fst
  policy : ∀ before last, before ++ [last] <+: rounds → ¬ PolicyLimit before →
    PolicyLimit (before ++ [last]) → before ++ [last] = rounds ∧
      (IsEngine result ∨
        (ToolLimit parse before last ∧ ∃ tool args errorClass count,
          result = .ok (.toolHalt tool args errorClass count)) ∨
        ¬ ToolLimit parse before last ∧
          ∃ reasons, result = .ok (.policyHalt reasons))

variable {parse}

/-- Where no limit was reached, a turn ends in some other way. -/
theorem Ongoing.verdict {rounds : List Round} (hongoing : Ongoing parse rounds)
    {result : Except Error TurnOutput} (hprogress : result ≠ .error .noProgress)
    (hpolicy : ∀ reasons, result ≠ .ok (.policyHalt reasons)) :
    Verdict parse rounds result where
  judged := hongoing.judged
  noProgress := fun hresult => absurd hresult hprogress
  refusals := fun before hbefore hlimit =>
    absurd (hongoing.refusals before hbefore) (Nat.not_lt.2 hlimit)
  policyHalt := fun reasons hresult => absurd hresult (hpolicy reasons)
  policy := by
    rintro before last ⟨after, rfl⟩ _ hlimit
    exact absurd (hlimit.append after) hongoing.policy

theorem ongoing_nil : Ongoing parse [] where
  judged := trivial
  refusals := by
    intro before hbefore
    rw [List.prefix_nil.1 hbefore]
    exact Nat.succ_pos _
  policy := by
    rintro (⟨guidance, hguidance⟩ | hrounds)
    · exact absurd hguidance (Nat.not_succ_le_zero _)
    · exact absurd hrounds (Nat.not_succ_le_zero _)

/-- One more round without a limit. -/
theorem Ongoing.concat {rounds : List Round} (hongoing : Ongoing parse rounds)
    {round : Round}
    (hround : round.isRefused =
      ((detect parse .new rounds).record parse round.calls).reached)
    (hrefusals : refusedLast (rounds ++ [round]) < repeatStrikeLimit)
    (hpolicy : ¬ PolicyLimit (rounds ++ [round])) :
    Ongoing parse (rounds ++ [round]) where
  judged := (judged_append parse _ _ _).2 ⟨hongoing.judged, hround, trivial⟩
  refusals := by
    intro before hbefore
    rcases List.prefix_concat_iff.1 hbefore with rfl | hbefore
    · exact hrefusals
    · exact hongoing.refusals before hbefore
  policy := hpolicy

/-- A prefix of the rounds before has reached no limit. -/
theorem Ongoing.not_limit {rounds before : List Round}
    (hongoing : Ongoing parse rounds) (hbefore : before <+: rounds) :
    ¬ PolicyLimit before := by
  obtain ⟨after, rfl⟩ := hbefore
  exact fun hlimit => hongoing.policy (hlimit.append after)

/-- A refused round: the turn goes on, is abandoned, or a push fails. -/
theorem Ongoing.verdict_refused {rounds : List Round}
    (hongoing : Ongoing parse rounds) {calls : List ToolCall}
    (hround : ((detect parse .new rounds).record parse calls).reached = true)
    {result : Except Error TurnOutput}
    (hresult : IsEngine result ∨ result = .error .noProgress ∧
      repeatStrikeLimit ≤ refusedLast (rounds ++ [.refused calls])) :
    Verdict parse (rounds ++ [.refused calls]) result where
  judged := (judged_append parse _ _ _).2 ⟨hongoing.judged, hround.symm, trivial⟩
  noProgress := by
    intro hnone
    rcases hresult with ⟨text, rfl⟩ | ⟨_, hlimit⟩
    · cases hnone
    · exact hlimit
  refusals := by
    intro before hbefore hlimit
    rcases List.prefix_concat_iff.1 hbefore with rfl | hbefore
    · exact ⟨rfl, hresult.symm.imp_left And.left⟩
    · exact absurd (hongoing.refusals before hbefore) (Nat.not_lt.2 hlimit)
  policyHalt := by
    rintro reasons rfl
    rcases hresult with ⟨text, hengine⟩ | ⟨hnone, _⟩
    · cases hengine
    · cases hnone
  policy := by
    intro before last hbefore hfirst hlimit
    rcases List.prefix_concat_iff.1 hbefore with heq | hbefore
    · rw [heq, policyLimit_concat_nil rfl] at hlimit
      exact absurd hlimit hongoing.policy
    · exact absurd hlimit (hongoing.not_limit hbefore)

/-- A round that ran and ends the turn. -/
theorem Ongoing.verdict_executed {rounds : List Round}
    (hongoing : Ongoing parse rounds) {calls : List ToolCall}
    {results : List ToolResult}
    (hround : ((detect parse .new rounds).record parse calls).reached = false)
    {result : Except Error TurnOutput}
    (hresult : IsEngine result ∨
      (ToolLimit parse rounds (.executed calls results) ∧
        ∃ tool args errorClass count,
          result = .ok (.toolHalt tool args errorClass count)) ∨
      ¬ ToolLimit parse rounds (.executed calls results) ∧
        PolicyLimit (rounds ++ [.executed calls results]) ∧
          result = .ok (.policyHalt ((blockedCalls results).map Prod.fst))) :
    Verdict parse (rounds ++ [.executed calls results]) result where
  judged := (judged_append parse _ _ _).2 ⟨hongoing.judged, hround.symm, trivial⟩
  noProgress := by
    rintro rfl
    rcases hresult with ⟨text, hengine⟩ | ⟨_, _, _, _, _, htool⟩ | ⟨_, _, hpolicy⟩
    · cases hengine
    · cases htool
    · cases hpolicy
  refusals := by
    intro before hbefore hlimit
    rcases List.prefix_concat_iff.1 hbefore with rfl | hbefore
    · rw [refusedLast_concat] at hlimit
      exact absurd hlimit (Nat.not_succ_le_zero _)
    · exact absurd (hongoing.refusals before hbefore) (Nat.not_lt.2 hlimit)
  policyHalt := by
    rintro reasons rfl
    rcases hresult with ⟨text, hengine⟩ | ⟨_, _, _, _, _, htool⟩ |
      ⟨htool, hlimit, hpolicy⟩
    · cases hengine
    · cases htool
    · cases hpolicy
      exact ⟨rounds, calls, results, rfl, hongoing.policy, hlimit, htool, rfl⟩
  policy := by
    intro before last hbefore hfirst hlimit
    rcases List.prefix_concat_iff.1 hbefore with heq | hbefore
    · obtain ⟨rfl, hlast⟩ := List.append_inj' heq rfl
      cases hlast
      refine ⟨rfl, ?_⟩
      rcases hresult with hengine | htool | ⟨htool, _, hpolicy⟩
      · exact .inl hengine
      · exact .inr (.inl htool)
      · exact .inr (.inr ⟨htool, _, hpolicy⟩)
    · exact absurd hlimit (hongoing.not_limit hbefore)

end Parsing

end Kitaebot.Agent
