import Mathlib.Data.List.Induction
import Kitaebot.Tools.Mcp

/-!
# The integrity of the streams

Whatever a call does, it writes complete messages and parts of one message.  What
a call leaves behind when it is abandoned in the middle of a write stays on a
connection that later calls use; the streams are intact as long as no call takes
over such a connection.
-/

namespace Kitaebot.Tools.Mcp

open Json

/-! ### Streams -/

/-- Complete messages and a part of one more. -/
def Midway (written : Bytes) (message : Value) (rest : Bytes) : Prop :=
  ∃ messages part, written = lines messages ++ part ∧ part ++ rest = line message

theorem Midway.idle {written rest : Bytes} {message : Value}
    (hmidway : Midway written message rest) : Intact written none := by
  obtain ⟨messages, part, hwritten, hpart⟩ := hmidway
  exact ⟨messages, message, part, hwritten, rest, hpart⟩

/-- A stream in use is fit to be left. -/
theorem Intact.idle {written : Bytes} {stage : Stage}
    (hintact : Intact written (some stage)) : Intact written none := by
  cases stage with
  | sending message rest => exact Midway.idle hintact
  | awaiting =>
      obtain ⟨messages, hwritten⟩ := hintact
      exact ⟨messages, .null, [], by rw [hwritten, List.append_nil],
        List.nil_prefix⟩
  | refusing message rest => exact Midway.idle hintact

theorem intact_lines (messages : List Value) : Intact (lines messages) none :=
  ⟨messages, .null, [], (List.append_nil _).symm, List.nil_prefix⟩

/-- The whole of a message is yet to be written. -/
theorem midway_start {written : Bytes} (hintact : Intact written (some .awaiting))
    (message : Value) : Midway written message (line message) := by
  obtain ⟨messages, hwritten⟩ := hintact
  exact ⟨messages, [], by rw [hwritten, List.append_nil], List.nil_append _⟩

theorem Midway.accept {conn next : Connection} {message : Value}
    {rest left : Bytes} {count : ℕ} (hmidway : Midway conn.written message rest)
    (haccepts : accepts conn rest count = some (next, left)) :
    Midway next.written message left := by
  unfold accepts at haccepts
  split at haccepts
  · cases haccepts
    obtain ⟨messages, part, hwritten, hpart⟩ := hmidway
    refine ⟨messages, part ++ rest.take count, ?_, ?_⟩
    · rw [hwritten, List.append_assoc]
    · rw [List.append_assoc, List.take_append_drop, hpart]
  · cases haccepts

/-- A write that is done has written a message. -/
theorem Midway.done {written : Bytes} {message : Value}
    (hmidway : Midway written message []) : Intact written (some .awaiting) := by
  obtain ⟨messages, part, hwritten, hpart⟩ := hmidway
  rw [List.append_nil] at hpart
  exact ⟨messages ++ [message], by rw [hwritten, lines_concat, hpart]⟩

/-- The stream ends where a line does. -/
def AtLineEnd (written : Bytes) : Prop :=
  ∀ last ∈ written.getLast?, last = newline

instance (written : Bytes) : Decidable (AtLineEnd written) :=
  inferInstanceAs (Decidable (∀ last ∈ _, _))

theorem atLineEnd_lines (messages : List Value) : AtLineEnd (lines messages) := by
  intro last hlast
  induction messages using List.reverseRecOn with
  | nil => cases hlast
  | append_singleton messages message ih =>
      rw [lines_concat, line, ← List.append_assoc, List.getLast?_concat] at hlast
      exact (Option.some.inj hlast).symm

/-- A stream that was left and ends where a line does has complete messages
only. -/
theorem Intact.of_atLineEnd {written : Bytes} (hintact : Intact written none)
    (hend : AtLineEnd written) : Intact written (some .awaiting) := by
  obtain ⟨messages, message, part, rfl, hpart⟩ := hintact
  rcases List.eq_nil_or_concat' part with rfl | ⟨front, last, rfl⟩
  · exact ⟨messages, List.append_nil _⟩
  · have hlast : last = newline := hend last (by
      rw [← List.append_assoc, List.getLast?_concat]
      rfl)
    subst hlast
    obtain ⟨rest, hrest⟩ := hpart
    refine ⟨messages ++ [message], ?_⟩
    rw [lines_concat]
    rcases List.eq_nil_or_concat' rest with rfl | ⟨rest, last, rfl⟩
    · rw [← hrest, List.append_nil]
    · rw [line, ← List.append_assoc] at hrest
      have hbody := List.append_inj_left' hrest rfl
      have hmem : newline ∈ body message := by
        rw [← hbody]
        simp
      exact absurd hmem (newline_not_mem_body message)

/-! ### Requests -/

section Requests

variable {fromStr : String → Except String Value}

/-- Where a request stands after a wait; one that failed stands nowhere. -/
def Progress.stage? : Progress → Option Stage
  | .going stage => some stage
  | .done (.ok _) => some .awaiting
  | .done (.error _) => none

theorem written_nextLine {conn next : Connection} {raw : Option Bytes}
    (hline : conn.nextLine = some (raw, next)) : next.written = conn.written := by
  unfold Connection.nextLine at hline
  split at hline
  · cases hline
    rfl
  · split at hline
    · cases hline
    · split at hline <;> cases hline <;> rfl

/-- What is done with a line is a wait for the next, a refusal or the end. -/
theorem intact_readLine {written : Bytes} (hintact : Intact written (some .awaiting))
    (id : UInt64) (raw : Option Bytes) :
    Intact written (readLine fromStr id raw).2.stage? := by
  have hidle := hintact.idle
  unfold readLine
  split
  · exact hidle
  · split
    · exact hidle
    · split
      · exact hidle
      · split
        · exact midway_start hintact _
        · exact hintact
        · next result _ =>
            cases result with
            | ok value => exact hintact
            | error error => exact hidle

/-- Every wait of a request keeps the stream intact. -/
theorem Intact.advance {conn : Connection} {id : UInt64} {stage : Stage}
    {input : Input} {next : Advance} (hintact : Intact conn.written (some stage))
    (hadvance : conn.advance fromStr id stage input = some next) :
    Intact next.conn.written next.progress.stage? := by
  have hidle := hintact.idle
  cases stage with
  | sending message rest =>
      cases input with
      | accept count =>
          obtain ⟨⟨later, left⟩, haccepts, rfl⟩ := Option.map_eq_some_iff.1 hadvance
          have hmidway := Midway.accept hintact haccepts
          dsimp only
          split
          · next hleft => exact Midway.done (hleft ▸ hmidway)
          · exact hmidway
      | writeFails text =>
          cases hadvance
          exact hidle
      | read => cases hadvance
      | readFails text => cases hadvance
  | refusing message rest =>
      cases input with
      | accept count =>
          obtain ⟨⟨later, left⟩, haccepts, rfl⟩ := Option.map_eq_some_iff.1 hadvance
          have hmidway := Midway.accept hintact haccepts
          dsimp only
          split
          · next hleft => exact Midway.done (hleft ▸ hmidway)
          · exact hmidway
      | writeFails text =>
          cases hadvance
          exact hidle
      | read => cases hadvance
      | readFails text => cases hadvance
  | awaiting =>
      cases input with
      | read =>
          obtain ⟨⟨raw, later⟩, hline, rfl⟩ := Option.map_eq_some_iff.1 hadvance
          rw [← written_nextLine hline] at hintact
          exact intact_readLine hintact id raw
      | readFails text =>
          cases hadvance
          exact hidle
      | accept count => cases hadvance
      | writeFails text => cases hadvance

theorem classify_ok {id : UInt64} {message result : Value}
    (hclassify : classify id message = .answer (.ok result)) :
    Answers id message result := by
  unfold classify at hclassify
  split at hclassify
  · split at hclassify <;> cases hclassify
  · next hmethod =>
      split at hclassify
      · cases hclassify
      · next got hid =>
          split at hclassify
          · cases hclassify
          · next hgot =>
              split at hclassify
              · cases hclassify
              · next herror =>
                  split at hclassify
                  · next found hresult =>
                      cases hclassify
                      rw [not_not.1 hgot] at hid
                      exact ⟨Option.not_isSome_iff_eq_none.1 hmethod, hid, herror,
                        hresult⟩
                  · cases hclassify

/-- The errors of a request are not those of a tool. -/
theorem classify_error {id : UInt64} {message : Value} {error : McpError}
    (hclassify : classify id message = .answer (.error error)) :
    ¬ IsResult (.error error) := by
  unfold classify at hclassify
  split at hclassify
  · split at hclassify <;> cases hclassify
  · split at hclassify
    · cases hclassify
      exact not_false
    · split at hclassify
      · cases hclassify
      · split at hclassify
        · cases hclassify
          exact not_false
        · split at hclassify
          · cases hclassify
          · cases hclassify
            exact not_false

/-- What a request ends with: the result in a response of its own, or an error that
is not the tool's. -/
def Ends (id : UInt64) (read : List Value) : Except McpError Value → Prop
  | .ok value => ∃ message ∈ read, Answers id message value
  | .error error => ¬ IsResult (.error error)

theorem readLine_ends {id : UInt64} {raw : Option Bytes} {read : List Value}
    {result : Except McpError Value}
    (hread : readLine fromStr id raw = (read, .done result)) :
    Ends id read result := by
  unfold readLine at hread
  split at hread
  · cases hread
    exact not_false
  · split at hread
    · cases hread
      exact not_false
    · split at hread
      · cases hread
        exact not_false
      · next message _ =>
          split at hread
          · cases hread
          · cases hread
          · next hclassify =>
              cases hread
              cases result with
              | ok value =>
                  exact ⟨message, List.mem_singleton_self _, classify_ok hclassify⟩
              | error error => exact classify_error hclassify

/-- A request that a wait ends. -/
theorem advance_ends {conn : Connection} {id : UInt64} {stage : Stage}
    {input : Input} {next : Advance} {result : Except McpError Value}
    (hadvance : conn.advance fromStr id stage input = some next)
    (hdone : next.progress = .done result) : Ends id next.read result := by
  cases stage with
  | awaiting =>
      cases input with
      | read =>
          obtain ⟨⟨raw, later⟩, hline, rfl⟩ := Option.map_eq_some_iff.1 hadvance
          exact readLine_ends (Prod.ext rfl hdone)
      | readFails text =>
          cases hadvance
          cases hdone
          exact not_false
      | accept count => cases hadvance
      | writeFails text => cases hadvance
  | sending message rest =>
      cases input with
      | accept count =>
          obtain ⟨_, _, rfl⟩ := Option.map_eq_some_iff.1 hadvance
          cases hdone
      | writeFails text =>
          cases hadvance
          cases hdone
          exact not_false
      | read => cases hadvance
      | readFails text => cases hadvance
  | refusing message rest =>
      cases input with
      | accept count =>
          obtain ⟨_, _, rfl⟩ := Option.map_eq_some_iff.1 hadvance
          cases hdone
      | writeFails text =>
          cases hadvance
          cases hdone
          exact not_false
      | read => cases hadvance
      | readFails text => cases hadvance

/-- One wait of a request, as the server sees it. -/
structure Exchanged (state : State) (exchange : Exchange) (next : State)
    (progress : Progress) : Prop where
  others : ∀ conn, conn ≠ exchange.conn → next.conns conn = state.conns conn
  intact : Intact (state.conns exchange.conn).written (some exchange.stage) →
    Intact (next.conns exchange.conn).written progress.stage?
  ends : ∀ result, progress = .done result → ∃ read, Ends exchange.id read result ∧
    ∀ message ∈ read, (exchange.conn, message) ∈ next.received
  received : state.received ⊆ next.received
  finished : next.finished = state.finished

theorem exchanged_spec {state next : State} {exchange : Exchange} {input : Input}
    {progress : Progress}
    (hexchanged : state.exchanged fromStr exchange input = some (next, progress)) :
    Exchanged state exchange next progress := by
  obtain ⟨later, hadvance, heq⟩ := Option.map_eq_some_iff.1 hexchanged
  obtain ⟨rfl, rfl⟩ := Prod.mk.inj heq
  constructor
  · intro conn hconn
    exact Function.update_of_ne hconn ..
  · intro hintact
    show Intact (Function.update state.conns exchange.conn later.conn
      exchange.conn).written _
    rw [Function.update_self]
    exact hintact.advance hadvance
  · intro result hdone
    refine ⟨later.read, advance_ends hadvance hdone, fun message hmem => ?_⟩
    exact List.mem_append_right _ (List.mem_map_of_mem hmem)
  · exact List.subset_append_left _ _
  · rfl

end Requests

/-! ### Results and retries -/

/-- How often the call of a phase was sent. -/
def Phase.attempts : Phase → ℕ
  | .launching first => if first.isSome then 1 else 0
  | .initializing first _ => if first.isSome then 1 else 0
  | .announcing first _ _ => if first.isSome then 1 else 0
  | .calling _ => 1
  | .retrying _ => 2

/-- The `tools/call` request of a phase. -/
def Phase.request? : Phase → Option Attempt
  | .calling exchange => some ⟨exchange.conn, exchange.id⟩
  | .retrying exchange => some ⟨exchange.conn, exchange.id⟩
  | _ => none

/-- The attempts of a call are those of its phase. -/
structure Tracked (call : Call) : Prop where
  count : call.attempts.length = call.phase.attempts
  last : ∀ attempt ∈ call.phase.request?, attempt ∈ call.attempts

/-- The outcome is a result of one of the attempts, if it is a result. -/
def OwnResult (received : List (ℕ × Value)) (attempts : List Attempt)
    (outcome : Option (Except McpError String)) : Prop :=
  ∀ returned, outcome = some returned → IsResult returned →
    ∃ attempt ∈ attempts, ∃ message result,
      (attempt.conn, message) ∈ received ∧ Answers attempt.id message result ∧
        returned = callResult result

/-- What every run keeps, cut messages or not. -/
structure Kept (state : State) : Prop where
  own : ∀ finished ∈ state.finished,
    OwnResult state.received finished.attempts finished.outcome
  retries : ∀ finished ∈ state.finished, finished.attempts.length ≤ 2
  active : ∀ call ∈ state.active, Tracked call

theorem Phase.attempts_le (phase : Phase) : phase.attempts ≤ 2 := by
  cases phase <;> rw [Phase.attempts] <;> try split
  all_goals decide

theorem ownResult_error (received : List (ℕ × Value)) (attempts : List Attempt)
    {error : McpError} (herror : ¬ IsResult (.error error)) :
    OwnResult received attempts (some (.error error)) := by
  intro returned hreturned hresult
  cases hreturned
  exact absurd hresult herror

/-- What a request ends with is a result of the call it was sent for. -/
theorem ownResult_ends {received : List (ℕ × Value)} {attempts : List Attempt}
    {conn : ℕ} {id : UInt64} {read : List Value} {result : Except McpError Value}
    (hends : Ends id read result)
    (hread : ∀ message ∈ read, (conn, message) ∈ received)
    (hattempt : ⟨conn, id⟩ ∈ attempts) :
    OwnResult received attempts (some (result.bind callResult)) := by
  cases result with
  | ok value =>
      intro returned hreturned _
      obtain ⟨message, hmem, hanswers⟩ := hends
      exact ⟨_, hattempt, message, value, hread message hmem, hanswers,
        (Option.some.inj hreturned).symm⟩
  | error error => exact ownResult_error received attempts hends

section Kept

variable {state next : State} {call : Call}

/-- What is finished stays so however much more is read. -/
theorem Kept.mono (hkept : Kept state) (hreceived : state.received ⊆ next.received)
    (hfinished : next.finished = state.finished)
    (hactive : ∀ call ∈ next.active, Tracked call) : Kept next where
  own := by
    rw [hfinished]
    intro finished hmem returned hreturned hresult
    obtain ⟨attempt, hattempt, message, result, hread, hrest⟩ :=
      hkept.own finished hmem returned hreturned hresult
    exact ⟨attempt, hattempt, message, result, hreceived hread, hrest⟩
  retries := hfinished ▸ hkept.retries
  active := hactive

theorem Kept.finish (hkept : Kept state) (hattempts : call.attempts.length ≤ 2)
    {outcome : Option (Except McpError String)}
    (hown : OwnResult state.received call.attempts outcome) :
    Kept (state.finish call outcome) where
  own := by
    intro finished hmem
    rcases List.mem_append.1 hmem with hmem | hmem
    · exact hkept.own finished hmem
    · obtain rfl := List.mem_singleton.1 hmem
      exact hown
  retries := by
    intro finished hmem
    rcases List.mem_append.1 hmem with hmem | hmem
    · exact hkept.retries finished hmem
    · obtain rfl := List.mem_singleton.1 hmem
      exact hattempts
  active := fun _ hnone => nomatch hnone

theorem Kept.fail (hkept : Kept state) (hattempts : call.attempts.length ≤ 2)
    {error : McpError} (herror : ¬ IsResult (.error error)) :
    Kept (state.finish call (some (.error error))) :=
  hkept.finish hattempts (ownResult_error _ _ herror)

theorem Kept.resume (hkept : Kept state) {phase : Phase}
    (htracked : Tracked { call with phase }) : Kept (state.resume call phase) := by
  refine hkept.mono (List.Subset.refl _) rfl ?_
  intro other hother
  cases hother
  exact htracked

theorem Kept.send (hkept : Kept state) {conn : ℕ} {method : String} {params : Value}
    {phase : Exchange → Phase}
    (htracked : ∀ stage, Tracked { call with
      phase := phase ⟨conn, (state.conns conn).nextId + 1, stage⟩ }) :
    Kept (state.send call conn method params phase) := by
  refine hkept.mono (List.Subset.refl _) rfl ?_
  intro other hother
  cases hother
  exact htracked _

theorem Kept.attempt_calling (hkept : Kept state) (hnone : call.attempts = [])
    (conn : ℕ) : Kept (state.attempt call conn .calling) := by
  refine hkept.send fun stage => ⟨?_, ?_⟩
  · simp [Phase.attempts, hnone]
  · rintro attempt hattempt
    cases hattempt
    exact List.mem_append_right _ (List.mem_singleton_self _)

theorem Kept.attempt_retrying (hkept : Kept state)
    (hone : call.attempts.length = 1) (conn : ℕ) :
    Kept (state.attempt call conn .retrying) := by
  refine hkept.send fun stage => ⟨?_, ?_⟩
  · simp [Phase.attempts, hone]
  · rintro attempt hattempt
    cases hattempt
    exact List.mem_append_right _ (List.mem_singleton_self _)

theorem Kept.spawnFailed (hkept : Kept state) (hattempts : call.attempts.length ≤ 2)
    (now : ℕ) (first : Option String) {error : McpError}
    (herror : ¬ IsResult (.error error)) :
    Kept (state.spawnFailed call now first error) := by
  have hdead : Kept { state with deadUntil := some (now + respawnBackoff) } :=
    hkept.mono (List.Subset.refl _) rfl hkept.active
  cases first with
  | none => exact hdead.fail hattempts herror
  | some first => exact hdead.fail hattempts not_false

theorem Kept.spawned (hkept : Kept state) {first : Option String}
    (hattempts : call.attempts.length = if first.isSome then 1 else 0) (conn : ℕ) :
    Kept (state.spawned call first conn) := by
  cases first with
  | none =>
      have hlive : Kept { state with live := some conn, deadUntil := none } :=
        hkept.mono (List.Subset.refl _) rfl hkept.active
      exact hlive.attempt_calling (List.eq_nil_of_length_eq_zero hattempts) conn
  | some first => exact hkept.attempt_retrying hattempts conn

theorem Kept.launch (hkept : Kept state) {first : Option String}
    (hattempts : call.attempts.length = if first.isSome then 1 else 0) :
    Kept (state.launch call first) := by
  have hnew : Kept { state with
      conns := Function.update state.conns state.nextConn .new
      nextConn := state.nextConn + 1 } :=
    hkept.mono (List.Subset.refl _) rfl hkept.active
  exact hnew.send fun _ => ⟨hattempts, fun _ hnone => nomatch hnone⟩

/-- A wait of a request that did not end it. -/
theorem Kept.going (hkept : Kept state) {exchange : Exchange} {progress : Progress}
    (hexchanged : Exchanged state exchange next progress) {phase : Phase}
    (htracked : Tracked { call with phase }) : Kept (next.resume call phase) := by
  refine hkept.mono hexchanged.received hexchanged.finished ?_
  intro other hother
  cases hother
  exact htracked

/-- The state a wait of a request leaves, with the call still where it was. -/
theorem Kept.exchanged (hkept : Kept state) {exchange : Exchange}
    {progress : Progress} (hexchanged : Exchanged state exchange next progress)
    (hactive : next.active = state.active) : Kept next :=
  hkept.mono hexchanged.received hexchanged.finished (hactive ▸ hkept.active)

/-- The end of a request that was sent for the call. -/
theorem ownResult_exchanged {exchange : Exchange}
    {result : Except McpError Value}
    (hexchanged : Exchanged state exchange next (.done result))
    (hattempt : ⟨exchange.conn, exchange.id⟩ ∈ call.attempts) :
    OwnResult next.received call.attempts (some (result.bind callResult)) := by
  obtain ⟨read, hends, hread⟩ := hexchanged.ends result rfl
  exact ownResult_ends hends hread hattempt

theorem Kept.called (hkept : Kept state) (hcount : call.attempts.length = 1)
    {result : Except McpError Value}
    (hown : OwnResult state.received call.attempts
      (some (result.bind callResult))) : Kept (state.called call result) := by
  have hle : call.attempts.length ≤ 2 := hcount ▸ Nat.le_succ 1
  unfold State.called
  split
  · refine hkept.mono (List.Subset.refl _) rfl ?_
    intro other hother
    cases hother
    exact ⟨hcount, fun _ hnone => nomatch hnone⟩
  · exact hkept.finish hle hown

theorem Kept.retried (hkept : Kept state) (hcount : call.attempts.length = 2)
    (conn : ℕ) {outcome : Except McpError String}
    (hown : OwnResult state.received call.attempts (some outcome)) :
    Kept (state.retried call conn outcome) := by
  have hlive : Kept { state with live := some conn } :=
    hkept.mono (List.Subset.refl _) rfl hkept.active
  exact hlive.finish (Nat.le_of_eq hcount) hown

theorem Kept.announced (hkept : Kept state) {first : Option String} {conn : ℕ}
    {rest : Bytes} (htracked : Tracked call)
    (hphase : call.phase = .announcing first conn rest) (count : ℕ) :
    Kept (state.announced call first conn rest count) := by
  have hcount : call.attempts.length = if first.isSome then 1 else 0 := by
    rw [htracked.count, hphase, Phase.attempts]
  unfold State.announced
  split
  · exact hkept
  · next later left _ =>
      have hconns : Kept { state with
          conns := Function.update state.conns conn later } :=
        hkept.mono (List.Subset.refl _) rfl hkept.active
      dsimp only
      split
      · exact hconns.spawned hcount conn
      · exact hconns.resume ⟨hcount, fun _ hnone => nomatch hnone⟩

end Kept

section Steps

variable {fromStr : String → Except String Value} {state next : State} {call : Call}

theorem active_exchanged {exchange : Exchange} {input : Input} {progress : Progress}
    (hexchanged : state.exchanged fromStr exchange input = some (next, progress)) :
    next.active = state.active := by
  obtain ⟨later, _, heq⟩ := Option.map_eq_some_iff.1 hexchanged
  obtain ⟨rfl, rfl⟩ := Prod.mk.inj heq
  rfl

theorem Kept.advance (hkept : Kept state) (htracked : Tracked call) (now : ℕ)
    (input : Input) : Kept (state.advance call fromStr now input) := by
  have hle : call.attempts.length ≤ 2 := htracked.count ▸ call.phase.attempts_le
  unfold State.advance
  split
  · exact hkept
  · next first exchange hphase =>
      have hcount : call.attempts.length = if first.isSome then 1 else 0 := by
        rw [htracked.count, hphase, Phase.attempts]
      have hidle {phase : Phase} (hattempts : phase.attempts =
          if first.isSome then 1 else 0) (hnone : phase.request? = none) :
          Tracked { call with phase } := by
        refine ⟨hcount.trans hattempts.symm, fun attempt hattempt => ?_⟩
        rw [show ({ call with phase } : Call).phase.request? = none from hnone]
          at hattempt
        cases hattempt
      split
      · exact hkept
      · next hexchanged =>
          exact hkept.going (exchanged_spec hexchanged) (hidle rfl rfl)
      · next hexchanged =>
          exact hkept.going (exchanged_spec hexchanged) (hidle rfl rfl)
      · next hexchanged =>
          have hspec := exchanged_spec hexchanged
          obtain ⟨read, hends, _⟩ := hspec.ends _ rfl
          exact (hkept.exchanged hspec (active_exchanged hexchanged)).spawnFailed hle
            now first hends
  · next first conn rest hphase =>
      split
      · exact hkept.announced htracked hphase _
      · exact hkept.spawnFailed hle now first not_false
      · exact hkept
  · next exchange hphase =>
      have hcount : call.attempts.length = 1 := by
        rw [htracked.count, hphase, Phase.attempts]
      have hattempt : ⟨exchange.conn, exchange.id⟩ ∈ call.attempts :=
        htracked.last _ (by rw [hphase]; rfl)
      split
      · exact hkept
      · next hexchanged =>
          refine hkept.going (exchanged_spec hexchanged) ⟨hcount, ?_⟩
          rintro attempt hsome
          cases hsome
          exact hattempt
      · next hexchanged =>
          have hspec := exchanged_spec hexchanged
          exact (hkept.exchanged hspec (active_exchanged hexchanged)).called hcount
            (ownResult_exchanged hspec hattempt)
  · next exchange hphase =>
      have hcount : call.attempts.length = 2 := by
        rw [htracked.count, hphase, Phase.attempts]
      have hattempt : ⟨exchange.conn, exchange.id⟩ ∈ call.attempts :=
        htracked.last _ (by rw [hphase]; rfl)
      split
      · exact hkept
      · next hexchanged =>
          refine hkept.going (exchanged_spec hexchanged) ⟨hcount, ?_⟩
          rintro attempt hsome
          cases hsome
          exact hattempt
      · next hexchanged =>
          have hspec := exchanged_spec hexchanged
          exact (hkept.exchanged hspec (active_exchanged hexchanged)).retried hcount
            exchange.conn (ownResult_exchanged hspec hattempt)

theorem Kept.start (hkept : Kept state) (now : ℕ) (tool : String) (args : Value) :
    Kept (state.start now tool args) := by
  unfold State.start
  dsimp only
  split
  · exact hkept.attempt_calling rfl _
  · split
    · refine hkept.fail ?_ not_false
      exact Nat.zero_le 2
    · refine hkept.mono (List.Subset.refl _) rfl ?_
      intro other hother
      cases hother
      exact ⟨rfl, fun _ hnone => nomatch hnone⟩

theorem Kept.elapse (hkept : Kept state) (htracked : Tracked call) (now : ℕ) :
    Kept (state.elapse call now) := by
  have hle : call.attempts.length ≤ 2 := htracked.count ▸ call.phase.attempts_le
  unfold State.elapse
  split
  · exact hkept
  · exact hkept.spawnFailed hle now _ not_false
  · exact hkept.spawnFailed hle now _ not_false
  · exact hkept.fail hle not_false
  · next exchange hphase =>
      have hcount : call.attempts.length = 2 := by
        rw [htracked.count, hphase, Phase.attempts]
      exact hkept.retried hcount _ (ownResult_error _ _ not_false)

theorem Kept.cancel (hkept : Kept state) (htracked : Tracked call) :
    Kept (state.cancel call) := by
  have hle : call.attempts.length ≤ 2 := htracked.count ▸ call.phase.attempts_le
  unfold State.cancel
  split
  · exact hkept
  · refine hkept.finish hle ?_
    intro returned hreturned
    cases hreturned

theorem kept_step (command : String) (state : State) (event : Event)
    (hkept : Kept state) : Kept (step fromStr command state event) := by
  unfold step
  split
  · exact hkept.start _ _ _
  · next failure call haction hcall =>
      have htracked := hkept.active call hcall
      split
      · next first hphase =>
          have hcount : call.attempts.length = if first.isSome then 1 else 0 := by
            rw [htracked.count, hphase, Phase.attempts]
          split
          · exact hkept.launch hcount
          · exact hkept.spawnFailed (htracked.count ▸ call.phase.attempts_le) _ _
              not_false
      · exact hkept
  · next call _ hcall => exact hkept.advance (hkept.active call hcall) _ _
  · next call _ hcall => exact hkept.elapse (hkept.active call hcall) _
  · next call _ hcall => exact hkept.cancel (hkept.active call hcall)
  · split
    · exact hkept
    · exact hkept.mono (List.Subset.refl _) rfl hkept.active
  · exact hkept.mono (List.Subset.refl _) rfl hkept.active
  · exact hkept

end Steps

/-! ### Streams of a server -/

/-- Every stream is intact for where the call in progress stands on it. -/
def Streams (state : State) : Prop :=
  ∀ conn, Intact (state.conns conn).written (state.stageOf conn)

/-- Every stream is fit to be left. -/
def Idle (state : State) : Prop :=
  ∀ conn, Intact (state.conns conn).written none

/-- Every stream but one is fit to be left. -/
def IdleBut (state : State) (used : ℕ) : Prop :=
  ∀ conn, conn ≠ used → Intact (state.conns conn).written none

section Streams

variable {state next : State} {call : Call}

theorem stageOf_none {conn : ℕ}
    (hnone : (state.active.bind fun call => call.phase.use) = none) :
    state.stageOf conn = none := by
  rw [State.stageOf, hnone]

theorem stageOf_some {used conn : ℕ} {stage : Stage}
    (huse : (state.active.bind fun call => call.phase.use) = some (used, stage)) :
    state.stageOf conn = if used = conn then some stage else none := by
  rw [State.stageOf, huse]

theorem streams_of_idle (hidle : Idle state)
    (hnone : (state.active.bind fun call => call.phase.use) = none) :
    Streams state := by
  intro conn
  rw [stageOf_none hnone]
  exact hidle conn

theorem streams_of_use {used : ℕ} {stage : Stage}
    (huse : (state.active.bind fun call => call.phase.use) = some (used, stage))
    (hused : Intact (state.conns used).written (some stage))
    (hothers : IdleBut state used) : Streams state := by
  intro conn
  rw [stageOf_some huse]
  split
  · next heq => exact heq ▸ hused
  · next hne => exact hothers conn fun heq => hne heq.symm

theorem Streams.idle (hstreams : Streams state) : Idle state := by
  intro conn
  have hintact := hstreams conn
  cases hstage : state.stageOf conn with
  | none => rwa [hstage] at hintact
  | some stage =>
      rw [hstage] at hintact
      exact hintact.idle

/-- The stream the call in progress uses. -/
theorem Streams.used (hstreams : Streams state) (hactive : state.active = some call)
    {used : ℕ} {stage : Stage} (huse : call.phase.use = some (used, stage)) :
    Intact (state.conns used).written (some stage) := by
  have hintact := hstreams used
  rw [stageOf_some (by rw [hactive]; exact huse), if_pos rfl] at hintact
  exact hintact

theorem streams_finish (hidle : Idle state)
    (outcome : Option (Except McpError String)) :
    Streams (state.finish call outcome) :=
  streams_of_idle hidle rfl

theorem streams_spawnFailed (hidle : Idle state) (now : ℕ) (first : Option String)
    (error : McpError) : Streams (state.spawnFailed call now first error) := by
  cases first <;> exact streams_of_idle hidle rfl

/-- A request may be sent where the stream has complete messages only. -/
theorem streams_send {conn : ℕ} {method : String} {params : Value}
    {phase : Exchange → Phase}
    (hphase : ∀ exchange, (phase exchange).use =
      some (exchange.conn, exchange.stage))
    (hwhole : Intact (state.conns conn).written (some .awaiting))
    (hothers : IdleBut state conn) :
    Streams (state.send call conn method params phase) := by
  refine streams_of_use (hphase _) ?_ ?_
  · show Intact (Function.update state.conns conn _ conn).written _
    rw [Function.update_self]
    exact midway_start hwhole _
  · intro other hne
    show Intact (Function.update state.conns conn _ other).written none
    rw [Function.update_of_ne hne]
    exact hothers other hne

theorem streams_launch (hidle : Idle state) (first : Option String) :
    Streams (state.launch call first) := by
  refine streams_send (fun _ => rfl) ?_ ?_
  · show Intact (Function.update state.conns state.nextConn _
      state.nextConn).written _
    rw [Function.update_self]
    exact ⟨[], rfl⟩
  · intro other hne
    show Intact (Function.update state.conns state.nextConn _ other).written none
    rw [Function.update_of_ne hne]
    exact hidle other

theorem streams_spawned (first : Option String) {conn : ℕ}
    (hwhole : Intact (state.conns conn).written (some .awaiting))
    (hothers : IdleBut state conn) :
    Streams (state.spawned call first conn) := by
  cases first with
  | none => exact streams_send (fun _ => rfl) hwhole hothers
  | some first => exact streams_send (fun _ => rfl) hwhole hothers

/-- A wait that did not end the request. -/
theorem streams_going {exchange : Exchange} {stage : Stage}
    (hexchanged : Exchanged state exchange next (.going stage))
    (hused : Intact (state.conns exchange.conn).written (some exchange.stage))
    (hidle : Idle state) {phase : Phase}
    (hphase : phase.use = some (exchange.conn, stage)) :
    Streams (next.resume call phase) := by
  refine streams_of_use hphase (hexchanged.intact hused) fun other hne => ?_
  show Intact (next.conns other).written none
  rw [hexchanged.others other hne]
  exact hidle other

/-- A wait that ended the request leaves every stream fit to be left. -/
theorem idle_done {exchange : Exchange} {result : Except McpError Value}
    (hexchanged : Exchanged state exchange next (.done result))
    (hused : Intact (state.conns exchange.conn).written (some exchange.stage))
    (hidle : Idle state) : Idle next := by
  intro conn
  rcases eq_or_ne conn exchange.conn with rfl | hne
  · cases result with
    | ok value => exact (hexchanged.intact hused).idle
    | error error => exact hexchanged.intact hused
  · rw [hexchanged.others conn hne]
    exact hidle conn

theorem streams_called (hidle : Idle state) (result : Except McpError Value) :
    Streams (state.called call result) := by
  unfold State.called
  split <;> exact streams_of_idle hidle rfl

theorem streams_announced {first : Option String} {conn : ℕ} {rest : Bytes}
    (hstreams : Streams state) (hactive : state.active = some call)
    (hphase : call.phase = .announcing first conn rest) (count : ℕ) :
    Streams (state.announced call first conn rest count) := by
  have huse : call.phase.use = some (conn, .sending initialized rest) := by
    rw [hphase]
    rfl
  have hused : Midway (state.conns conn).written initialized rest :=
    hstreams.used hactive huse
  unfold State.announced
  split
  · exact hstreams
  · next later left haccepts =>
      have hmidway := hused.accept haccepts
      have hothers : IdleBut { state with
          conns := Function.update state.conns conn later } conn := by
        intro other hne
        show Intact (Function.update state.conns conn later other).written none
        rw [Function.update_of_ne hne]
        exact hstreams.idle other
      have hself : Function.update state.conns conn later conn = later :=
        Function.update_self ..
      dsimp only
      split
      · next hleft =>
          refine streams_spawned first ?_ hothers
          show Intact (Function.update state.conns conn later conn).written _
          rw [hself]
          exact Midway.done (hleft ▸ hmidway)
      · refine streams_of_use rfl ?_ hothers
        show Intact (Function.update state.conns conn later conn).written _
        rw [hself]
        exact hmidway

variable {fromStr : String → Except String Value}

theorem Streams.advance (hstreams : Streams state)
    (hactive : state.active = some call) (now : ℕ) (input : Input) :
    Streams (state.advance call fromStr now input) := by
  have hidle := hstreams.idle
  unfold State.advance
  split
  · exact hstreams
  · next first exchange hphase =>
      have hused := hstreams.used hactive
        (show call.phase.use = some (exchange.conn, exchange.stage) by
          rw [hphase]
          rfl)
      split
      · exact hstreams
      · next hexchanged => exact streams_going (exchanged_spec hexchanged) hused hidle rfl
      · next hexchanged =>
          have hspec := exchanged_spec hexchanged
          refine streams_of_use rfl (midway_start (hspec.intact hused) _)
            fun other hne => ?_
          exact hspec.others other hne ▸ hidle other
      · next hexchanged =>
          exact streams_spawnFailed (idle_done (exchanged_spec hexchanged) hused hidle)
            now first _
  · next first conn rest hphase =>
      split
      · exact streams_announced hstreams hactive hphase _
      · exact streams_spawnFailed hidle now first _
      · exact hstreams
  · next exchange hphase =>
      have hused := hstreams.used hactive
        (show call.phase.use = some (exchange.conn, exchange.stage) by
          rw [hphase]
          rfl)
      split
      · exact hstreams
      · next hexchanged => exact streams_going (exchanged_spec hexchanged) hused hidle rfl
      · next hexchanged =>
          exact streams_called (idle_done (exchanged_spec hexchanged) hused hidle) _
  · next exchange hphase =>
      have hused := hstreams.used hactive
        (show call.phase.use = some (exchange.conn, exchange.stage) by
          rw [hphase]
          rfl)
      split
      · exact hstreams
      · next hexchanged => exact streams_going (exchanged_spec hexchanged) hused hidle rfl
      · next hexchanged =>
          have hdone := idle_done (exchanged_spec hexchanged) hused hidle
          exact streams_of_idle (fun conn => hdone conn) rfl

theorem Streams.elapse (hstreams : Streams state) (now : ℕ) :
    Streams (state.elapse call now) := by
  have hidle := hstreams.idle
  unfold State.elapse
  split
  · exact hstreams
  · exact streams_spawnFailed hidle now _ _
  · exact streams_spawnFailed hidle now _ _
  · exact streams_finish hidle _
  · exact streams_of_idle hidle rfl

theorem Streams.cancel (hstreams : Streams state) : Streams (state.cancel call) := by
  unfold State.cancel
  split
  · exact hstreams
  · exact streams_finish hstreams.idle _

/-- What the child writes or closes does not touch what was written to it. -/
theorem Streams.of_written (hstreams : Streams state)
    (hactive : next.active = state.active)
    (hwritten : ∀ conn, (next.conns conn).written = (state.conns conn).written) :
    Streams next := by
  intro conn
  rw [hwritten, State.stageOf, hactive]
  exact hstreams conn

end Streams

/-- No call takes over a connection whose last message was cut off. -/
def Careful (state : State) (event : Event) : Prop :=
  ∀ tool args conn, event.action = .call tool args → state.active = none →
    state.live = some conn → AtLineEnd (state.conns conn).written

section Runs

variable {fromStr : String → Except String Value} {command : String}

theorem streams_start {state : State} (hidle : Idle state) (now : ℕ) (tool : String)
    (args : Value)
    (hcareful : ∀ conn, state.live = some conn →
      AtLineEnd (state.conns conn).written) :
    Streams (state.start now tool args) := by
  unfold State.start
  dsimp only
  split
  · next conn hlive =>
      exact streams_send (fun _ => rfl)
        ((hidle conn).of_atLineEnd (hcareful conn hlive)) fun other _ => hidle other
  · split
    · exact streams_finish hidle _
    · exact streams_of_idle hidle rfl

theorem written_update {conns : ℕ → Connection} {conn : ℕ} {next : Connection}
    (hwritten : next.written = (conns conn).written) (other : ℕ) :
    (Function.update conns conn next other).written = (conns other).written := by
  rcases eq_or_ne other conn with rfl | hne
  · rw [Function.update_self, hwritten]
  · rw [Function.update_of_ne hne]

theorem streams_step {state : State} {event : Event} (hstreams : Streams state)
    (hcareful : Careful state event) :
    Streams (step fromStr command state event) := by
  have hidle := hstreams.idle
  unfold step
  split
  · next tool args haction hnone =>
      exact streams_start hidle _ tool args fun conn hlive =>
        hcareful tool args conn haction hnone hlive
  · split
    · split
      · exact streams_launch hidle _
      · exact streams_spawnFailed hidle _ _ _
    · exact hstreams
  · next call _ hcall => exact hstreams.advance hcall _ _
  · exact hstreams.elapse _
  · exact hstreams.cancel
  · split
    · exact hstreams
    · exact hstreams.of_written rfl (written_update rfl)
  · exact hstreams.of_written rfl (written_update rfl)
  · exact hstreams

/-- An invariant of the streams and of the calls. -/
structure Good (state : State) : Prop where
  kept : Kept state
  streams : Streams state

theorem Kept.sound {state : State} (hkept : Kept state) (hstreams : Streams state) :
    Sound state where
  streams := hstreams
  own := hkept.own
  retries := by
    refine ⟨hkept.retries, fun call hcall => ?_⟩
    rw [(hkept.active call hcall).count]
    exact call.phase.attempts_le

theorem kept_started (startup : List Value) (nextId : UInt64) :
    Kept (State.started startup nextId) where
  own := fun _ hmem => nomatch hmem
  retries := fun _ hmem => nomatch hmem
  active := fun _ hmem => nomatch hmem

theorem streams_started (startup : List Value) (nextId : UInt64) :
    Streams (State.started startup nextId) := by
  refine streams_of_idle (fun conn => ?_) rfl
  show Intact (ite (conn = 0) _ Connection.new).written none
  split
  · exact intact_lines startup
  · exact intact_lines []

/-- Nothing of the message was written yet. -/
theorem Midway.atLineEnd {written : Bytes} {message : Value}
    (hmidway : Midway written message (line message)) : AtLineEnd written := by
  obtain ⟨messages, part, rfl, hpart⟩ := hmidway
  rw [List.append_left_eq_self.1 hpart, List.append_nil]
  exact atLineEnd_lines messages

/-- A call that takes over a stream with a message cut off breaks it. -/
theorem careful_of_streams {state : State} {event : Event}
    (hstreams : Streams (step fromStr command state event)) :
    Careful state event := by
  intro tool args conn haction hactive hlive
  have hstep : step fromStr command state event =
      state.attempt ⟨tool, args, .launching none, []⟩ conn .calling := by
    simp only [step, haction, hactive, State.start, hlive]
  rw [hstep] at hstreams
  have hused := hstreams.used rfl rfl
  have hmidway : Midway (Function.update state.conns conn
      { state.conns conn with nextId := (state.conns conn).nextId + 1 }
      conn).written _ (line _) := hused
  rw [Function.update_self] at hmidway
  exact hmidway.atLineEnd

/-- In every run of calls every stream is intact, every result is that of an own
response and no call is retried twice, exactly when no call takes over a
connection whose last message was cut off. -/
theorem sound_iff_careful (fromStr : String → Except String Value) (command : String)
    (startup : List Value) (nextId : UInt64) (events : List Event) :
    (∀ before, before <+: events →
      Sound (Run.run (step fromStr command) (State.started startup nextId) before)) ↔
      Run.Meets (step fromStr command) Careful (State.started startup nextId)
        events := by
  have hgood (state : State) (hgood : Good state) : Sound state :=
    hgood.kept.sound hgood.streams
  have hkeep (state : State) (event : Event) (hgood : Good state)
      (hcareful : Careful state event) : Good (step fromStr command state event) :=
    ⟨kept_step command state event hgood.kept, streams_step hgood.streams hcareful⟩
  have hneed (state : State) (event : Event) (_ : Good state)
      (hsound : Sound (step fromStr command state event)) : Careful state event :=
    careful_of_streams hsound.streams
  exact Run.forall_prefix_iff_meets hgood hkeep hneed
    ⟨kept_started startup nextId, streams_started startup nextId⟩

/-- Cut messages or not, a result is that of an own response and a call is sent
twice at most. -/
theorem kept_run (fromStr : String → Except String Value) (command : String)
    (startup : List Value) (nextId : UInt64) (events : List Event) :
    Kept (Run.run (step fromStr command) (State.started startup nextId) events) :=
  Run.invariant_run (kept_step command) (kept_started startup nextId) events

/-- Whatever was written to a connection that waits for a line, the server reads
the messages as its lines. -/
theorem server_reads {state : State} (hstreams : Streams state) {call : Call}
    (hactive : state.active = some call) {conn : ℕ}
    (huse : call.phase.use = some (conn, .awaiting)) :
    ∃ messages : List Value,
      (state.conns conn).written.splitOn newline = messages.map body ++ [[]] := by
  obtain ⟨messages, hwritten⟩ := hstreams.used hactive huse
  have hsplit := splitOn_lines messages (List.not_mem_nil (a := newline))
  rw [List.append_nil] at hsplit
  exact ⟨messages, hwritten ▸ hsplit⟩

end Runs

/-! ### A message cut off -/

/-- The first call is cancelled when the pipe has taken one byte of its request;
the second one has its turn on the same connection. -/
def cutOff : List Event := [
  ⟨0, .call "grep" .null⟩, ⟨0, .input (.accept 1)⟩, ⟨0, .cancel⟩,
  ⟨0, .call "grep" .null⟩, ⟨0, .input (.accept 89)⟩]

/-- A server whose lines are never parsed. -/
abbrev quietStep : State → Event → State :=
  step (fun _ => .error "unread") "server"

/-- The server gets a line that is no message. -/
theorem cutOff_mixed :
    (Run.run quietStep (.started [] 0) cutOff).stageOf 0 = some .awaiting ∧
      ((Run.run quietStep (.started [] 0) cutOff).conns 0).written =
        utf8 ("\x7b\x7b\"id\":2,\"jsonrpc\":\"2.0\",\"method\":\"tools/call\"," ++
          "\"params\":\x7b\"arguments\":null,\"name\":\"grep\"\x7d\x7d\n").toList ∧
      ¬ Sound (Run.run quietStep (.started [] 0) cutOff) := by
  have hwritten : ((Run.run quietStep (.started [] 0) cutOff).conns 0).written =
      utf8 ("\x7b\x7b\"id\":2,\"jsonrpc\":\"2.0\",\"method\":\"tools/call\"," ++
        "\"params\":\x7b\"arguments\":null,\"name\":\"grep\"\x7d\x7d\n").toList := by
    decide
  refine ⟨rfl, hwritten, fun hsound => ?_⟩
  obtain ⟨messages, hlines⟩ := hsound.streams 0
  rw [hwritten] at hlines
  exact lines_ne_braces messages _ hlines.symm

end Kitaebot.Tools.Mcp
