import Mathlib.Data.List.Chain
import Mathlib.Order.Bounds.Basic
import Kitaebot.Duty.Cursors
import Kitaebot.Duty.ScheduleText

/-!
# When duties run

The next due time of a duty is the first occurrence of its schedule after the last
run, and the scheduler sleeps until the first of them.  In a run with a clock that
does not go back a duty is started at most once for each occurrence.
-/

namespace Kitaebot.Scheduler

open MachineInt

/-! ### Occurrences -/

/-- The instants of a schedule, for a duty that ran last at some instant. -/
def Schedule.Occurs (last : ℕ) : Schedule → ℕ → Prop
  | .every period, time => ∃ periods, time = last + periods * period
  | .daily timeOfDay, time => time % 86400 = timeOfDay

/-- The first occurrence after the last run. -/
theorem Schedule.nextDue_isLeast {schedule : Schedule} (hvalid : schedule.Valid)
    (last now : ℕ) :
    IsLeast {time | last < time ∧ schedule.Occurs last time}
      (schedule.nextDue (some last) now) := by
  cases schedule with
  | every period =>
      rw [Valid] at hvalid
      refine ⟨⟨Nat.lt_add_of_pos_right hvalid, 1, ?_⟩, ?_⟩
      · rw [nextDue, Nat.one_mul]
      · rintro time ⟨hlater, periods, rfl⟩
        cases periods with
        | zero => omega
        | succ periods =>
            rw [nextDue, Nat.succ_mul]
            omega
  | daily timeOfDay =>
      rw [Valid] at hvalid
      simp only [nextDue, Occurs]
      split_ifs with htoday
      · refine ⟨⟨htoday, by omega⟩, ?_⟩
        rintro time ⟨hlater, htime⟩
        omega
      · refine ⟨⟨by omega, by omega⟩, ?_⟩
        rintro time ⟨hlater, htime⟩
        omega

theorem Schedule.lt_nextDue {schedule : Schedule} (hvalid : schedule.Valid)
    (last now : ℕ) : last < schedule.nextDue (some last) now :=
  (nextDue_isLeast hvalid last now).1.1

/-- A later run is not due again sooner. -/
theorem Schedule.nextDue_mono {schedule : Schedule} (hvalid : schedule.Valid)
    {earlier later : ℕ} (hle : earlier ≤ later) (now now' : ℕ) :
    schedule.nextDue (some earlier) now ≤ schedule.nextDue (some later) now' := by
  cases schedule with
  | every period => exact Nat.add_le_add_right hle period
  | daily timeOfDay =>
      obtain ⟨hlater, hoccurs⟩ := (nextDue_isLeast hvalid later now').1
      exact (nextDue_isLeast hvalid earlier now).2 ⟨Nat.lt_of_le_of_lt hle hlater, hoccurs⟩

/-- `Schedule::next_due` on 64-bit epochs; none where an operation leaves them. -/
def Schedule.nextDueChecked (schedule : Schedule) (lastRun : Option ℕ) (now : ℕ) :
    Option ℕ :=
  match lastRun with
  | none => some now
  | some last =>
      match schedule with
      | .every period => unsigned .panics 64 (last + period : ℕ)
      | .daily timeOfDay => do
          let midnight ← unsigned .panics 64 (last - last % 86400 : ℕ)
          let today ← unsigned .panics 64 (midnight + timeOfDay : ℕ)
          if today > last then some today
          else unsigned .panics 64 (today + 86400 : ℕ)

/-- The period of a schedule in seconds. -/
def Schedule.period : Schedule → ℕ
  | .every period => period
  | .daily _ => 86400

/-- Nothing overflows where the last run and the period together do not. -/
theorem Schedule.nextDueChecked_eq {schedule : Schedule} (hvalid : schedule.Valid)
    {lastRun : Option ℕ} (now : ℕ)
    (hfits : ∀ last ∈ lastRun, last + schedule.period < 2 ^ 64) :
    schedule.nextDueChecked lastRun now = some (schedule.nextDue lastRun now) := by
  cases lastRun with
  | none => rfl
  | some last =>
      have hfits : last + schedule.period < 2 ^ 64 := hfits last rfl
      cases schedule with
      | every period =>
          simp only [nextDueChecked, nextDue]
          exact unsigned_eq rfl hfits
      | daily timeOfDay =>
          rw [Valid] at hvalid
          rw [period] at hfits
          have hmidnight : unsigned .panics 64 ((last - last % 86400 : ℕ) : ℤ) =
              some (last - last % 86400) :=
            unsigned_eq rfl (by omega)
          have htoday : unsigned .panics 64
              ((last - last % 86400 + timeOfDay : ℕ) : ℤ) =
              some (last - last % 86400 + timeOfDay) :=
            unsigned_eq rfl (by omega)
          simp only [nextDueChecked, nextDue]
          rw [bind_of_eq hmidnight, bind_of_eq htoday]
          split_ifs
          · rfl
          · exact unsigned_eq rfl (by omega)

/-! ### Due duties and the sleep until the next -/

theorem mem_due {duties : List Duty} {state : DutyState} {now : ℕ} {duty : Duty} :
    duty ∈ due duties state now ↔
      duty ∈ duties ∧ duty.schedule.nextDue (state.lastRun duty.name) now ≤ now := by
  rw [due, List.mem_filter, decide_eq_true_iff]

/-- A duty is due when it never ran or an occurrence has passed since it did. -/
theorem mem_due_iff {duties : List Duty} {state : DutyState} {now : ℕ} {duty : Duty}
    (hvalid : duty.schedule.Valid) :
    duty ∈ due duties state now ↔ duty ∈ duties ∧
      ∀ last ∈ state.lastRun duty.name,
        ∃ time, duty.schedule.Occurs last time ∧ last < time ∧ time ≤ now := by
  rw [mem_due]
  refine and_congr_right fun _ => ?_
  cases hlast : state.lastRun duty.name with
  | none =>
      refine iff_of_true (Nat.le_refl now) fun last hmem => ?_
      cases hmem
  | some last =>
      have hleast := Schedule.nextDue_isLeast hvalid last now
      constructor
      · intro hdue last' hmem
        obtain rfl := Option.some.inj hmem
        exact ⟨_, hleast.1.2, hleast.1.1, hdue⟩
      · intro hall
        obtain ⟨time, hoccurs, hlater, htime⟩ := hall last rfl
        exact Nat.le_trans (hleast.2 ⟨hlater, hoccurs⟩) htime

/-- However overdue a duty was, it is not due once its run is recorded. -/
theorem not_mem_due_recordRun {duties : List Duty} {state : DutyState} {now : ℕ}
    {duty : Duty} (hvalid : duty.schedule.Valid) :
    duty ∉ due duties (state.recordRun duty.name now) now := by
  have hlast : (state.recordRun duty.name now).lastRun duty.name = some now :=
    Function.update_self ..
  rw [mem_due, hlast]
  exact fun hdue => Nat.not_le.2 (Schedule.lt_nextDue hvalid now now) hdue.2

/-- Cap on scheduler sleep, in seconds. -/
def maxSleepSecs : ℕ := 600

/-- Seconds until the earliest next due time, capped. -/
def nextWake (duties : List Duty) (state : DutyState) (now : ℕ) : ℕ :=
  let secs := (duties.map fun duty =>
    duty.schedule.nextDue (state.lastRun duty.name) now - now).min?
  min (max (secs.getD maxSleepSecs) 1) maxSleepSecs

section Sleep

variable {duties : List Duty} {state : DutyState} {now : ℕ}

/-- The time until a duty is due, of all of them or of none. -/
theorem earliest_cases (duties : List Duty) (state : DutyState) (now : ℕ) :
    duties = [] ∧ nextWake duties state now = maxSleepSecs ∨
      ∃ duty ∈ duties, nextWake duties state now =
          min (max (duty.schedule.nextDue (state.lastRun duty.name) now - now) 1)
            maxSleepSecs ∧
        ∀ other ∈ duties,
          duty.schedule.nextDue (state.lastRun duty.name) now - now ≤
            other.schedule.nextDue (state.lastRun other.name) now - now := by
  cases hmin : (duties.map fun duty =>
      duty.schedule.nextDue (state.lastRun duty.name) now - now).min? with
  | none =>
      refine .inl ⟨List.map_eq_nil_iff.1 (List.min?_eq_none_iff.1 hmin), ?_⟩
      simp only [nextWake, hmin]
      rfl
  | some least =>
      obtain ⟨hmem, hleast⟩ := List.min?_eq_some_iff.1 hmin
      obtain ⟨duty, hduty, rfl⟩ := List.mem_map.1 hmem
      refine .inr ⟨duty, hduty, ?_, fun other hother => ?_⟩
      · simp only [nextWake, hmin, Option.getD_some]
      · exact hleast _ (List.mem_map_of_mem hother)

theorem nextWake_le {duty : Duty} (hduty : duty ∈ duties) :
    nextWake duties state now ≤
      max (duty.schedule.nextDue (state.lastRun duty.name) now - now) 1 := by
  rcases earliest_cases duties state now with ⟨rfl, -⟩ | ⟨first, -, hwake, hleast⟩
  · cases hduty
  · have hfirst := hleast duty hduty
    rw [hwake]
    omega

/-- While the scheduler sleeps no duty becomes due. -/
theorem due_of_sleeping {time : ℕ} (hlow : now ≤ time)
    (hhigh : time < now + nextWake duties state now) :
    due duties state time = due duties state now := by
  refine List.filter_congr fun duty hduty => decide_eq_decide.2 ?_
  have hwake : nextWake duties state now ≤
      max (duty.schedule.nextDue (state.lastRun duty.name) now - now) 1 :=
    nextWake_le hduty
  cases hlast : state.lastRun duty.name with
  | none => exact iff_of_true (Nat.le_refl time) (Nat.le_refl now)
  | some last =>
      rw [hlast] at hwake
      change duty.schedule.nextDue (some last) now ≤ time ↔ _
      omega

/-- A sleep that is not cut short by the cap ends with a due duty. -/
theorem due_of_wake (hwake : nextWake duties state now < maxSleepSecs) :
    due duties state (now + nextWake duties state now) ≠ [] := by
  rcases earliest_cases duties state now with ⟨-, hnone⟩ | ⟨duty, hduty, hfirst, -⟩
  · exact absurd hnone (Nat.ne_of_lt hwake)
  · apply List.ne_nil_of_mem (mem_due.2 ⟨hduty, ?_⟩)
    cases hlast : state.lastRun duty.name with
    | none => exact Nat.le_refl _
    | some last =>
        rw [hlast] at hfirst
        change duty.schedule.nextDue (some last) now ≤ _
        omega

/-- The sleep is between a second and the cap, no duty becomes due in it, and it
ends when one is due or at the cap. -/
theorem nextWake_exact (duties : List Duty) (state : DutyState) (now : ℕ) :
    1 ≤ nextWake duties state now ∧ nextWake duties state now ≤ maxSleepSecs ∧
      (∀ time, now ≤ time → time < now + nextWake duties state now →
        due duties state time = due duties state now) ∧
      (nextWake duties state now < maxSleepSecs →
        due duties state (now + nextWake duties state now) ≠ []) := by
  refine ⟨?_, Nat.min_le_right _ _, fun time => due_of_sleeping, due_of_wake⟩
  exact Nat.le_min.2 ⟨Nat.le_max_right _ _, by decide⟩

end Sleep

/-- When the clock is read at an event. -/
def Event.reading : Event → Option ℕ
  | .tick now => some now
  | .runNext env => some env.now
  | _ => none

/-- A run with its clock and the ticks that picked a duty, the last one first. -/
structure Watched where
  world : World
  clock : ℕ
  starts : List ℕ

/-- The ticks that pick the duty; a trigger's are not counted. -/
def Watched.picks (config : Config) (duty : Duty) (watched : Watched) :
    Event → List ℕ
  | .tick now =>
      if watched.world.pending = [] ∧
          duty ∈ due (buildDuties config) watched.world.state now then [now]
      else []
  | _ => []

def Watched.step (codec : Codec) (config : Config) (duty : Duty) (watched : Watched)
    (event : Event) : Watched where
  world := Scheduler.step codec config watched.world event
  clock := event.reading.getD watched.clock
  starts := watched.picks config duty event ++ watched.starts

/-- The clock does not go back. -/
def Watched.Forward (watched : Watched) (event : Event) : Prop :=
  ∀ now ∈ event.reading, watched.clock ≤ now

def Watched.init : Watched := ⟨Scheduler.init, 0, []⟩

/-- A later start is not before the first occurrence after an earlier one. -/
def Spaced (schedule : Schedule) (starts : List ℕ) : Prop :=
  starts.IsChain fun later earlier => schedule.nextDue (some earlier) later ≤ later

/-- The last start was recorded as a run since, or the duty is still to run. -/
structure Watched.Kept (duty : Duty) (watched : Watched) : Prop where
  spaced : Spaced duty.schedule watched.starts
  recorded : ∀ start ∈ watched.starts.head?, start ≤ watched.clock ∧
    (duty ∈ watched.world.pending ∨
      ∃ last, watched.world.state.lastRun duty.name = some last ∧ start ≤ last)

section Watch

variable {codec : Codec} {config : Config} {duty : Duty} {watched : Watched}

theorem Watched.init_kept (duty : Duty) : Watched.Kept duty .init :=
  ⟨.nil, fun _ hstart => nomatch hstart⟩

theorem lastRun_runOne (codec : Codec) (duty : Duty) (env : Env) (disk : Disk)
    (state : DutyState) :
    (runOne codec duty env disk state).1.lastRun =
      Function.update state.lastRun duty.name (some env.now) := by
  have hperform : (perform codec duty (disk.sources env) env state).1.lastRun =
      state.lastRun :=
    lastRun_perform _
  exact congrArg (Function.update · duty.name (some env.now)) hperform

/-- An event that leaves the pending duties and the last runs as they are. -/
theorem Watched.Kept.of_quiet {event : Event} (hkept : watched.Kept duty)
    (hforward : watched.Forward event) (hpicks : watched.picks config duty event = [])
    (hrecorded : ∀ start ≤ watched.clock,
      (duty ∈ watched.world.pending ∨
        ∃ last, watched.world.state.lastRun duty.name = some last ∧ start ≤ last) →
      duty ∈ (Scheduler.step codec config watched.world event).pending ∨
        ∃ last, (Scheduler.step codec config watched.world event).state.lastRun
          duty.name = some last ∧ start ≤ last) :
    (watched.step codec config duty event).Kept duty := by
  have hstarts : (watched.step codec config duty event).starts = watched.starts := by
    rw [Watched.step, hpicks, List.nil_append]
  refine ⟨hstarts ▸ hkept.spaced, fun start hstart => ?_⟩
  rw [hstarts] at hstart
  obtain ⟨hclock, hcases⟩ := hkept.recorded start hstart
  refine ⟨?_, hrecorded start hclock hcases⟩
  simp only [Watched.step]
  cases hreading : event.reading with
  | none => exact hclock
  | some now => exact Nat.le_trans hclock (hforward now hreading)

/-- A picked duty ran since it was picked before. -/
theorem Watched.Kept.of_pick (hvalid : duty.schedule.Valid) {now : ℕ}
    (hkept : watched.Kept duty) (hpending : watched.world.pending = [])
    (hdue : duty ∈ due (buildDuties config) watched.world.state now) :
    (watched.step codec config duty (.tick now)).Kept duty := by
  have hstarts : (watched.step codec config duty (.tick now)).starts =
      now :: watched.starts := by
    rw [Watched.step, Watched.picks, if_pos ⟨hpending, hdue⟩]
    rfl
  have hworld : (Scheduler.step codec config watched.world (.tick now)).pending =
      due (buildDuties config) watched.world.state now := by
    simp only [Scheduler.step, hpending]
  constructor
  · rw [hstarts, Spaced, List.isChain_cons]
    refine ⟨fun start hstart => ?_, hkept.spaced⟩
    obtain ⟨-, hcases⟩ := hkept.recorded start hstart
    rw [hpending] at hcases
    obtain ⟨last, hlast, hle⟩ := hcases.resolve_left List.not_mem_nil
    have hnow := (mem_due.1 hdue).2
    rw [hlast] at hnow
    exact Nat.le_trans (Schedule.nextDue_mono hvalid hle now now) hnow
  · intro start hstart
    rw [hstarts] at hstart
    obtain rfl := Option.some.inj hstart
    exact ⟨Nat.le_refl _, .inl (hworld ▸ hdue)⟩

theorem Watched.Kept.step (hvalid : duty.schedule.Valid) {event : Event}
    (hkept : watched.Kept duty) (hforward : watched.Forward event) :
    (watched.step codec config duty event).Kept duty := by
  cases event with
  | write text => exact hkept.of_quiet hforward rfl fun _ _ hcases => hcases
  | logError text => exact hkept.of_quiet hforward rfl fun _ _ hcases => hcases
  | roll name => exact hkept.of_quiet hforward rfl fun _ _ hcases => hcases
  | tick now =>
      by_cases hpick : watched.world.pending = [] ∧
          duty ∈ due (buildDuties config) watched.world.state now
      · exact hkept.of_pick hvalid hpick.1 hpick.2
      · refine hkept.of_quiet hforward (if_neg hpick) fun start _ hcases => ?_
        simp only [Scheduler.step]
        cases hpending : watched.world.pending with
        | nil =>
            rw [hpending] at hcases
            exact hcases.imp_left fun hmem => absurd hmem List.not_mem_nil
        | cons head rest => exact hcases
  | trigger name =>
      refine hkept.of_quiet hforward rfl fun start _ hcases => ?_
      simp only [Scheduler.step]
      split
      · next hpending _ =>
          rw [hpending] at hcases
          exact hcases.imp_left fun hmem => absurd hmem List.not_mem_nil
      · exact hcases
  | runNext env =>
      refine hkept.of_quiet hforward rfl fun start hclock hcases => ?_
      simp only [Scheduler.step]
      cases hpending : watched.world.pending with
      | nil => exact hcases
      | cons head rest =>
          rw [hpending] at hcases
          simp only [lastRun_runOne]
          by_cases hname : head.name = duty.name
          · rw [hname, Function.update_self]
            exact .inr ⟨env.now, rfl, Nat.le_trans hclock (hforward env.now rfl)⟩
          · rw [Function.update_of_ne (Ne.symm hname)]
            refine hcases.imp_left fun hmem => ?_
            exact (List.mem_cons.1 hmem).resolve_left fun heq => hname (heq ▸ rfl)

end Watch

theorem unshadowed_nil : ∀ prompt ∈ ([] : List PromptDuty),
    prompt.name ≠ "distill" ∧ prompt.name ≠ "warm" ∧ prompt.name ≠ "self-analysis" := by
  intro prompt hprompt
  exact absurd hprompt List.not_mem_nil

/-- A duty every half hour. -/
def halfHourly : Duty := ⟨"distill", .dispatch "/duty distill" none, .every 1800, none⟩

theorem parse_halfHourly :
    ScheduleConfig.parse .panics ⟨some "30m", none⟩ = .ok halfHourly.schedule := by
  decide

def halfHourConfig : Config where
  distill := .every 1800
  prompts := []
  selfAnalysis := none
  warm := .every 3600
  warmConfigured := false
  unshadowed := unshadowed_nil
  distinct := List.nodup_nil

/-- The end of a run without clients. -/
def endingAt (now : ℕ) : Event :=
  .runNext ⟨now, none, none, fun _ => .ok "done", none, none, fun _ => none⟩

/-- The second tick picks the duty that ran until 1200. -/
def twoPicks : List Event := [.tick 1000, endingAt 1200, .tick 2999, .tick 3000]

end Kitaebot.Scheduler
