import Kitaebot.Core.Run

/-!
# Polling with a cursor

A poller fetches a collection at every tick, acts on the items past its cursor
and moves the cursor on.  The rules here are about one item.  `behind` says of
a state that its cursor has not reached the item; a tick `sees` the item from a
state when its fetch returns it, and `carries` the cursor over it when the
cursor it leaves is past the item.  Whether the item is acted on is decided by
the ticks that come before the first one that sees it: none of them may carry
the cursor over it.
-/

namespace Kitaebot.CursorPoll

open Kitaebot.Run

variable {State Tick : Type*} {step : State → Tick → State}
  {ok : State → Tick → Prop} (behind : State → Prop) (sees : State → Tick → Prop)

/-- If ticks that do not see the item leave the cursor behind it, the first
tick that sees it acts on it. -/
theorem sometime_of_sees {acts : State → Tick → Prop}
    (hact : ∀ state tick, ok state tick → behind state → sees state tick →
      acts state tick)
    (hkeep : ∀ state tick, ok state tick → behind state → ¬ sees state tick →
      behind (step state tick))
    {start : State} {ticks : List Tick} (hmeets : Meets step ok start ticks)
    (hstart : behind start)
    (hsees : ∃ tick ∈ ticks, ∀ state, sees state tick) :
    Sometime step acts start ticks := by
  induction ticks generalizing start with
  | nil =>
      obtain ⟨tick, hmem, -⟩ := hsees
      cases hmem
  | cons first ticks ih =>
      by_cases hfirst : sees start first
      · exact .inl (hact start first hmeets.1 hstart hfirst)
      · refine .inr (ih hmeets.2 (hkeep start first hmeets.1 hstart hfirst) ?_)
        obtain ⟨tick, hmem, hsees⟩ := hsees
        rcases List.mem_cons.1 hmem with rfl | hmem
        · exact absurd (hsees start) hfirst
        · exact ⟨tick, hmem, hsees⟩

variable {count : State → Tick → ℕ}

/-- Behind the cursor nothing happens any more. -/
theorem total_eq_zero
    (hpast : ∀ state tick, ok state tick → ¬ behind state →
      count state tick = 0 ∧ ¬ behind (step state tick))
    {start : State} {ticks : List Tick} (hmeets : Meets step ok start ticks)
    (hstart : ¬ behind start) : total step count start ticks = 0 := by
  induction ticks generalizing start with
  | nil => rfl
  | cons tick ticks ih =>
      obtain ⟨hzero, hnext⟩ := hpast start tick hmeets.1 hstart
      rw [total_cons, hzero, ih hmeets.2 hnext]

/-- A poller whose seeing ticks act once and carry the cursor over the item
acts on it exactly once, unless an earlier tick carried the cursor over it
unseen.  After a tick that sees the item no tick misses it. -/
theorem total_eq_one_iff {carries : State → Tick → Prop}
    (hpast : ∀ state tick, ok state tick → ¬ behind state →
      count state tick = 0 ∧ ¬ behind (step state tick))
    (hsee : ∀ state tick, ok state tick → behind state → sees state tick →
      count state tick = 1 ∧ ¬ behind (step state tick))
    (hmiss : ∀ state tick, ok state tick → behind state → ¬ sees state tick →
      count state tick = 0 ∧ (behind (step state tick) ↔ ¬ carries state tick))
    {start : State} {ticks : List Tick} (hmeets : Meets step ok start ticks)
    (hserial : ticks.Pairwise fun earlier later => ∀ state state', behind state →
      sees state earlier → ¬ (¬ sees state' later ∧ carries state' later))
    (hstart : behind start)
    (hsees : ∃ tick ∈ ticks, ∀ state, behind state → sees state tick) :
    total step count start ticks = 1 ↔
      Meets step
        (fun state tick => ¬ (¬ sees state tick ∧ carries state tick))
        start ticks := by
  induction ticks generalizing start with
  | nil =>
      obtain ⟨tick, hmem, -⟩ := hsees
      cases hmem
  | cons first ticks ih =>
      obtain ⟨hlater, hserial⟩ := List.pairwise_cons.1 hserial
      rw [total_cons, meets_cons]
      by_cases hfirst : sees start first
      · obtain ⟨hone, hnext⟩ := hsee start first hmeets.1 hstart hfirst
        have hall : Meets step
            (fun state tick => ¬ (¬ sees state tick ∧ carries state tick))
            (step start first) ticks :=
          meets_of_forall (fun tick hmem state =>
            hlater tick hmem start state hstart hfirst) _
        rw [hone, total_eq_zero behind hpast hmeets.2 hnext]
        exact iff_of_true rfl ⟨fun hbad => hbad.1 hfirst, hall⟩
      · obtain ⟨hzero, hnext⟩ := hmiss start first hmeets.1 hstart hfirst
        have hsees : ∃ tick ∈ ticks, ∀ state, behind state → sees state tick := by
          obtain ⟨tick, hmem, hsees⟩ := hsees
          rcases List.mem_cons.1 hmem with rfl | hmem
          · exact absurd (hsees start hstart) hfirst
          · exact ⟨tick, hmem, hsees⟩
        rw [hzero, Nat.zero_add]
        by_cases hcarries : carries start first
        · have hgone : ¬ behind (step start first) := fun hbehind =>
            hnext.1 hbehind hcarries
          rw [total_eq_zero behind hpast hmeets.2 hgone]
          exact iff_of_false (by omega) fun hbad => hbad.1 ⟨hfirst, hcarries⟩
        · rw [ih hmeets.2 hserial (hnext.2 hcarries) hsees]
          exact (and_iff_right fun hbad => hcarries hbad.2).symm

/-! ### What a poller remembers

Some pollers keep a memory of the items they have met, rebuilt at every tick
from what the tick fetched.  `active` ticks find something new about the item;
ticks that `lapse` do not fetch it at all.  An active tick that does not know
the item meets it for the first time. -/

section Memory

variable {knows : State → Prop} {active lapses : State → Tick → Prop}

/-- How the memory moves, and when an item is counted as new. -/
structure Remembers (step : State → Tick → State)
    (ok : State → Tick → Prop) (knows : State → Prop)
    (active lapses : State → Tick → Prop) (count : State → Tick → ℕ) :
    Prop where
  learns : ∀ state tick, ok state tick → active state tick →
    knows (step state tick)
  forgets : ∀ state tick, ok state tick → lapses state tick →
    ¬ active state tick ∧ ¬ knows (step state tick)
  keeps : ∀ state tick, ok state tick → ¬ active state tick →
    ¬ lapses state tick → (knows (step state tick) ↔ knows state)
  counts : ∀ state tick, ok state tick → active state tick → ¬ knows state →
    count state tick = 1
  passes : ∀ state tick, ok state tick → ¬ (active state tick ∧ ¬ knows state) →
    count state tick = 0

variable (hmemory : Remembers step ok knows active lapses count)
include hmemory

/-- An unknown item is new at the first active tick. -/
theorem total_eq_zero_of_unknown {start : State} {ticks : List Tick}
    (hmeets : Meets step ok start ticks) (hstart : ¬ knows start) :
    total step count start ticks = 0 ↔ ¬ Sometime step active start ticks := by
  induction ticks generalizing start with
  | nil => exact iff_of_true rfl id
  | cons tick ticks ih =>
      obtain ⟨hok, hmeets⟩ := hmeets
      rw [total_cons, Sometime, not_or]
      by_cases hactive : active start tick
      · rw [hmemory.counts start tick hok hactive hstart]
        exact iff_of_false (by omega) fun hnone => hnone.1 hactive
      · have hnext : ¬ knows (step start tick) := by
          by_cases hlapses : lapses start tick
          · exact (hmemory.forgets start tick hok hlapses).2
          · rwa [hmemory.keeps start tick hok hactive hlapses]
        rw [hmemory.passes start tick hok fun hnew => hactive hnew.1,
          Nat.zero_add, ih hmeets hnext]
        exact (and_iff_right hactive).symm

theorem not_knows_run {start : State} {ticks : List Tick}
    (hmeets : Meets step ok start ticks) (hstart : ¬ knows start)
    (hquiet : ¬ Sometime step active start ticks) :
    ¬ knows (run step start ticks) := by
  induction ticks generalizing start with
  | nil => exact hstart
  | cons tick ticks ih =>
      rw [Sometime, not_or] at hquiet
      refine ih hmeets.2 ?_ hquiet.2
      by_cases hlapses : lapses start tick
      · exact (hmemory.forgets start tick hmeets.1 hlapses).2
      · rwa [hmemory.keeps start tick hmeets.1 hquiet.1 hlapses]

/-- While an item is new at most once, it is new at the first active tick. -/
theorem new_iff_first {start : State} {before later : List Tick} {first : Tick}
    (hmeets : Meets step ok start (before ++ first :: later))
    (hstart : ¬ knows start)
    (honce : total step count start (before ++ first :: later) ≤ 1) :
    count (run step start before) first ≠ 0 ↔
      ¬ Sometime step active start before ∧
        active (run step start before) first := by
  obtain ⟨hbefore, hfirst, -⟩ := meets_append.1 hmeets
  rw [total_append, total_cons] at honce
  constructor
  · intro hnew
    refine ⟨(total_eq_zero_of_unknown hmemory hbefore hstart).1 (by omega), ?_⟩
    by_contra hidle
    exact hnew (hmemory.passes _ _ hfirst fun hboth => hidle hboth.1)
  · rintro ⟨hquiet, hactive⟩
    rw [hmemory.counts _ _ hfirst hactive
      (not_knows_run hmemory hbefore hstart hquiet)]
    exact Nat.one_ne_zero

/-- A known item becomes new again at an active tick after a lapse. -/
theorem total_eq_zero_of_known {start : State} {ticks : List Tick}
    (hmeets : Meets step ok start ticks) (hstart : knows start) :
    total step count start ticks = 0 ↔
      ∀ before tick after, ticks = before ++ tick :: after →
        lapses (run step start before) tick →
          ¬ Sometime step active (step (run step start before) tick) after := by
  induction ticks generalizing start with
  | nil =>
      refine iff_of_true rfl fun before tick after hsplit => ?_
      exact absurd hsplit.symm (by simp)
  | cons tick ticks ih =>
      obtain ⟨hok, hmeets⟩ := hmeets
      rw [total_cons, hmemory.passes start tick hok fun hnew => hnew.2 hstart,
        Nat.zero_add, forall_split_cons]
      by_cases hlapses : lapses start tick
      · have hnext := (hmemory.forgets start tick hok hlapses).2
        rw [total_eq_zero_of_unknown hmemory hmeets hnext]
        constructor
        · intro hnone
          refine ⟨fun _ => hnone, fun before lapse after hsplit _ hsometime => ?_⟩
          exact hnone (sometime_of_split hsplit hsometime)
        · exact fun hall => hall.1 hlapses
      · have hnext : knows (step start tick) := by
          by_cases hactive : active start tick
          · exact hmemory.learns start tick hok hactive
          · exact (hmemory.keeps start tick hok hactive hlapses).2 hstart
        rw [ih hmeets hnext]
        exact (and_iff_right fun hlapse => absurd hlapse hlapses).symm

/-- An item is new at most once exactly when no lapse stands between two active
ticks. -/
theorem total_le_one_iff {start : State} {ticks : List Tick}
    (hmeets : Meets step ok start ticks) (hstart : ¬ knows start) :
    total step count start ticks ≤ 1 ↔
      ∀ before tick after, ticks = before ++ tick :: after →
        lapses (run step start before) tick →
          ¬ (Sometime step active start before ∧
            Sometime step active (step (run step start before) tick) after) := by
  induction ticks generalizing start with
  | nil =>
      refine iff_of_true (Nat.zero_le 1) fun before tick after hsplit => ?_
      exact absurd hsplit.symm (by simp)
  | cons tick ticks ih =>
      obtain ⟨hok, hmeets⟩ := hmeets
      rw [total_cons, forall_split_cons, and_iff_right fun _ hboth => hboth.1]
      by_cases hactive : active start tick
      · have hone (rest : ℕ) : 1 + rest ≤ 1 ↔ rest = 0 := by omega
        rw [hmemory.counts start tick hok hactive hstart, hone,
          total_eq_zero_of_known hmemory hmeets
            (hmemory.learns start tick hok hactive)]
        refine forall₄_congr fun before lapse after _ => ?_
        rw [run_cons, Sometime, and_iff_right (Or.inl hactive)]
      · have hnext : ¬ knows (step start tick) := by
          by_cases hlapses : lapses start tick
          · exact (hmemory.forgets start tick hok hlapses).2
          · rwa [hmemory.keeps start tick hok hactive hlapses]
        rw [hmemory.passes start tick hok fun hnew => hactive hnew.1,
          Nat.zero_add, ih hmeets hnext]
        refine forall₄_congr fun before lapse after _ => ?_
        rw [run_cons, Sometime, or_iff_right hactive]

end Memory

end Kitaebot.CursorPoll
