import Mathlib.Data.List.Basic

/-!
# Runs of a deterministic event system

A component is a state, an event type and a step function; a run folds the
step over a list of events.  The rules here turn what one step preserves into
what a whole run preserves.  Each has a conditional form, for properties that
hold only along the runs whose every step meets a side condition.
-/

namespace Kitaebot.Run

variable {State Event Abstract AbstractEvent : Type*}

/-- The state after a list of events. -/
def run (step : State → Event → State) (start : State) (events : List Event) :
    State :=
  events.foldl step start

@[simp]
theorem run_nil (step : State → Event → State) (start : State) :
    run step start [] = start := rfl

@[simp]
theorem run_cons (step : State → Event → State) (start : State)
    (event : Event) (events : List Event) :
    run step start (event :: events) = run step (step start event) events := rfl

theorem run_append (step : State → Event → State) (start : State)
    (first second : List Event) :
    run step start (first ++ second) =
      run step (run step start first) second := by
  simp [run]

/-- Every step of the run starts in a state that meets `ok` for its event. -/
def Meets (step : State → Event → State) (ok : State → Event → Prop) :
    State → List Event → Prop
  | _, [] => True
  | state, event :: events =>
      ok state event ∧ Meets step ok (step state event) events

@[simp]
theorem meets_nil (step : State → Event → State) (ok : State → Event → Prop)
    (state : State) : Meets step ok state [] := trivial

@[simp]
theorem meets_cons (step : State → Event → State) (ok : State → Event → Prop)
    (state : State) (event : Event) (events : List Event) :
    Meets step ok state (event :: events) ↔
      ok state event ∧ Meets step ok (step state event) events := Iff.rfl

theorem meets_append {step : State → Event → State} {ok : State → Event → Prop}
    {state : State} {first second : List Event} :
    Meets step ok state (first ++ second) ↔
      Meets step ok state first ∧ Meets step ok (run step state first) second := by
  induction first generalizing state with
  | nil => exact (and_iff_right trivial).symm
  | cons event first ih =>
      rw [List.cons_append, meets_cons, ih, meets_cons, run_cons, and_assoc]

instance decidableMeets (step : State → Event → State)
    (ok : State → Event → Prop) [∀ state event, Decidable (ok state event)] :
    (state : State) → (events : List Event) →
      Decidable (Meets step ok state events)
  | _, [] => inferInstanceAs (Decidable True)
  | state, event :: events =>
      have := decidableMeets step ok (step state event) events
      inferInstanceAs (Decidable (ok state event ∧ _))

theorem Meets.mono {step : State → Event → State}
    {ok weaker : State → Event → Prop}
    (himp : ∀ state event, ok state event → weaker state event)
    {state : State} {events : List Event}
    (hmeets : Meets step ok state events) : Meets step weaker state events := by
  induction events generalizing state with
  | nil => trivial
  | cons event events ih =>
      exact ⟨himp _ _ hmeets.1, ih hmeets.2⟩

theorem meets_of_forall {step : State → Event → State}
    {ok : State → Event → Prop} {events : List Event}
    (hall : ∀ event ∈ events, ∀ state, ok state event) (state : State) :
    Meets step ok state events := by
  induction events generalizing state with
  | nil => trivial
  | cons event events ih =>
      rw [List.forall_mem_cons] at hall
      exact ⟨hall.1 state, ih hall.2 _⟩

theorem meets_iff_forall {step : State → Event → State} {ok : Event → Prop}
    {state : State} {events : List Event} :
    Meets step (fun _ event => ok event) state events ↔
      ∀ event ∈ events, ok event := by
  induction events generalizing state with
  | nil => simp
  | cons event events ih => rw [meets_cons, ih, List.forall_mem_cons]

theorem Meets.and {step : State → Event → State}
    {first second : State → Event → Prop} {state : State} {events : List Event}
    (hfirst : Meets step first state events)
    (hsecond : Meets step second state events) :
    Meets step (fun state event => first state event ∧ second state event)
      state events := by
  induction events generalizing state with
  | nil => trivial
  | cons event events ih =>
      exact ⟨⟨hfirst.1, hsecond.1⟩, ih hfirst.2 hsecond.2⟩

/-- What a run meets, it meets at each of its events. -/
theorem Meets.at_event {step : State → Event → State}
    {ok : State → Event → Prop} {state : State} {before after : List Event}
    {event : Event} (hmeets : Meets step ok state (before ++ event :: after)) :
    ok (run step state before) event := by
  induction before generalizing state with
  | nil => exact hmeets.1
  | cons first before ih => exact ih hmeets.2

/-- Along a run that meets `ok`, an invariant that every such step keeps holds
at the end. -/
theorem invariant_of_meets {step : State → Event → State}
    {ok : State → Event → Prop} {invariant : State → Prop}
    (hstep : ∀ state event, invariant state → ok state event →
      invariant (step state event))
    {start : State} {events : List Event} (hstart : invariant start)
    (hmeets : Meets step ok start events) :
    invariant (run step start events) := by
  induction events generalizing start with
  | nil => exact hstart
  | cons event events ih =>
      exact ih (hstep start event hstart hmeets.1) hmeets.2

/-- What an invariant gives for each step holds along the run. -/
theorem meets_of_invariant {step : State → Event → State}
    {ok safe : State → Event → Prop} {invariant : State → Prop}
    (hstep : ∀ state event, invariant state → ok state event →
      invariant (step state event) ∧ safe state event)
    {start : State} {events : List Event} (hstart : invariant start)
    (hmeets : Meets step ok start events) : Meets step safe start events := by
  induction events generalizing start with
  | nil => trivial
  | cons event events ih =>
      obtain ⟨hnext, hsafe⟩ := hstep start event hstart hmeets.1
      exact ⟨hsafe, ih hnext hmeets.2⟩

/-- An invariant that every step keeps holds at the end of every run. -/
theorem invariant_run {step : State → Event → State}
    {invariant : State → Prop}
    (hstep : ∀ state event, invariant state → invariant (step state event))
    {start : State} (hstart : invariant start) (events : List Event) :
    invariant (run step start events) := by
  induction events generalizing start with
  | nil => exact hstart
  | cons event events ih => exact ih (hstep start event hstart)

/-- A property that exactly the allowed steps keep holds in every state of a run
exactly when every step of the run is allowed. -/
theorem forall_prefix_iff_meets {step : State → Event → State}
    {ok : State → Event → Prop} {invariant good : State → Prop}
    (hgood : ∀ state, invariant state → good state)
    (hkeep : ∀ state event, invariant state → ok state event →
      invariant (step state event))
    (hneed : ∀ state event, invariant state → good (step state event) →
      ok state event)
    {start : State} {events : List Event} (hstart : invariant start) :
    (∀ before, before <+: events → good (run step start before)) ↔
      Meets step ok start events := by
  induction events generalizing start with
  | nil =>
      refine ⟨fun _ => trivial, fun _ before hbefore => ?_⟩
      rw [List.prefix_nil.1 hbefore]
      exact hgood start hstart
  | cons event events ih =>
      constructor
      · intro hall
        have hok := hneed start event hstart (hall [event] ⟨events, rfl⟩)
        refine ⟨hok, (ih (hkeep start event hstart hok)).1 fun before hbefore => ?_⟩
        exact hall (event :: before) (List.cons_prefix_cons.2 ⟨rfl, hbefore⟩)
      · rintro ⟨hok, hmeets⟩ before hbefore
        cases before with
        | nil => exact hgood start hstart
        | cons first before =>
            obtain ⟨rfl, hrest⟩ := List.cons_prefix_cons.1 hbefore
            exact (ih (hkeep start first hstart hok)).2 hmeets before hrest

/-- Two systems that take the same events stay related when every step that
meets `ok` keeps the relation. -/
theorem simulation_of_meets {step : State → Event → State}
    {abstractStep : Abstract → Event → Abstract}
    {ok : State → Event → Prop} {related : State → Abstract → Prop}
    (hstep : ∀ state abstract event, related state abstract → ok state event →
      related (step state event) (abstractStep abstract event))
    {start : State} {abstractStart : Abstract} {events : List Event}
    (hstart : related start abstractStart)
    (hmeets : Meets step ok start events) :
    related (run step start events)
      (run abstractStep abstractStart events) := by
  induction events generalizing start abstractStart with
  | nil => exact hstart
  | cons event events ih =>
      exact ih (hstep _ _ _ hstart hmeets.1) hmeets.2

/-- Some step of the run starts in a state that meets `happens` for its event. -/
def Sometime (step : State → Event → State) (happens : State → Event → Prop) :
    State → List Event → Prop
  | _, [] => False
  | state, event :: events =>
      happens state event ∨ Sometime step happens (step state event) events

/-- A step that happens splits the run. -/
theorem sometime_iff {step : State → Event → State}
    {happens : State → Event → Prop} {state : State} {events : List Event} :
    Sometime step happens state events ↔
      ∃ before event after, events = before ++ event :: after ∧
        happens (run step state before) event := by
  induction events generalizing state with
  | nil => simp [Sometime]
  | cons first events ih =>
      rw [Sometime, ih]
      constructor
      · rintro (hfirst | ⟨before, event, after, rfl, hevent⟩)
        · exact ⟨[], first, events, rfl, hfirst⟩
        · exact ⟨first :: before, event, after, rfl, hevent⟩
      · rintro ⟨before, event, after, hsplit, hevent⟩
        cases before with
        | nil =>
            obtain ⟨rfl, rfl⟩ := List.cons.inj hsplit
            exact .inl hevent
        | cons other before =>
            obtain ⟨rfl, rfl⟩ := List.cons.inj hsplit
            exact .inr ⟨before, event, after, rfl, hevent⟩

/-- What happens after an event of a run happens in the run. -/
theorem sometime_of_split {step : State → Event → State}
    {happens : State → Event → Prop} {state : State}
    {events before after : List Event} {event : Event}
    (hsplit : events = before ++ event :: after)
    (hsometime : Sometime step happens (step (run step state before) event)
      after) : Sometime step happens state events := by
  obtain ⟨earlier, other, later, rfl, hother⟩ := sometime_iff.1 hsometime
  refine sometime_iff.2 ⟨before ++ event :: earlier, other, later, ?_, ?_⟩
  · rw [hsplit, List.append_assoc, List.cons_append]
  · rwa [run_append, run_cons]

/-- The ways to pick an event of a list: it is the first, or one of the rest. -/
theorem forall_split_cons {first : Event} {events : List Event}
    {holds : List Event → Event → List Event → Prop} :
    (∀ before event after, first :: events = before ++ event :: after →
        holds before event after) ↔
      holds [] first events ∧ ∀ before event after,
        events = before ++ event :: after → holds (first :: before) event after := by
  constructor
  · intro hall
    refine ⟨hall [] first events rfl, fun before event after hsplit => ?_⟩
    exact hall (first :: before) event after (congrArg (first :: ·) hsplit)
  · rintro ⟨hfirst, hrest⟩ before event after hsplit
    cases before with
    | nil =>
        obtain ⟨rfl, rfl⟩ := List.cons.inj hsplit
        exact hfirst
    | cons other before =>
        obtain ⟨rfl, hevents⟩ := List.cons.inj hsplit
        exact hrest before event after hevents

/-- How often something happens along a run. -/
def total (step : State → Event → State) (count : State → Event → ℕ) :
    State → List Event → ℕ
  | _, [] => 0
  | state, event :: events =>
      count state event + total step count (step state event) events

@[simp]
theorem total_nil (step : State → Event → State) (count : State → Event → ℕ)
    (state : State) : total step count state [] = 0 := rfl

@[simp]
theorem total_cons (step : State → Event → State) (count : State → Event → ℕ)
    (state : State) (event : Event) (events : List Event) :
    total step count state (event :: events) =
      count state event + total step count (step state event) events := rfl

theorem total_append {step : State → Event → State}
    {count : State → Event → ℕ} {start : State} {first second : List Event} :
    total step count start (first ++ second) =
      total step count start first +
        total step count (run step start first) second := by
  induction first generalizing start with
  | nil => exact (Nat.zero_add _).symm
  | cons event first ih =>
      rw [List.cons_append, total_cons, ih, total_cons, run_cons, Nat.add_assoc]

theorem total_eq_zero_iff {step : State → Event → State}
    {count : State → Event → ℕ} {start : State} {events : List Event} :
    total step count start events = 0 ↔
      Meets step (fun state event => count state event = 0) start events := by
  induction events generalizing start with
  | nil => simp
  | cons event events ih => rw [total_cons, Nat.add_eq_zero_iff, ih, meets_cons]

/-- What the steps of a run emit, in order. -/
def collect {Output : Type*} (step : State → Event → State)
    (emit : State → Event → List Output) : State → List Event → List Output
  | _, [] => []
  | state, event :: events =>
      emit state event ++ collect step emit (step state event) events

@[simp]
theorem collect_nil {Output : Type*} (step : State → Event → State)
    (emit : State → Event → List Output) (state : State) :
    collect step emit state [] = [] := rfl

@[simp]
theorem collect_cons {Output : Type*} (step : State → Event → State)
    (emit : State → Event → List Output) (state : State) (event : Event)
    (events : List Event) :
    collect step emit state (event :: events) =
      emit state event ++ collect step emit (step state event) events := rfl

theorem collect_append {Output : Type*} (step : State → Event → State)
    (emit : State → Event → List Output) (state : State)
    (first second : List Event) :
    collect step emit state (first ++ second) =
      collect step emit state first ++
        collect step emit (run step state first) second := by
  induction first generalizing state with
  | nil => rfl
  | cons event first ih =>
      rw [List.cons_append, collect_cons, ih, collect_cons, List.append_assoc,
        run_cons]

/-! ## Steps that may refuse

A loop that ends when nothing is left to do is a step that may refuse; a run
of it is the monadic fold over its inputs. -/

/-- What every taken step keeps holds wherever a run of taken steps ends. -/
theorem invariant_foldlM {step : State → Event → Option State}
    {invariant : State → Prop}
    (hstep : ∀ state event next, invariant state →
      step state event = some next → invariant next)
    {start final : State} {events : List Event} (hstart : invariant start)
    (hrun : events.foldlM step start = some final) : invariant final := by
  induction events generalizing start with
  | nil =>
      have hfinal : start = final := by simpa using hrun
      exact hfinal ▸ hstart
  | cons event events ih =>
      rw [List.foldlM_cons] at hrun
      obtain ⟨next, hnext, hrest⟩ := Option.bind_eq_some_iff.mp hrun
      exact ih (hstep start event next hstart hnext) hrest

/-- A measure that every taken step lowers bounds the length of every run. -/
theorem length_add_measure_le {step : State → Event → Option State}
    {invariant : State → Prop} (measure : State → ℕ)
    (hstep : ∀ state event next, invariant state →
      step state event = some next → invariant next)
    (hlower : ∀ state event next, invariant state →
      step state event = some next → measure next < measure state)
    {start final : State} {events : List Event} (hstart : invariant start)
    (hrun : events.foldlM step start = some final) :
    events.length + measure final ≤ measure start := by
  induction events generalizing start with
  | nil =>
      have hfinal : start = final := by simpa using hrun
      simp [hfinal]
  | cons event events ih =>
      rw [List.foldlM_cons] at hrun
      obtain ⟨next, hnext, hrest⟩ := Option.bind_eq_some_iff.mp hrun
      have hrest' := ih (hstep start event next hstart hnext) hrest
      have hless := hlower start event next hstart hnext
      rw [List.length_cons]
      omega

/-- An item of an extended list is its last one or was there before. -/
theorem snoc_eq_split {Item : Type*} {items early late : List Item} {last item : Item}
    (hitems : items ++ [last] = early ++ item :: late) :
    items = early ∧ last = item ∨ ∃ late', items = early ++ item :: late' := by
  rcases List.eq_nil_or_concat late with rfl | ⟨late', other, rfl⟩
  · obtain ⟨rfl, heq⟩ := List.append_inj' hitems rfl
    exact .inl ⟨rfl, List.head_eq_of_cons_eq heq⟩
  · rw [List.concat_eq_append, ← List.cons_append, ← List.append_assoc] at hitems
    exact .inr ⟨late', (List.append_inj' hitems rfl).1⟩

end Kitaebot.Run
