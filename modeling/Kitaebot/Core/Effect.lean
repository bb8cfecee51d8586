import Mathlib.Data.Nat.Notation

/-!
# Effects

A computation on a state that returns a value or fails; what it did before it
failed stays done.  A sequence is read backwards: either its first part failed,
or both parts ran.
-/

namespace Kitaebot

/-- A computation on `State` that returns a `Value` or fails with an `Error`. -/
def Effect (State Error Value : Type) : Type :=
  State → Except Error Value × State

namespace Effect

variable {State Error Value Result : Type}

instance : Monad (Effect State Error) where
  pure value := fun state => (.ok value, state)
  bind effect next := fun state =>
    match effect state with
    | (.ok value, state) => next value state
    | (.error error, state) => (.error error, state)

def fail (error : Error) : Effect State Error Value :=
  fun state => (.error error, state)

def modify (change : State → State) : Effect State Error Unit :=
  fun state => (.ok (), change state)

def gets (read : State → Value) : Effect State Error Value :=
  fun state => (.ok (read state), state)

/-- Run an effect on every value, in order. -/
def forEach (effect : Value → Effect State Error Unit) :
    List Value → Effect State Error Unit
  | [] => pure ()
  | value :: values => do
      effect value
      forEach effect values

section Runs

variable {state final : State} {result : Except Error Result}

theorem run_pure {value : Value} {result : Except Error Value}
    (hrun : (pure value : Effect State Error Value) state = (result, final)) :
    result = .ok value ∧ final = state := by
  obtain ⟨rfl, rfl⟩ := Prod.mk.inj hrun
  exact ⟨rfl, rfl⟩

theorem run_fail {error : Error} {result : Except Error Value}
    (hrun : (fail error : Effect State Error Value) state = (result, final)) :
    result = .error error ∧ final = state := by
  obtain ⟨rfl, rfl⟩ := Prod.mk.inj hrun
  exact ⟨rfl, rfl⟩

theorem run_modify {change : State → State} {result : Except Error Unit}
    (hrun : (modify change : Effect State Error Unit) state = (result, final)) :
    result = .ok () ∧ final = change state := by
  obtain ⟨rfl, rfl⟩ := Prod.mk.inj hrun
  exact ⟨rfl, rfl⟩

theorem run_gets {read : State → Value} {result : Except Error Value}
    (hrun : (gets read : Effect State Error Value) state = (result, final)) :
    result = .ok (read state) ∧ final = state := by
  obtain ⟨rfl, rfl⟩ := Prod.mk.inj hrun
  exact ⟨rfl, rfl⟩

theorem bind_of_ok {effect : Effect State Error Value}
    {next : Value → Effect State Error Result} {value : Value} {between : State}
    (heffect : effect state = (.ok value, between)) :
    (effect >>= next) state = next value between := by
  change (match effect state with
    | (.ok value, state) => next value state
    | (.error error, state) => (.error error, state)) = _
  rw [heffect]

/-- A sequence ran in two parts, or its first part failed. -/
theorem run_bind {effect : Effect State Error Value}
    {next : Value → Effect State Error Result}
    (hrun : (effect >>= next) state = (result, final)) :
    (∃ value between, effect state = (.ok value, between) ∧
        next value between = (result, final)) ∨
      ∃ error, effect state = (.error error, final) ∧ result = .error error := by
  change (match effect state with
    | (.ok value, state) => next value state
    | (.error error, state) => (.error error, state)) = _ at hrun
  split at hrun
  · next value between heffect => exact .inl ⟨value, between, heffect, hrun⟩
  · next error between heffect =>
      obtain ⟨rfl, rfl⟩ := Prod.mk.inj hrun
      exact .inr ⟨error, heffect, rfl⟩

end Runs

section Rules

variable {effect : Effect State Error Value}
  {next : Value → Effect State Error Result}

/-- The effect leaves what `read` sees of the state alone. -/
def Leaves {Seen : Type} (read : State → Seen) (effect : Effect State Error Value) :
    Prop :=
  ∀ state result final, effect state = (result, final) → read final = read state

theorem Leaves.pure {Seen : Type} {read : State → Seen} (value : Value) :
    Leaves read (pure value : Effect State Error Value) := by
  intro state result final hrun
  rw [(run_pure hrun).2]

theorem Leaves.fail {Seen : Type} {read : State → Seen} (error : Error) :
    Leaves read (fail error : Effect State Error Value) := by
  intro state result final hrun
  rw [(run_fail hrun).2]

theorem Leaves.gets {Seen Read : Type} {read : State → Seen} (other : State → Read) :
    Leaves read (gets other : Effect State Error Read) := by
  intro state result final hrun
  rw [(run_gets hrun).2]

theorem Leaves.modify {Seen : Type} {read : State → Seen} {change : State → State}
    (hchange : ∀ state, read (change state) = read state) :
    Leaves read (modify change : Effect State Error Unit) := by
  intro state result final hrun
  rw [(run_modify hrun).2, hchange]

/-- The second part may use how the first one ran. -/
theorem Leaves.bind_run {Seen : Type} {read : State → Seen}
    (hfirst : Leaves read effect)
    (hnext : ∀ value state between, effect state = (.ok value, between) →
      Leaves read (next value)) :
    Leaves read (effect >>= next) := by
  intro state result final hrun
  rcases run_bind hrun with ⟨value, between, heffect, hrest⟩ | ⟨error, heffect, _⟩
  · rw [hnext value _ _ heffect _ _ _ hrest, hfirst _ _ _ heffect]
  · exact hfirst _ _ _ heffect

theorem Leaves.bind {Seen : Type} {read : State → Seen}
    (hfirst : Leaves read effect) (hnext : ∀ value, Leaves read (next value)) :
    Leaves read (effect >>= next) :=
  hfirst.bind_run fun value _ _ _ => hnext value

theorem Leaves.forEach {Seen : Type} {read : State → Seen}
    {each : Value → Effect State Error Unit} (heach : ∀ value, Leaves read (each value))
    (values : List Value) : Leaves read (forEach each values) := by
  induction values with
  | nil => exact .pure ()
  | cons value values ih => exact .bind (heach value) fun _ => ih

/-- What a reading determines is left alone with it. -/
theorem Leaves.map {Seen Other : Type} {read : State → Seen} {other : State → Other}
    (hother : ∀ state state', read state' = read state → other state' = other state)
    (heffect : Leaves read effect) : Leaves other effect :=
  fun state result final hrun => hother _ _ (heffect state result final hrun)

/-- The effect fails with allowed errors only. -/
def Fails (allowed : Error → Prop) (effect : Effect State Error Value) : Prop :=
  ∀ state error final, effect state = (.error error, final) → allowed error

theorem Fails.pure {allowed : Error → Prop} (value : Value) :
    Fails allowed (pure value : Effect State Error Value) := by
  intro state error final hrun
  cases (run_pure hrun).1

theorem Fails.modify {allowed : Error → Prop} (change : State → State) :
    Fails allowed (modify change : Effect State Error Unit) := by
  intro state error final hrun
  cases (run_modify hrun).1

theorem Fails.bind {allowed : Error → Prop} (hfirst : Fails allowed effect)
    (hnext : ∀ value, Fails allowed (next value)) :
    Fails allowed (effect >>= next) := by
  intro state error final hrun
  rcases run_bind hrun with ⟨value, between, _, hrest⟩ | ⟨other, heffect, herror⟩
  · exact hnext value _ _ _ hrest
  · cases herror
    exact hfirst _ _ _ heffect

theorem Fails.forEach {allowed : Error → Prop}
    {each : Value → Effect State Error Unit} (heach : ∀ value, Fails allowed (each value))
    (values : List Value) : Fails allowed (forEach each values) := by
  induction values with
  | nil => exact .pure ()
  | cons value values ih => exact .bind (heach value) fun _ => ih

theorem Fails.mono {allowed weaker : Error → Prop}
    (hweaker : ∀ error, allowed error → weaker error) (heffect : Fails allowed effect) :
    Fails weaker effect :=
  fun state error final hrun => hweaker error (heffect state error final hrun)

/-- The effect keeps an invariant, unless it ends with an excused error. -/
def Keeps (excused : Error → Prop) (invariant : State → Prop)
    (effect : Effect State Error Value) : Prop :=
  ∀ state result final, effect state = (result, final) → invariant state →
    (∀ error, result = .error error → ¬ excused error) → invariant final

theorem Keeps.of_leaves {Seen : Type} {read : State → Seen}
    {excused : Error → Prop} {invariant : State → Prop}
    (hreads : ∀ state other, read other = read state → invariant state →
      invariant other) (heffect : Leaves read effect) :
    Keeps excused invariant effect :=
  fun state result final hrun hstate _ =>
    hreads state final (heffect state result final hrun) hstate

theorem Keeps.bind {excused : Error → Prop} {invariant : State → Prop}
    (hfirst : Keeps excused invariant effect)
    (hnext : ∀ value, Keeps excused invariant (next value)) :
    Keeps excused invariant (effect >>= next) := by
  intro state result final hrun hstate hresult
  rcases run_bind hrun with ⟨value, between, heffect, hrest⟩ | ⟨error, heffect, rfl⟩
  · have hbetween := hfirst _ _ _ heffect hstate fun error herror => by cases herror
    exact hnext value _ _ _ hrest hbetween hresult
  · apply hfirst _ _ _ heffect hstate
    intro other hother
    cases hother
    exact hresult error rfl

/-- The effect adds at most so much to a measure. -/
def Costs (measure : State → ℕ) (most : ℕ) (effect : Effect State Error Value) :
    Prop :=
  ∀ state result final, effect state = (result, final) →
    measure final ≤ measure state + most

theorem Costs.of_leaves {measure : State → ℕ} (heffect : Leaves measure effect) :
    Costs measure 0 effect :=
  fun state result final hrun => Nat.le_of_eq (heffect state result final hrun)

theorem Costs.bind {measure : State → ℕ} {first second : ℕ}
    (hfirst : Costs measure first effect)
    (hnext : ∀ value, Costs measure second (next value)) :
    Costs measure (first + second) (effect >>= next) := by
  intro state result final hrun
  rcases run_bind hrun with ⟨value, between, heffect, hrest⟩ | ⟨error, heffect, _⟩
  · have hleft := hfirst _ _ _ heffect
    have hright := hnext value _ _ _ hrest
    omega
  · have hleft := hfirst _ _ _ heffect
    omega

theorem Costs.mono {measure : State → ℕ} {least most : ℕ} (hle : least ≤ most)
    (heffect : Costs measure least effect) : Costs measure most effect :=
  fun state result final hrun =>
    Nat.le_trans (heffect state result final hrun) (Nat.add_le_add_left hle _)

end Rules

section Triples

variable {before failed : State → Prop} {after : Value → State → Prop}
  {effect : Effect State Error Value}

/-- From a state with `before`, the effect ends with `after`, or fails with `failed`. -/
def Triple (before : State → Prop) (effect : Effect State Error Value)
    (after : Value → State → Prop) (failed : State → Prop) : Prop :=
  ∀ state, before state →
    (∀ value final, effect state = (.ok value, final) → after value final) ∧
      ∀ error final, effect state = (.error error, final) → failed final

theorem Triple.pure {value : Value} (hafter : ∀ state, before state → after value state) :
    Triple before (pure value : Effect State Error Value) after failed := by
  intro state hstate
  constructor
  · intro other final hrun
    obtain ⟨hother, hfinal⟩ := run_pure hrun
    rw [Except.ok.inj hother, hfinal]
    exact hafter state hstate
  · intro error final hrun
    cases (run_pure hrun).1

theorem Triple.fail (error : Error) (hfailed : ∀ state, before state → failed state) :
    Triple before (fail error : Effect State Error Value) after failed := by
  intro state hstate
  constructor
  · intro value final hrun
    cases (run_fail hrun).1
  · intro other final hrun
    rw [(run_fail hrun).2]
    exact hfailed state hstate

theorem Triple.bind {middle : Value → State → Prop} {last : Result → State → Prop}
    {next : Value → Effect State Error Result} (hfirst : Triple before effect middle failed)
    (hnext : ∀ value, Triple (middle value) (next value) last failed) :
    Triple before (effect >>= next) last failed := by
  intro state hstate
  obtain ⟨hok, herror⟩ := hfirst state hstate
  constructor
  · intro value final hrun
    rcases run_bind hrun with ⟨found, between, heffect, hrest⟩ | ⟨error, _, hfalse⟩
    · exact (hnext found between (hok found between heffect)).1 value final hrest
    · cases hfalse
  · intro error final hrun
    rcases run_bind hrun with ⟨found, between, heffect, hrest⟩ | ⟨other, heffect, _⟩
    · exact (hnext found between (hok found between heffect)).2 error final hrest
    · exact herror other final heffect

theorem Triple.weaken {stronger : State → Prop} {weaker : Value → State → Prop}
    (heffect : Triple before effect after failed)
    (hbefore : ∀ state, stronger state → before state)
    (hafter : ∀ value state, after value state → weaker value state) :
    Triple stronger effect weaker failed := by
  intro state hstate
  obtain ⟨hok, herror⟩ := heffect state (hbefore state hstate)
  exact ⟨fun value final hrun => hafter value final (hok value final hrun), herror⟩

/-- What a reading determines is kept by an effect that leaves the reading alone. -/
theorem Triple.of_leaves {Seen : Type} {read : State → Seen} (heffect : Leaves read effect)
    (hread : ∀ state other, read other = read state → before state → before other)
    (hfailed : ∀ state, before state → failed state) :
    Triple before effect (fun _ => before) failed := by
  intro state hstate
  constructor
  · intro value final hrun
    exact hread state final (heffect state _ final hrun) hstate
  · intro error final hrun
    exact hfailed final (hread state final (heffect state _ final hrun) hstate)

end Triples

end Effect

end Kitaebot
