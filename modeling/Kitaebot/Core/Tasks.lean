import Mathlib.Logic.Function.Basic
import Kitaebot.Core.Run

/-!
# Interleaved tasks

Any number of tasks share a state.  A task takes one action at a time, and the
tasks interleave freely; an action that a task cannot take changes nothing.  The
rules here turn what one action does into what every interleaving keeps.
-/

namespace Kitaebot.Tasks

variable {Shared Local Action : Type*}

/-- The shared state and the tasks that were started. -/
structure World (Shared Local : Type*) where
  shared : Shared
  tasks : ℕ → Option Local

/-- One action of one task. -/
def step (act : Shared → Option Local → Action → Option (Shared × Local))
    (world : World Shared Local) (event : ℕ × Action) : World Shared Local :=
  match act world.shared (world.tasks event.1) event.2 with
  | none => world
  | some (shared, task) =>
      ⟨shared, Function.update world.tasks event.1 (some task)⟩

/-- The world before anything was started. -/
def idle (shared : Shared) : World Shared Local := ⟨shared, fun _ => none⟩

variable {act : Shared → Option Local → Action → Option (Shared × Local)}
  {world : World Shared Local} {event : ℕ × Action}

theorem step_of_none
    (hact : act world.shared (world.tasks event.1) event.2 = none) :
    step act world event = world := by
  rw [step, hact]

theorem step_of_some {shared : Shared} {task : Local}
    (hact : act world.shared (world.tasks event.1) event.2 = some (shared, task)) :
    step act world event =
      ⟨shared, Function.update world.tasks event.1 (some task)⟩ := by
  rw [step, hact]

theorem step_cases : step act world event = world ∨
    ∃ shared task,
      act world.shared (world.tasks event.1) event.2 = some (shared, task) ∧
        step act world event =
          ⟨shared, Function.update world.tasks event.1 (some task)⟩ := by
  cases hact : act world.shared (world.tasks event.1) event.2 with
  | none => exact .inl (step_of_none hact)
  | some result => exact .inr ⟨result.1, result.2, rfl, step_of_some hact⟩

/-- What an action that is taken keeps, every step keeps. -/
theorem step_keeps {invariant : World Shared Local → Prop}
    (hworld : invariant world)
    (hact : ∀ shared task,
      act world.shared (world.tasks event.1) event.2 = some (shared, task) →
        invariant ⟨shared, Function.update world.tasks event.1 (some task)⟩) :
    invariant (step act world event) := by
  cases hresult : act world.shared (world.tasks event.1) event.2 with
  | none => rwa [step_of_none hresult]
  | some result => exact step_of_some hresult ▸ hact _ _ hresult

theorem step_tasks_of_ne {id : ℕ} (hne : id ≠ event.1) :
    (step act world event).tasks id = world.tasks id := by
  cases hact : act world.shared (world.tasks event.1) event.2 with
  | none => rw [step_of_none hact]
  | some result =>
      rw [step_of_some hact]
      exact Function.update_of_ne hne ..

/-- A run leaves the tasks alone that its events are not about. -/
theorem tasks_run_of_ne {id : ℕ} {events : List (ℕ × Action)}
    (hother : ∀ event ∈ events, id ≠ event.1) :
    (Run.run (step act) world events).tasks id = world.tasks id := by
  induction events generalizing world with
  | nil => rfl
  | cons event events ih =>
      rw [List.forall_mem_cons] at hother
      rw [Run.run_cons, ih hother.2, step_tasks_of_ne hother.1]

/-- Every task is in a state that suits the shared one. -/
def Each (suits : Shared → Local → Prop) (world : World Shared Local) : Prop :=
  ∀ id task, world.tasks id = some task → suits world.shared task

theorem each_update {suits : Shared → Local → Prop} {id : ℕ} {shared : Shared}
    {task : Local} (hown : suits shared task)
    (hothers : ∀ other otherTask, other ≠ id → world.tasks other = some otherTask →
      suits shared otherTask) :
    Each suits ⟨shared, Function.update world.tasks id (some task)⟩ := by
  intro other otherTask hother
  change Function.update world.tasks id (some task) other = some otherTask at hother
  rcases eq_or_ne other id with rfl | hne
  · rw [Function.update_self] at hother
    exact Option.some.inj hother ▸ hown
  · rw [Function.update_of_ne hne] at hother
    exact hothers other otherTask hne hother

/-- No two tasks are in each other's way. -/
def Apart (apart : Local → Local → Prop) (world : World Shared Local) : Prop :=
  ∀ first second firstTask secondTask, first ≠ second →
    world.tasks first = some firstTask → world.tasks second = some secondTask →
      apart firstTask secondTask

theorem Apart.update {apart : Local → Local → Prop}
    (hsymm : ∀ first second, apart first second → apart second first)
    (hapart : Apart apart world) {id : ℕ} {shared : Shared} {task : Local}
    (hown : ∀ other otherTask, other ≠ id → world.tasks other = some otherTask →
      apart task otherTask) :
    Apart apart ⟨shared, Function.update world.tasks id (some task)⟩ := by
  intro first second firstTask secondTask hne hfirst hsecond
  change Function.update world.tasks id (some task) first = some firstTask at hfirst
  change Function.update world.tasks id (some task) second = some secondTask at hsecond
  rcases eq_or_ne first id with rfl | hfirstId
  · rw [Function.update_self] at hfirst
    rw [Function.update_of_ne hne.symm] at hsecond
    exact Option.some.inj hfirst ▸ hown second secondTask hne.symm hsecond
  · rw [Function.update_of_ne hfirstId] at hfirst
    rcases eq_or_ne second id with rfl | hsecondId
    · rw [Function.update_self] at hsecond
      exact Option.some.inj hsecond ▸
        hsymm _ _ (hown first firstTask hne hfirst)
    · rw [Function.update_of_ne hsecondId] at hsecond
      exact hapart first second firstTask secondTask hne hfirst hsecond

/-- Some task serves the key. -/
def Served {Key : Type*} (serves : Key → Local → Prop)
    (world : World Shared Local) (key : Key) : Prop :=
  ∃ id task, world.tasks id = some task ∧ serves key task

theorem Served.own {Key : Type*} {serves : Key → Local → Prop} {key : Key}
    {id : ℕ} {shared : Shared} {task : Local} (hserves : serves key task) :
    Served serves ⟨shared, Function.update world.tasks id (some task)⟩ key :=
  ⟨id, task, Function.update_self .., hserves⟩

/-- A key stays served unless the task that served it moves. -/
theorem Served.keep {Key : Type*} {serves : Key → Local → Prop} {key : Key}
    {id : ℕ} {shared : Shared} {task : Local} (hserved : Served serves world key)
    (hmoves : ∀ old, world.tasks id = some old → serves key old →
      serves key task) :
    Served serves ⟨shared, Function.update world.tasks id (some task)⟩ key := by
  obtain ⟨other, old, htask, hserves⟩ := hserved
  rcases eq_or_ne other id with rfl | hother
  · exact .own (hmoves old htask hserves)
  · exact ⟨other, old, (Function.update_of_ne hother ..).trans htask, hserves⟩

/-- After an action of a task that does not serve the key, some other task does
if any does. -/
theorem Served.of_update {Key : Type*} {serves : Key → Local → Prop} {key : Key}
    {id : ℕ} {shared : Shared} {task : Local}
    (hserved : Served serves
      ⟨shared, Function.update world.tasks id (some task)⟩ key)
    (hown : ¬ serves key task) :
    ∃ other old, other ≠ id ∧ world.tasks other = some old ∧ serves key old := by
  obtain ⟨other, old, htask, hserves⟩ := hserved
  change Function.update world.tasks id (some task) other = some old at htask
  rcases eq_or_ne other id with rfl | hother
  · rw [Function.update_self] at htask
    exact absurd (Option.some.inj htask ▸ hserves) hown
  · rw [Function.update_of_ne hother] at htask
    exact ⟨other, old, hother, htask, hserves⟩

/-! ### Notifications -/

/-- A notification without permits: how often the waiters were notified. -/
structure Notify where
  calls : ℕ
  deriving DecidableEq, Repr

/-- A registered waiter: what it had seen when it registered. -/
structure Notified where
  seen : ℕ
  deriving DecidableEq, Repr

namespace Notify

def new : Notify := ⟨0⟩

def notified (notify : Notify) : Notified := ⟨notify.calls⟩

def notifyWaiters (notify : Notify) : Notify := ⟨notify.calls + 1⟩

end Notify

/-- The waiters were notified since it registered. -/
def Notified.isReady (notified : Notified) (notify : Notify) : Bool :=
  notified.seen < notify.calls

/-- Who registers too late is not woken. -/
@[simp]
theorem isReady_notified (notify : Notify) :
    notify.notified.isReady notify = false :=
  decide_eq_false (Nat.lt_irrefl _)

/-- Who is registered is woken. -/
theorem isReady_notifyWaiters {notified : Notified} {notify : Notify}
    (hseen : notified.seen ≤ notify.calls) :
    notified.isReady notify.notifyWaiters = true :=
  decide_eq_true (Nat.lt_succ_of_le hseen)

/-! ### Watch channels -/

/-- Channels that carry nothing: each is open until its sender is dropped. -/
structure Watches where
  closed : ℕ → Bool
  next : ℕ

namespace Watches

def none : Watches := ⟨fun _ => false, 0⟩

/-- Make the channel numbered `next`. -/
def channel (watches : Watches) : Watches := { watches with next := watches.next + 1 }

/-- Drop the sender of a channel. -/
def dropSender (watches : Watches) (sender : ℕ) : Watches :=
  { watches with closed := Function.update watches.closed sender true }

@[simp]
theorem closed_channel (watches : Watches) :
    watches.channel.closed = watches.closed := rfl

@[simp]
theorem next_channel (watches : Watches) :
    watches.channel.next = watches.next + 1 := rfl

@[simp]
theorem next_dropSender (watches : Watches) (sender : ℕ) :
    (watches.dropSender sender).next = watches.next := rfl

theorem closed_dropSender_of_ne (watches : Watches) {sender other : ℕ}
    (hne : other ≠ sender) :
    (watches.dropSender sender).closed other = watches.closed other :=
  Function.update_of_ne hne ..

end Watches

end Kitaebot.Tasks
