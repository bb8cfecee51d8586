import Mathlib.Data.List.Induction
import Kitaebot.Tools.Warm

/-!
# Flights of the warmer

The map, the channels and the calls fit together in every interleaving: an open
channel has one holder, and a run that has not been recorded is the one in the
map.  So a directory has one run at a time, who joins a run gets an outcome
recorded since, and nobody waits for a runner that is gone.
-/

namespace Kitaebot.Tools.Warm

open Kitaebot.Tasks

/-- The channel of a run that is not recorded yet. -/
def Phase.slot : Phase → Option ℕ
  | .resolving _ channel => some channel
  | .executing channel _ => some channel
  | .storing channel _ => some channel
  | _ => none

/-- The channel a phase waits for or has waited for. -/
def Phase.watched : Phase → Option ℕ
  | .joined _ channel => some channel
  | .waiting channel => some channel
  | .checking channel => some channel
  | _ => none

/-- The outcome a phase vouches for: the call recorded it or found it recorded. -/
def Phase.vouches : Phase → Option WarmOutcome
  | .recorded _ outcome => some outcome
  | .returned outcome => some outcome
  | .answered (some .ready) => some .ready
  | _ => none

theorem Phase.sender_of_slot {phase : Phase} {channel : ℕ}
    (hslot : phase.slot = some channel) : phase.sender = some channel := by
  cases phase <;> first | exact hslot | cases hslot

/-- The phase of a call, started or not. -/
def phaseOf : Option Call → Phase
  | none => .dropped
  | some call => call.phase

theorem live_eq_some {slots : Slots} {dir : String} {channel : ℕ}
    (hlive : slots.live dir = some channel) :
    slots.entries dir = some (.warming channel) ∧
      slots.watches.closed channel = false := by
  unfold Slots.live at hlive
  split at hlive
  · next found hentry =>
      split at hlive
      · cases hlive
      · next hopen =>
          obtain rfl := Option.some.inj hlive
          exact ⟨hentry, Bool.eq_false_iff.2 hopen⟩
  · cases hlive

theorem live_eq_none {slots : Slots} {dir : String} (hlive : slots.live dir = none)
    {channel : ℕ} (hentry : slots.entries dir = some (.warming channel)) :
    slots.watches.closed channel = true := by
  rw [Slots.live, hentry] at hlive
  by_contra hopen
  rw [Bool.not_eq_true] at hopen
  simp [hopen] at hlive

/-- What one action of a call does. -/
inductive Move (slots : Slots) (dir : String) (phase : Phase) (action : Action) :
    Slots → Phase → Prop
  | same {next : Phase} (hsender : next.sender = phase.sender)
      (hslot : ∀ channel, next.slot = some channel → phase.slot = some channel)
      (hwatched : ∀ channel, next.watched = some channel →
        phase.watched = some channel ∨
          slots.entries dir = some (.warming channel))
      (hvouches : ∀ outcome, next.vouches = some outcome →
        slots.entries dir = some (.done outcome)) :
      Move slots dir phase action slots next
  | claimed {command : String} (hphase : phase.sender = none)
      (hfree : slots.live dir = none) :
      Move slots dir phase action (slots.claim dir)
        (.resolving command slots.watches.next)
  | recorded {channel : ℕ} {outcome : WarmOutcome} (haction : action = .record)
      (hphase : phase = .storing channel outcome) :
      Move slots dir phase action (slots.record dir outcome)
        (.recorded channel outcome)
  | returned {channel : ℕ} {outcome : WarmOutcome}
      (hphase : phase = .recorded channel outcome) :
      Move slots dir phase action (slots.release channel) (.returned outcome)
  | unwound {channel : ℕ} (hphase : phase = .unwinding channel) :
      Move slots dir phase action (slots.release channel) .dropped

/-- A move that holds, owns, watches and vouches for nothing new. -/
theorem Move.of_idle {slots : Slots} {dir : String} {phase next : Phase}
    {action : Action} (hsender : next.sender = phase.sender)
    (hslot : ∀ channel, next.slot = some channel → phase.slot = some channel)
    (hwatched : ∀ channel, next.watched = some channel →
      phase.watched = some channel) (hvouches : next.vouches = none) :
    Move slots dir phase action slots next := by
  refine .same hsender hslot (fun channel hnext => .inl (hwatched channel hnext)) ?_
  intro outcome hnext
  rw [hvouches] at hnext
  cases hnext

theorem move_of_abandon {slots : Slots} {dir : String} {phase next : Phase}
    {action : Action} (habandon : phase.abandon = some next) :
    Move slots dir phase action slots next := by
  cases phase <;> cases habandon <;>
    exact .of_idle rfl (fun _ hslot => by cases hslot)
      (fun _ hwatched => by cases hwatched) rfl

variable {warmer : Warmer}

/-- Nothing is found in a phase that has nothing. -/
theorem ne_some_of_none {Value : Type*} {found : Option Value}
    (hnone : found = none) {statement : Value → Prop} (value : Value)
    (hsome : found = some value) : statement value := by
  rw [hnone] at hsome
  cases hsome

theorem move_of_advance {slots next : Slots} {dir : String} {phase later : Phase}
    {action : Action}
    (hadvance : advance warmer slots dir phase action = some (next, later)) :
    Move slots dir phase action next later := by
  cases action with
  | warm dir command => cases phase <;> cases hadvance
  | ready dir => cases phase <;> cases hadvance
  | claim =>
      cases phase with
      | claiming command =>
          rw [advance] at hadvance
          split at hadvance
          · next channel hlive =>
              cases hadvance
              refine .same rfl (ne_some_of_none rfl) (fun joined hjoined => .inr ?_)
                (ne_some_of_none rfl)
              cases hjoined
              exact (live_eq_some hlive).1
          · next hlive =>
              cases hadvance
              exact .claimed rfl hlive
      | _ => cases hadvance
  | wake =>
      cases phase with
      | joined command channel =>
          rw [advance] at hadvance
          split at hadvance
          · cases hadvance
            exact .of_idle rfl (ne_some_of_none rfl) (ne_some_of_none rfl) rfl
          · cases hadvance
      | waiting channel =>
          rw [advance] at hadvance
          split at hadvance
          · cases hadvance
            exact .of_idle rfl (ne_some_of_none rfl) (fun _ hwatched => hwatched) rfl
          · cases hadvance
      | _ => cases hadvance
  | reread =>
      cases phase with
      | rereading command =>
          rw [advance] at hadvance
          split at hadvance
          · next outcome hentry =>
              cases hadvance
              refine .same rfl (ne_some_of_none rfl) (ne_some_of_none rfl) ?_
              intro vouched hvouched
              cases hvouched
              exact hentry
          · cases hadvance
            exact .of_idle rfl (ne_some_of_none rfl) (ne_some_of_none rfl) rfl
      | _ => cases hadvance
  | resolved devshell =>
      cases phase with
      | resolving command channel =>
          cases devshell <;> cases hadvance <;>
            exact .of_idle rfl (fun _ hslot => hslot) (ne_some_of_none rfl) rfl
      | _ => cases hadvance
  | executed exitCode =>
      cases phase with
      | executing channel call =>
          cases hadvance
          exact .of_idle rfl (fun _ hslot => hslot) (ne_some_of_none rfl) rfl
      | _ => cases hadvance
  | record =>
      cases phase with
      | storing channel outcome =>
          cases hadvance
          exact .recorded rfl rfl
      | _ => cases hadvance
  | release =>
      cases phase with
      | recorded channel outcome =>
          cases hadvance
          exact .returned rfl
      | unwinding channel =>
          cases hadvance
          exact .unwound rfl
      | _ => cases hadvance
  | look =>
      cases phase with
      | looking =>
          rw [advance] at hadvance
          split at hadvance
          · cases hadvance
            exact .of_idle rfl (ne_some_of_none rfl) (ne_some_of_none rfl) rfl
          · next outcome hentry =>
              cases hadvance
              refine .same rfl (ne_some_of_none rfl) (ne_some_of_none rfl) ?_
              intro vouched hvouched
              cases outcome <;> cases hvouched
              exact hentry
          · next channel hentry =>
              cases hadvance
              refine .same rfl (ne_some_of_none rfl) (fun found hfound => .inr ?_)
                (ne_some_of_none rfl)
              cases hfound
              exact hentry
      | _ => cases hadvance
  | check =>
      cases phase with
      | checking channel =>
          rw [advance] at hadvance
          split at hadvance <;> cases hadvance <;>
            exact .of_idle rfl (ne_some_of_none rfl) (ne_some_of_none rfl) rfl
      | _ => cases hadvance
  | drop =>
      have hdrop : (phase.abandon.map fun phase => (slots, phase)) =
          some (next, later) := by
        cases phase <;> exact hadvance
      obtain ⟨left, habandon, heq⟩ := Option.map_eq_some_iff.1 hdrop
      obtain ⟨rfl, rfl⟩ := Prod.mk.inj heq
      exact move_of_abandon habandon

theorem act_some (slots : Slots) (call : Call) (action : Action) :
    act warmer slots (some call) action =
      (advance warmer slots call.dir call.phase action).map
        fun next => (next.1, { call with phase := next.2 }) := by
  cases action <;> rfl

/-- An action that is taken is a move, in the directory of the call. -/
theorem move_of_act {slots next : Slots} {task : Option Call} {call : Call}
    {action : Action} (hact : act warmer slots task action = some (next, call)) :
    Move slots call.dir (phaseOf task) action next call.phase ∧
      ∀ old, task = some old → old.dir = call.dir := by
  cases task with
  | none =>
      have hnew : next = slots ∧ call.phase.sender = none ∧
          call.phase.slot = none ∧ call.phase.watched = none ∧
          call.phase.vouches = none := by
        cases action <;> cases hact <;> exact ⟨rfl, rfl, rfl, rfl, rfl⟩
      obtain ⟨rfl, hsender, hslot, hwatched, hvouches⟩ := hnew
      refine ⟨.of_idle hsender (ne_some_of_none hslot) (ne_some_of_none hwatched)
        hvouches, ?_⟩
      intro old hold
      cases hold
  | some old =>
      rw [act_some] at hact
      obtain ⟨⟨slots', later⟩, hmove, heq⟩ := Option.map_eq_some_iff.1 hact
      obtain ⟨rfl, rfl⟩ := Prod.mk.inj heq
      refine ⟨move_of_advance hmove, fun other hother => ?_⟩
      rw [Option.some.inj hother]

/-- A step changes nothing or is an action that is taken. -/
theorem step_taken (warmer : Warmer) (system : System) (event : ℕ × Action) :
    step warmer system event = system ∨
      ∃ next call,
        act warmer system.shared (system.tasks event.1) event.2 =
            some (next, call) ∧
          step warmer system event =
            ⟨next, Function.update system.tasks event.1 (some call)⟩ :=
  step_cases

/-! ### One runner a directory -/

/-- How the map, the channels and the calls fit together. -/
structure Fits (system : System) : Prop where
  numbered : ∀ dir channel, system.shared.entries dir = some (.warming channel) →
    channel < system.shared.watches.next
  fresh : ∀ channel, system.shared.watches.next ≤ channel →
    system.shared.watches.closed channel = false
  slots : Each (fun slots call => ∀ channel, call.phase.slot = some channel →
    slots.entries call.dir = some (.warming channel)) system
  senders : Each (fun slots call => ∀ channel, call.phase.sender = some channel →
    channel < slots.watches.next ∧ slots.watches.closed channel = false) system
  watched : Each (fun slots call => ∀ channel, call.phase.watched = some channel →
    channel < slots.watches.next ∧ slots.entries call.dir ≠ none) system
  /-- An open channel has its runner. -/
  held : ∀ channel, channel < system.shared.watches.next →
    system.shared.watches.closed channel = false → Running system channel
  apart : Apart (fun first second => ∀ channel, first.phase.sender = some channel →
    second.phase.sender ≠ some channel) system

theorem fits_init : Fits init where
  numbered := fun _ _ hentry => by cases hentry
  fresh := fun _ _ => rfl
  slots := fun _ _ htask => by cases htask
  senders := fun _ _ htask => by cases htask
  watched := fun _ _ htask => by cases htask
  held := fun _ hlt => absurd hlt (Nat.not_lt_zero _)
  apart := fun _ _ _ _ _ hfirst => by cases hfirst

theorem sender_apart_symm (first second : Call)
    (hapart : ∀ channel, first.phase.sender = some channel →
      second.phase.sender ≠ some channel) (channel : ℕ)
    (hsecond : second.phase.sender = some channel) :
    first.phase.sender ≠ some channel :=
  fun hfirst => hapart channel hfirst hsecond

section Moves

variable {system : System} {id : ℕ} {call : Call}

/-- What suits every call suits the one that moves, as it stood. -/
theorem Fits.of_phaseOf (hfits : Fits system)
    (hdir : ∀ old, system.tasks id = some old → old.dir = call.dir) {channel : ℕ} :
    ((phaseOf (system.tasks id)).slot = some channel →
        system.shared.entries call.dir = some (.warming channel)) ∧
      ((phaseOf (system.tasks id)).sender = some channel →
        channel < system.shared.watches.next ∧
          system.shared.watches.closed channel = false) ∧
      ((phaseOf (system.tasks id)).watched = some channel →
        channel < system.shared.watches.next ∧
          system.shared.entries call.dir ≠ none) ∧
      ∀ other otherCall, other ≠ id → system.tasks other = some otherCall →
        (phaseOf (system.tasks id)).sender = some channel →
          otherCall.phase.sender ≠ some channel := by
  cases htask : system.tasks id with
  | none =>
      refine ⟨fun h => ?_, fun h => ?_, fun h => ?_, fun _ _ _ _ h => ?_⟩ <;> cases h
  | some old =>
      rw [← hdir old htask]
      exact ⟨hfits.slots id old htask channel, hfits.senders id old htask channel,
        hfits.watched id old htask channel, fun other otherCall hne hother =>
          hfits.apart id other old otherCall hne.symm htask hother channel⟩

/-- A run goes on unless the call that holds its sender lets go of it. -/
theorem Running.keep {slots : Slots} {channel : ℕ} (hrunning : Running system channel)
    (hsender : (phaseOf (system.tasks id)).sender = some channel →
      call.phase.sender = some channel) :
    Running ⟨slots, Function.update system.tasks id (some call)⟩ channel := by
  apply Served.keep hrunning
  intro old hold hserves
  rw [hold] at hsender
  exact hsender hserves

theorem Fits.same (hfits : Fits system)
    (hdir : ∀ old, system.tasks id = some old → old.dir = call.dir)
    (hsender : call.phase.sender = (phaseOf (system.tasks id)).sender)
    (hslot : ∀ channel, call.phase.slot = some channel →
      (phaseOf (system.tasks id)).slot = some channel)
    (hwatched : ∀ channel, call.phase.watched = some channel →
      (phaseOf (system.tasks id)).watched = some channel ∨
        system.shared.entries call.dir = some (.warming channel)) :
    Fits ⟨system.shared, Function.update system.tasks id (some call)⟩ where
  numbered := hfits.numbered
  fresh := hfits.fresh
  slots := each_update
    (fun channel hchannel => (hfits.of_phaseOf hdir).1 (hslot channel hchannel))
    fun other otherCall _ hother => hfits.slots other otherCall hother
  senders := each_update
    (fun channel hchannel => (hfits.of_phaseOf hdir).2.1 (hsender ▸ hchannel))
    fun other otherCall _ hother => hfits.senders other otherCall hother
  watched := by
    refine each_update (fun channel hchannel => ?_)
      fun other otherCall _ hother => hfits.watched other otherCall hother
    rcases hwatched channel hchannel with hold | hentry
    · exact (hfits.of_phaseOf hdir).2.2.1 hold
    · refine ⟨hfits.numbered _ _ hentry, ?_⟩
      rw [hentry]
      exact Option.some_ne_none _
  held := fun channel hlt hopen =>
    (hfits.held channel hlt hopen).keep fun hold => hsender.trans hold
  apart := hfits.apart.update sender_apart_symm
    fun other otherCall hne hother channel hchannel =>
      (hfits.of_phaseOf hdir).2.2.2 other otherCall hne hother (hsender ▸ hchannel)

/-- A claimed slot has a new channel; whoever had the slot is gone. -/
theorem Fits.claimed (hfits : Fits system) {command : String}
    (hphase : (phaseOf (system.tasks id)).sender = none)
    (hfree : system.shared.live call.dir = none)
    (hnext : call.phase = .resolving command system.shared.watches.next) :
    Fits ⟨system.shared.claim call.dir,
      Function.update system.tasks id (some call)⟩ where
  numbered := by
    intro dir channel hentry
    change Function.update system.shared.entries call.dir
      (some (.warming system.shared.watches.next)) dir = _ at hentry
    rcases eq_or_ne dir call.dir with rfl | hdir
    · rw [Function.update_self] at hentry
      cases hentry
      exact Nat.lt_succ_self _
    · rw [Function.update_of_ne hdir] at hentry
      exact Nat.lt_succ_of_lt (hfits.numbered dir channel hentry)
  fresh := fun channel hle => hfits.fresh channel (Nat.le_of_succ_le hle)
  slots := by
    refine each_update (fun channel hchannel => ?_)
      fun other otherCall hne hother channel hchannel => ?_
    · rw [hnext] at hchannel
      cases hchannel
      exact Function.update_self ..
    · have hentry := hfits.slots other otherCall hother channel hchannel
      have hopen := (hfits.senders other otherCall hother channel
        (Phase.sender_of_slot hchannel)).2
      have hdir : otherCall.dir ≠ call.dir := by
        intro hdir
        rw [live_eq_none hfree (hdir ▸ hentry)] at hopen
        cases hopen
      exact (Function.update_of_ne hdir ..).trans hentry
  senders := by
    refine each_update (fun channel hchannel => ?_)
      fun other otherCall hne hother channel hchannel => ?_
    · rw [hnext] at hchannel
      cases hchannel
      exact ⟨Nat.lt_succ_self _, hfits.fresh _ (Nat.le_refl _)⟩
    · obtain ⟨hlt, hopen⟩ := hfits.senders other otherCall hother channel hchannel
      exact ⟨Nat.lt_succ_of_lt hlt, hopen⟩
  watched := by
    refine each_update (fun channel hchannel => ?_)
      fun other otherCall hne hother channel hchannel => ?_
    · rw [hnext] at hchannel
      cases hchannel
    · obtain ⟨hlt, hentry⟩ := hfits.watched other otherCall hother channel hchannel
      refine ⟨Nat.lt_succ_of_lt hlt, ?_⟩
      change Function.update system.shared.entries call.dir
        (some (.warming system.shared.watches.next)) otherCall.dir ≠ none
      rcases eq_or_ne otherCall.dir call.dir with hdir | hdir
      · rw [hdir, Function.update_self]
        exact Option.some_ne_none _
      · rwa [Function.update_of_ne hdir]
  held := by
    intro channel hlt hopen
    rcases Nat.lt_succ_iff_lt_or_eq.1 hlt with hold | rfl
    · apply (hfits.held channel hold hopen).keep
      intro hsender
      rw [hphase] at hsender
      cases hsender
    · apply Served.own
      rw [hnext]
      rfl
  apart := by
    refine hfits.apart.update sender_apart_symm
      fun other otherCall hne hother channel hchannel hheld => ?_
    rw [hnext] at hchannel
    cases hchannel
    exact Nat.lt_irrefl _ (hfits.senders other otherCall hother _ hheld).1

/-- Only the run of a directory is recorded for it. -/
theorem Fits.recorded (hfits : Fits system)
    (hdir : ∀ old, system.tasks id = some old → old.dir = call.dir) {channel : ℕ}
    {outcome : WarmOutcome}
    (hphase : phaseOf (system.tasks id) = .storing channel outcome)
    (hnext : call.phase = .recorded channel outcome) :
    Fits ⟨system.shared.record call.dir outcome,
      Function.update system.tasks id (some call)⟩ where
  numbered := by
    intro dir other hentry
    change Function.update system.shared.entries call.dir
      (some (.done outcome)) dir = _ at hentry
    rcases eq_or_ne dir call.dir with rfl | hne
    · rw [Function.update_self] at hentry
      cases hentry
    · rw [Function.update_of_ne hne] at hentry
      exact hfits.numbered dir other hentry
  fresh := hfits.fresh
  slots := by
    refine each_update (fun other hother => ?_)
      fun other otherCall hne hother kept hkept => ?_
    · rw [hnext] at hother
      cases hother
    · have hentry := hfits.slots other otherCall hother kept hkept
      have hown : (phaseOf (system.tasks id)).slot = some channel := by
        rw [hphase]
        rfl
      have hdirNe : otherCall.dir ≠ call.dir := by
        intro hsame
        rw [hsame, (hfits.of_phaseOf hdir).1 hown] at hentry
        cases hentry
        exact (hfits.of_phaseOf hdir).2.2.2 other otherCall hne hother
          (Phase.sender_of_slot hown) (Phase.sender_of_slot hkept)
      exact (Function.update_of_ne hdirNe ..).trans hentry
  senders := by
    refine each_update (fun other hother => ?_)
      fun other otherCall _ hother => hfits.senders other otherCall hother
    apply (hfits.of_phaseOf hdir).2.1
    rw [hphase]
    rw [hnext] at hother
    exact hother
  watched := by
    refine each_update (fun other hother => ?_)
      fun other otherCall hne hother kept hkept => ?_
    · rw [hnext] at hother
      cases hother
    · obtain ⟨hlt, hentry⟩ := hfits.watched other otherCall hother kept hkept
      refine ⟨hlt, ?_⟩
      change Function.update system.shared.entries call.dir
        (some (.done outcome)) otherCall.dir ≠ none
      rcases eq_or_ne otherCall.dir call.dir with hsame | hne
      · rw [hsame, Function.update_self]
        exact Option.some_ne_none _
      · rwa [Function.update_of_ne hne]
  held := by
    intro other hlt hopen
    apply (hfits.held other hlt hopen).keep
    rw [hphase, hnext]
    exact fun hsender => hsender
  apart := by
    refine hfits.apart.update sender_apart_symm
      fun other otherCall hne hother kept hkept => ?_
    apply (hfits.of_phaseOf hdir).2.2.2 other otherCall hne hother
    rw [hphase]
    rw [hnext] at hkept
    exact hkept

/-- Dropping a sender closes the channel of the call that held it, no other. -/
theorem Fits.released (hfits : Fits system)
    (hdir : ∀ old, system.tasks id = some old → old.dir = call.dir) {channel : ℕ}
    (hphase : (phaseOf (system.tasks id)).sender = some channel)
    (hsender : call.phase.sender = none) (hwatched : call.phase.watched = none) :
    Fits ⟨system.shared.release channel,
      Function.update system.tasks id (some call)⟩ where
  numbered := hfits.numbered
  fresh := by
    intro other hle
    have hlt := ((hfits.of_phaseOf hdir).2.1 hphase).1
    have hne : other ≠ channel := Nat.ne_of_gt (Nat.lt_of_lt_of_le hlt hle)
    exact (Watches.closed_dropSender_of_ne _ hne).trans (hfits.fresh other hle)
  slots := by
    refine each_update (fun other hother => ?_)
      fun other otherCall _ hother => hfits.slots other otherCall hother
    rw [Phase.sender_of_slot hother] at hsender
    cases hsender
  senders := by
    refine each_update (fun other hother => ?_)
      fun other otherCall hne hother kept hkept => ?_
    · rw [hsender] at hother
      cases hother
    · obtain ⟨hlt, hopen⟩ := hfits.senders other otherCall hother kept hkept
      have hkeptNe : kept ≠ channel := by
        rintro rfl
        exact (hfits.of_phaseOf hdir).2.2.2 other otherCall hne hother hphase hkept
      exact ⟨hlt, (Watches.closed_dropSender_of_ne _ hkeptNe).trans hopen⟩
  watched := by
    refine each_update (fun other hother => ?_)
      fun other otherCall _ hother => hfits.watched other otherCall hother
    rw [hwatched] at hother
    cases hother
  held := by
    intro other hlt hopen
    have hne : other ≠ channel := by
      rintro rfl
      change Function.update system.shared.watches.closed other true other = false
        at hopen
      rw [Function.update_self] at hopen
      cases hopen
    change (system.shared.watches.dropSender channel).closed other = false at hopen
    rw [Watches.closed_dropSender_of_ne _ hne] at hopen
    apply (hfits.held other hlt hopen).keep
    intro hother
    exact absurd (Option.some.inj (hother.symm.trans hphase)) hne
  apart := by
    refine hfits.apart.update sender_apart_symm
      fun other otherCall _ hother kept hkept => ?_
    rw [hsender] at hkept
    cases hkept

end Moves

theorem fits_step (system : System) (event : ℕ × Action) (hfits : Fits system) :
    Fits (step warmer system event) := by
  refine step_keeps hfits fun next call hact => ?_
  obtain ⟨hmove, hdir⟩ := move_of_act hact
  obtain ⟨dir, later⟩ := call
  generalize hphase : phaseOf (system.tasks event.1) = phase at hmove
  cases hmove with
  | same hsender hslot hwatched hvouches =>
      subst hphase
      exact hfits.same hdir hsender hslot hwatched
  | claimed hnone hfree =>
      subst hphase
      exact hfits.claimed hnone hfree rfl
  | recorded haction hstoring =>
      exact hfits.recorded hdir (hphase.trans hstoring) rfl
  | returned hrecorded =>
      exact hfits.released hdir (by rw [hphase, hrecorded]; rfl) rfl rfl
  | unwound hunwinding =>
      exact hfits.released hdir (by rw [hphase, hunwinding]; rfl) rfl rfl

theorem fits_run (events : List (ℕ × Action)) :
    Fits (Run.run (step warmer) init events) :=
  Run.invariant_run fits_step fits_init events

/-! ### What is recorded -/

/-- A step records what it puts into the map, and nothing else finishes there. -/
theorem entry_step {system : System} {event : ℕ × Action} {dir : String}
    {outcome : WarmOutcome}
    (hentry : (step warmer system event).shared.entries dir =
      some (.done outcome)) :
    records system event = [(dir, outcome)] ∨
      (system.shared.entries dir = some (.done outcome) ∧
        ∀ entry ∈ records system event, entry.1 ≠ dir) := by
  obtain ⟨id, action⟩ := event
  by_cases hrecord : ∃ call channel vouched, system.tasks id = some call ∧
      call.phase = .storing channel vouched ∧ action = .record
  · obtain ⟨⟨callDir, phase⟩, channel, vouched, htask, rfl, rfl⟩ := hrecord
    have hact : act warmer system.shared (system.tasks id) .record =
        some (system.shared.record callDir vouched,
          ⟨callDir, .recorded channel vouched⟩) := by
      rw [htask]
      rfl
    have hrecords : records system (id, .record) = [(callDir, vouched)] := by
      simp only [records, htask]
    rw [step, step_of_some hact] at hentry
    change Function.update system.shared.entries callDir
      (some (.done vouched)) dir = _ at hentry
    rw [hrecords]
    rcases eq_or_ne dir callDir with rfl | hdir
    · rw [Function.update_self] at hentry
      cases hentry
      exact .inl rfl
    · rw [Function.update_of_ne hdir] at hentry
      refine .inr ⟨hentry, fun entry hmem => ?_⟩
      rw [List.mem_singleton.1 hmem]
      exact hdir.symm
  · have hnone : records system (id, action) = [] := by
      unfold records
      split
      · next htask haction => exact absurd ⟨_, _, _, htask, rfl, haction⟩ hrecord
      · rfl
    refine .inr ⟨?_, by rw [hnone]; exact List.forall_mem_nil _⟩
    rcases step_taken warmer system (id, action) with hsame | ⟨next, call, hact, hstep⟩
    · rwa [hsame] at hentry
    rw [hstep] at hentry
    obtain ⟨hmove, hdir⟩ := move_of_act hact
    obtain ⟨callDir, later⟩ := call
    generalize hphase : phaseOf (system.tasks id) = phase at hmove
    cases hmove with
    | same => exact hentry
    | claimed hfree =>
        change Function.update system.shared.entries callDir _ dir = _ at hentry
        rcases eq_or_ne dir callDir with rfl | hne
        · rw [Function.update_self] at hentry
          cases hentry
        · rwa [Function.update_of_ne hne] at hentry
    | recorded haction hstoring =>
        cases htask : system.tasks id with
        | none =>
            rw [htask, hstoring] at hphase
            cases hphase
        | some old =>
            rw [htask] at hphase
            exact absurd ⟨old, _, _, htask, hphase.trans hstoring, haction⟩ hrecord
    | returned => exact hentry
    | unwound => exact hentry

/-- What a phase vouches for after a step, it did before, or it was in the map,
or the step recorded it. -/
theorem vouches_step {system : System} {event : ℕ × Action} {id : ℕ} {call : Call}
    {outcome : WarmOutcome}
    (hcall : (step warmer system event).tasks id = some call)
    (hvouches : call.phase.vouches = some outcome) :
    (∃ old, system.tasks id = some old ∧ old.dir = call.dir ∧
        old.phase.vouches = some outcome) ∨
      system.shared.entries call.dir = some (.done outcome) ∨
      (call.dir, outcome) ∈ records system event := by
  rcases step_taken warmer system event with hsame | ⟨next, moved, hact, hstep⟩
  · rw [hsame] at hcall
    exact .inl ⟨call, hcall, rfl, hvouches⟩
  rw [hstep] at hcall
  change Function.update system.tasks event.1 (some moved) id = some call at hcall
  rcases eq_or_ne id event.1 with rfl | hne
  · rw [Function.update_self] at hcall
    obtain rfl := Option.some.inj hcall
    obtain ⟨hmove, hdir⟩ := move_of_act hact
    obtain ⟨callDir, later⟩ := moved
    generalize hphase : phaseOf (system.tasks event.1) = phase at hmove
    cases htask : system.tasks event.1 with
    | none =>
        rw [htask] at hphase
        subst hphase
        cases hmove with
        | same _ _ _ hfound => exact .inr (.inl (hfound outcome hvouches))
        | claimed => cases hvouches
        | recorded _ hold => cases hold
        | returned hold => cases hold
        | unwound hold => cases hold
    | some old =>
        rw [htask] at hphase
        have hold := hdir old htask
        cases hmove with
        | same _ _ _ hfound => exact .inr (.inl (hfound outcome hvouches))
        | claimed => cases hvouches
        | recorded haction hstoring =>
            cases hvouches
            obtain ⟨oldDir, oldPhase⟩ := old
            obtain ⟨rfl, rfl⟩ : oldDir = callDir ∧ oldPhase = phase := ⟨hold, hphase⟩
            subst hstoring
            simp [records, htask, haction]
        | returned hrecorded =>
            left
            refine ⟨old, rfl, hold, ?_⟩
            rw [show old.phase = _ from hphase.trans hrecorded]
            exact hvouches
        | unwound => cases hvouches
  · rw [Function.update_of_ne hne] at hcall
    exact .inl ⟨call, hcall, rfl, hvouches⟩

/-- Who is told that the cache is ready read it in the map. -/
theorem entry_of_answered {system : System} {event : ℕ × Action} {dir : String}
    (hbefore : system.tasks event.1 ≠ some ⟨dir, .answered (some .ready)⟩)
    (hanswered : (step warmer system event).tasks event.1 =
      some ⟨dir, .answered (some .ready)⟩) :
    system.shared.entries dir = some (.done .ready) := by
  rcases step_taken warmer system event with hsame | ⟨next, call, hact, hstep⟩
  · rw [hsame] at hanswered
    exact absurd hanswered hbefore
  rw [hstep] at hanswered
  change Function.update system.tasks event.1 (some call) event.1 = _ at hanswered
  rw [Function.update_self] at hanswered
  obtain rfl := Option.some.inj hanswered
  obtain ⟨hmove, -⟩ := move_of_act hact
  cases hmove with
  | same _ _ _ hfound => exact hfound .ready rfl

/-- The map holds what was recorded last. -/
theorem lastOutcome_of_entry {events : List (ℕ × Action)} {dir : String}
    {outcome : WarmOutcome}
    (hentry : (Run.run (step warmer) init events).shared.entries dir =
      some (.done outcome)) :
    lastOutcome (recorded warmer init events) dir = some outcome := by
  induction events using List.reverseRecOn with
  | nil => cases hentry
  | append_singleton events event ih =>
      rw [Run.run_append] at hentry
      rw [recorded, Run.collect_append, Run.collect_cons, Run.collect_nil,
        List.append_nil, lastOutcome, List.filter_append]
      rcases entry_step hentry with hnew | ⟨hold, hothers⟩
      · rw [hnew]
        simp
      · have hnone : (records (Run.run (step warmer) init events) event).filter
            (fun entry => decide (entry.1 = dir)) = [] := by
          rw [List.filter_eq_nil_iff]
          intro entry hmem heq
          exact hothers entry hmem (of_decide_eq_true heq)
        rw [hnone, List.append_nil]
        exact ih hold

/-- From where a directory has no outcome in the map and a call vouches for none,
what the call comes to vouch for was recorded since. -/
theorem recorded_of_vouches {system : System} {id : ℕ} {dir : String}
    (hentry : ∀ outcome, system.shared.entries dir ≠ some (.done outcome))
    (htask : ∀ call, system.tasks id = some call → call.phase.vouches = none)
    {events : List (ℕ × Action)} :
    (∀ outcome, (Run.run (step warmer) system events).shared.entries dir =
        some (.done outcome) → (dir, outcome) ∈ recorded warmer system events) ∧
      ∀ call outcome, (Run.run (step warmer) system events).tasks id = some call →
        call.dir = dir → call.phase.vouches = some outcome →
          (dir, outcome) ∈ recorded warmer system events := by
  induction events using List.reverseRecOn with
  | nil =>
      refine ⟨fun outcome hdone => absurd hdone (hentry outcome), ?_⟩
      intro call outcome hcall _ hvouches
      rw [htask call hcall] at hvouches
      cases hvouches
  | append_singleton events event ih =>
      rw [Run.run_append, recorded, Run.collect_append, Run.collect_cons,
        Run.collect_nil, List.append_nil]
      constructor
      · intro outcome hdone
        rcases entry_step hdone with hnew | ⟨hold, _⟩
        · rw [hnew]
          exact List.mem_append_right _ (List.mem_singleton_self _)
        · exact List.mem_append_left _ (ih.1 outcome hold)
      · rintro call outcome hcall rfl hvouches
        rcases vouches_step hcall hvouches with ⟨old, hold, hdir, hsame⟩ | hfound | hnew
        · exact List.mem_append_left _ (ih.2 old outcome hold hdir hsame)
        · exact List.mem_append_left _ (ih.1 outcome hfound)
        · exact List.mem_append_right _ hnew

/-! ### Runners that are gone -/

/-- A channel that has left the map does not come back. -/
theorem left_step (warmer : Warmer) {system : System} (event : ℕ × Action) {dir : String}
    {channel : ℕ} (hlt : channel < system.shared.watches.next)
    (hleft : system.shared.entries dir ≠ some (.warming channel)) :
    channel < (step warmer system event).shared.watches.next ∧
      (step warmer system event).shared.entries dir ≠ some (.warming channel) := by
  rcases step_taken warmer system event with hsame | ⟨next, call, hact, hstep⟩
  · rw [hsame]
    exact ⟨hlt, hleft⟩
  rw [hstep]
  obtain ⟨hmove, -⟩ := move_of_act hact
  obtain ⟨callDir, later⟩ := call
  generalize phaseOf (system.tasks event.1) = phase at hmove
  cases hmove with
  | same => exact ⟨hlt, hleft⟩
  | claimed =>
      refine ⟨Nat.lt_succ_of_lt hlt, fun hentry => ?_⟩
      change Function.update system.shared.entries callDir _ dir = _ at hentry
      rcases eq_or_ne dir callDir with rfl | hne
      · rw [Function.update_self] at hentry
        cases hentry
        exact Nat.lt_irrefl _ hlt
      · rw [Function.update_of_ne hne] at hentry
        exact hleft hentry
  | recorded =>
      refine ⟨hlt, fun hentry => ?_⟩
      change Function.update system.shared.entries callDir _ dir = _ at hentry
      rcases eq_or_ne dir callDir with rfl | hne
      · rw [Function.update_self] at hentry
        cases hentry
      · rw [Function.update_of_ne hne] at hentry
        exact hleft hentry
  | returned => exact ⟨hlt, hleft⟩
  | unwound => exact ⟨hlt, hleft⟩

/-- A directory that was ever claimed keeps an entry. -/
theorem entry_ne_none_step (warmer : Warmer) {system : System} (event : ℕ × Action) {dir : String}
    (hentry : system.shared.entries dir ≠ none) :
    (step warmer system event).shared.entries dir ≠ none := by
  rcases step_taken warmer system event with hsame | ⟨next, call, hact, hstep⟩
  · rwa [hsame]
  rw [hstep]
  obtain ⟨hmove, -⟩ := move_of_act hact
  obtain ⟨callDir, later⟩ := call
  generalize phaseOf (system.tasks event.1) = phase at hmove
  have hupdate (entry : Entry) :
      Function.update system.shared.entries callDir (some entry) dir ≠ none := by
    rcases eq_or_ne dir callDir with rfl | hne
    · rw [Function.update_self]
      exact Option.some_ne_none _
    · rwa [Function.update_of_ne hne]
  cases hmove with
  | same => exact hentry
  | claimed => exact hupdate _
  | recorded => exact hupdate _
  | returned => exact hentry
  | unwound => exact hentry

section Gone

variable {system : System} {id : ℕ} {dir : String} {channel : ℕ}

theorem left_run (events : List (ℕ × Action))
    (hlt : channel < system.shared.watches.next)
    (hleft : system.shared.entries dir ≠ some (.warming channel)) :
    (Run.run (step warmer) system events).shared.entries dir ≠
      some (.warming channel) := by
  have hstep (system : System) (event : ℕ × Action)
      (hboth : channel < system.shared.watches.next ∧
        system.shared.entries dir ≠ some (.warming channel)) :=
    left_step warmer event hboth.1 hboth.2
  exact (Run.invariant_run hstep ⟨hlt, hleft⟩ events).2

theorem entry_ne_none_run (events : List (ℕ × Action))
    (hentry : system.shared.entries dir ≠ none) :
    (Run.run (step warmer) system events).shared.entries dir ≠ none := by
  have hstep (system : System) (event : ℕ × Action)
      (hsome : system.shared.entries dir ≠ none) :=
    entry_ne_none_step warmer event hsome
  exact Run.invariant_run hstep hentry events

theorem tasks_run_of_others {events : List (ℕ × Action)}
    (hothers : ∀ event ∈ events, id ≠ event.1) :
    (Run.run (step warmer) system events).tasks id = system.tasks id :=
  tasks_run_of_ne hothers

/-- The runner of a call's run is gone: whatever the others do in between, the
call wakes and reports the failure, or it finds the run that replaced the one it
waited for, or that run's outcome. -/
def Unblocked (warmer : Warmer) (system : System) (id : ℕ) (dir : String)
    (channel : ℕ) : Prop :=
  ∀ first second : List (ℕ × Action), (∀ event ∈ first, id ≠ event.1) →
    (∀ event ∈ second, id ≠ event.1) →
      let checked := Run.run (step warmer) (step warmer system (id, .wake)) first
      let looked := Run.run (step warmer) (step warmer checked (id, .check)) second
      let last := step warmer looked (id, .look)
      (checked.shared.entries dir = some (.warming channel) ∧
          last.tasks id = some ⟨dir, .answered (some .failed)⟩) ∨
        checked.shared.entries dir ≠ some (.warming channel) ∧
          ((∃ current, current ≠ channel ∧
              looked.shared.entries dir = some (.warming current) ∧
                last.tasks id = some ⟨dir, .waiting current⟩) ∨
            ∃ outcome, looked.shared.entries dir = some (.done outcome) ∧
              last.tasks id = some ⟨dir, .answered (some outcome)⟩)

theorem step_own {call : Call} {action : Action} {next : Slots} {later : Phase}
    (htask : system.tasks id = some call)
    (hadvance : advance warmer system.shared call.dir call.phase action =
      some (next, later)) :
    step warmer system (id, action) =
      ⟨next, Function.update system.tasks id (some { call with phase := later })⟩ := by
  apply step_of_some
  rw [htask, act_some, hadvance]
  rfl

theorem unblocked_of_gone (hfits : Fits system)
    (htask : system.tasks id = some ⟨dir, .waiting channel⟩)
    (hgone : ¬ Running system channel) : Unblocked warmer system id dir channel := by
  intro first second hfirst hsecond checked looked last
  obtain ⟨hlt, hentry⟩ := hfits.watched id _ htask channel rfl
  have hclosed : system.shared.watches.closed channel = true := by
    by_contra hopen
    exact hgone (hfits.held channel hlt (Bool.eq_false_iff.2 hopen))
  have hwake : step warmer system (id, .wake) = ⟨system.shared,
      Function.update system.tasks id (some ⟨dir, .checking channel⟩)⟩ :=
    step_own htask (by rw [advance, if_pos hclosed])
  have hchecked : checked.tasks id = some ⟨dir, .checking channel⟩ := by
    rw [tasks_run_of_others hfirst, hwake]
    exact Function.update_self ..
  have hfitsChecked : Fits checked :=
    Run.invariant_run fits_step (fits_step system (id, .wake) hfits) first
  have hltChecked := (hfitsChecked.watched id _ hchecked channel rfl).1
  by_cases hdead : checked.shared.entries dir = some (.warming channel)
  · left
    refine ⟨hdead, ?_⟩
    have hcheck : step warmer checked (id, .check) = ⟨checked.shared,
        Function.update checked.tasks id (some ⟨dir, .answered (some .failed)⟩)⟩ :=
      step_own hchecked (by rw [advance, if_pos hdead])
    have hlooked : looked.tasks id = some ⟨dir, .answered (some .failed)⟩ := by
      rw [tasks_run_of_others hsecond, hcheck]
      exact Function.update_self ..
    have hstays : last = looked := by
      apply step_of_none
      rw [hlooked]
      rfl
    rw [hstays]
    exact hlooked
  · right
    refine ⟨hdead, ?_⟩
    have hcheck : step warmer checked (id, .check) = ⟨checked.shared,
        Function.update checked.tasks id (some ⟨dir, .looking⟩)⟩ :=
      step_own hchecked (by rw [advance, if_neg hdead])
    have hlooked : looked.tasks id = some ⟨dir, .looking⟩ := by
      rw [tasks_run_of_others hsecond, hcheck]
      exact Function.update_self ..
    have hentryLooked : looked.shared.entries dir ≠ none := by
      apply entry_ne_none_run second
      apply entry_ne_none_step
      apply entry_ne_none_run first
      exact entry_ne_none_step warmer _ hentry
    have hleft : looked.shared.entries dir ≠ some (.warming channel) := by
      obtain ⟨hltNext, hleftNext⟩ := left_step warmer (id, .check) hltChecked hdead
      exact left_run second hltNext hleftNext
    cases hfound : looked.shared.entries dir with
    | none => exact absurd hfound hentryLooked
    | some entry =>
        cases entry with
        | done outcome =>
            right
            refine ⟨outcome, rfl, ?_⟩
            have hlook : last = ⟨looked.shared, Function.update looked.tasks id
                (some ⟨dir, .answered (some outcome)⟩)⟩ :=
              step_own hlooked (by simp only [advance, hfound])
            rw [hlook]
            exact Function.update_self ..
        | warming current =>
            left
            refine ⟨current, ?_, rfl, ?_⟩
            · rintro rfl
              exact hleft hfound
            · have hlook : last = ⟨looked.shared, Function.update looked.tasks id
                  (some ⟨dir, .waiting current⟩)⟩ :=
                step_own hlooked (by simp only [advance, hfound])
              rw [hlook]
              exact Function.update_self ..

end Gone

/-! ### Single flight -/

/-- What holds at the end of a run and of its next steps. -/
structure SingleFlight (warmer : Warmer) (events : List (ℕ × Action))
    (system : System) : Prop where
  /-- One warm command of a directory at a time. -/
  once : ∀ dir first second firstCall secondCall,
    system.tasks first = some firstCall → system.tasks second = some secondCall →
      RunsIn dir firstCall → RunsIn dir secondCall → first = second
  /-- Who joins a run returns an outcome recorded after it joined. -/
  joined : ∀ id dir command channel,
    system.tasks id = some ⟨dir, .claiming command⟩ →
      (step warmer system (id, .claim)).tasks id =
          some ⟨dir, .joined command channel⟩ →
        ∀ later outcome,
          (Run.run (step warmer) (step warmer system (id, .claim)) later).tasks id =
              some ⟨dir, .returned outcome⟩ →
            (dir, outcome) ∈
              recorded warmer (step warmer system (id, .claim)) later
  /-- Who is told that the cache is ready is told so of the last recorded run. -/
  honest : ∀ (event : ℕ × Action) (dir : String),
    system.tasks event.1 ≠ some ⟨dir, .answered (some .ready)⟩ →
      (step warmer system event).tasks event.1 =
          some ⟨dir, .answered (some .ready)⟩ →
        lastOutcome (recorded warmer init events) dir = some .ready
  /-- Nobody waits for a run whose runner is gone. -/
  unblocked : ∀ id dir channel, system.tasks id = some ⟨dir, .waiting channel⟩ →
    ¬ Running system channel → Unblocked warmer system id dir channel

theorem singleFlight_run (warmer : Warmer) (events : List (ℕ × Action)) :
    SingleFlight warmer events (Run.run (step warmer) init events) := by
  generalize hsystem : Run.run (step warmer) init events = system
  have hfits : Fits system := hsystem ▸ fits_run events
  constructor
  · rintro dir first second firstCall secondCall hfirst hsecond
      ⟨hfirstDir, firstChannel, _, hfirstPhase⟩
      ⟨hsecondDir, secondChannel, _, hsecondPhase⟩
    by_contra hne
    have hfirstSlot : firstCall.phase.slot = some firstChannel := by
      rw [hfirstPhase]
      rfl
    have hsecondSlot : secondCall.phase.slot = some secondChannel := by
      rw [hsecondPhase]
      rfl
    have hfirstEntry := hfits.slots first firstCall hfirst _ hfirstSlot
    have hsecondEntry := hfits.slots second secondCall hsecond _ hsecondSlot
    rw [hfirstDir, ← hsecondDir, hsecondEntry] at hfirstEntry
    cases hfirstEntry
    exact hfits.apart first second firstCall secondCall hne hfirst hsecond _
      (Phase.sender_of_slot hfirstSlot) (Phase.sender_of_slot hsecondSlot)
  · intro id dir command channel htask hjoins later outcome hreturned
    obtain ⟨found, hlive⟩ : ∃ found, system.shared.live dir = some found := by
      cases hlive : system.shared.live dir with
      | some found => exact ⟨found, rfl⟩
      | none =>
          have hclaim : step warmer system (id, .claim) =
              ⟨system.shared.claim dir, Function.update system.tasks id
                (some ⟨dir, .resolving command system.shared.watches.next⟩)⟩ :=
            step_own htask (by simp only [advance, hlive])
          rw [hclaim] at hjoins
          change Function.update system.tasks id _ id = _ at hjoins
          rw [Function.update_self] at hjoins
          cases hjoins
    have hclaim : step warmer system (id, .claim) = ⟨system.shared,
        Function.update system.tasks id (some ⟨dir, .joined command found⟩)⟩ :=
      step_own htask (by simp only [advance, hlive])
    refine (recorded_of_vouches (fun other hdone => ?_) (fun call hcall => ?_)).2 _ _
      hreturned rfl rfl
    · rw [hclaim] at hdone
      rw [(live_eq_some hlive).1] at hdone
      cases hdone
    · rw [hjoins] at hcall
      cases hcall
      rfl
  · intro event dir hbefore hanswered
    subst hsystem
    exact lastOutcome_of_entry (entry_of_answered hbefore hanswered)
  · exact fun id dir channel htask hgone => unblocked_of_gone hfits htask hgone

end Kitaebot.Tools.Warm
