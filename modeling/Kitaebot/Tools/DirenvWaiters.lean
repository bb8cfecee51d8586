import Kitaebot.Tools.Direnv

/-!
# Who waits for an evaluation

A slot belongs to one call, which is the only one to change it.  Nobody is
stranded as long as no call is dropped while it owns a slot, and no waiter
registers after the evaluation has ended.
-/

namespace Kitaebot.Tools.Direnv

open Kitaebot.Tasks

/-- The slot a phase owns. -/
def Phase.slot : Phase → Option ℕ
  | .evaluating notify => some notify
  | .storing notify _ => some notify
  | _ => none

/-- The evaluation a phase has found in progress. -/
def Phase.watched : Phase → Option ℕ
  | .released notify => some notify
  | .waiting notify _ => some notify
  | _ => none

theorem evaluates_iff {dir : String} {notify : ℕ} {call : Call} :
    Evaluates (dir, notify) call ↔
      call.dir = dir ∧ call.phase.slot = some notify := by
  obtain ⟨callDir, fingerprint, phase⟩ := call
  cases phase <;> simp [Evaluates, Phase.slot]

/-- What one action of a call does. -/
inductive Move (cache : Cache) (dir : String) (fingerprint : Fingerprint)
    (phase : Phase) (action : Action) : Cache → Phase → Prop
  | same {next : Phase} (hslot : next.slot = phase.slot)
      (hwatched : ∀ notify, next.watched = some notify →
        phase.watched = some notify ∨
          cache.entries dir = some (.resolving notify))
      (hticket : ∀ notify notified, next = .waiting notify notified →
        action = .register ∧ phase = .released notify ∧
          notified = (cache.notifies notify).notified) :
      Move cache dir fingerprint phase action cache next
  | claimed (hphase : phase.slot = none)
      (hfree : ∀ notify, cache.entries dir ≠ some (.resolving notify)) :
      Move cache dir fingerprint phase action (cache.claim dir)
        (.evaluating cache.nextNotify)
  | stored {notify now : ℕ} {result : Except DirenvError DirenvEnv}
      (hphase : phase.slot = some notify) :
      Move cache dir fingerprint phase action
        (cache.store dir fingerprint notify now result)
        (.returned (result.map some))
  | abandoned {notify : ℕ} (haction : action = .drop)
      (hphase : phase.slot = some notify) :
      Move cache dir fingerprint phase action cache .dropped

/-- A look that finds nothing usable finds no evaluation either. -/
theorem lookup_miss {fingerprint : Fingerprint} {now : ℕ}
    {entry : Option CacheEntry} (hmiss : lookup fingerprint now entry = .miss)
    (notify : ℕ) : entry ≠ some (.resolving notify) := by
  rintro rfl
  cases hmiss

theorem lookup_resolving {fingerprint : Fingerprint} {now notify : ℕ}
    {entry : Option CacheEntry}
    (hlookup : lookup fingerprint now entry = .resolving notify) :
    entry = some (.resolving notify) := by
  match entry with
  | none => cases hlookup
  | some (.resolving other) =>
      cases hlookup
      rfl
  | some (.ready env cached) =>
      rw [lookup] at hlookup
      split at hlookup <;> cases hlookup
  | some (.failed error cached expiresAt) =>
      rw [lookup] at hlookup
      split at hlookup <;> cases hlookup

theorem settled_ne_resolving (fingerprint : Fingerprint) (now : ℕ)
    (result : Except DirenvError DirenvEnv) (notify : ℕ) :
    settled fingerprint now result ≠ some (.resolving notify) := by
  unfold settled
  split <;> exact nofun

/-- A move that neither watches nor owns anything new. -/
theorem Move.of_idle {cache : Cache} {dir : String} {fingerprint : Fingerprint}
    {phase next : Phase} {action : Action} (hslot : next.slot = phase.slot)
    (hwatched : next.watched = none) :
    Move cache dir fingerprint phase action cache next := by
  refine .same hslot (fun notify hnotify => ?_) fun notify notified hnext => ?_
  · rw [hwatched] at hnotify
    cases hnotify
  · rw [hnext] at hwatched
    cases hwatched

theorem move_of_advance {cache next : Cache} {dir : String}
    {fingerprint : Fingerprint} {phase later : Phase} {action : Action}
    (hadvance : advance cache dir fingerprint phase action = some (next, later)) :
    Move cache dir fingerprint phase action next later := by
  cases action with
  | get => cases phase <;> cases hadvance
  | read now =>
      cases phase with
      | reading =>
          rw [advance] at hadvance
          split at hadvance
          · cases hadvance
            exact .of_idle rfl rfl
          · next hlookup =>
              cases hadvance
              refine .same rfl (fun notify hnotify => .inr ?_) nofun
              cases hnotify
              exact lookup_resolving hlookup
          · cases hadvance
            exact .of_idle rfl rfl
      | _ => cases hadvance
  | register =>
      cases phase with
      | released notify =>
          cases hadvance
          refine .same rfl (fun notify hnotify => .inl hnotify) ?_
          rintro other notified hnext
          cases hnext
          exact ⟨rfl, rfl, rfl⟩
      | _ => cases hadvance
  | wake =>
      cases phase with
      | waiting notify notified =>
          rw [advance] at hadvance
          split at hadvance
          · cases hadvance
            exact .of_idle rfl rfl
          · cases hadvance
      | _ => cases hadvance
  | claim now =>
      cases phase with
      | writing =>
          rw [advance] at hadvance
          split at hadvance
          · cases hadvance
            exact .of_idle rfl rfl
          · next hlookup =>
              cases hadvance
              refine .same rfl (fun notify hnotify => .inr ?_) nofun
              cases hnotify
              exact lookup_resolving hlookup
          · next hlookup =>
              cases hadvance
              exact .claimed rfl (lookup_miss hlookup)
      | _ => cases hadvance
  | evaluated result =>
      cases phase with
      | evaluating notify =>
          cases hadvance
          exact .of_idle rfl rfl
      | _ => cases hadvance
  | store now =>
      cases phase with
      | storing notify result =>
          cases hadvance
          exact .stored rfl
      | _ => cases hadvance
  | drop =>
      have hdrop : (if phase.awaits then some (cache, Phase.dropped) else none) =
          some (next, later) := by
        cases phase <;> exact hadvance
      split at hdrop
      · cases hdrop
        cases hslot : phase.slot with
        | none => exact .of_idle hslot.symm rfl
        | some notify => exact .abandoned rfl hslot
      · cases hdrop

/-! ### Slots have one owner -/

/-- The entry of an owned slot is in progress and its waiters not yet notified;
no two calls own the same. -/
structure Owned (system : System) : Prop where
  numbered : ∀ dir notify,
    system.shared.entries dir = some (.resolving notify) →
      notify < system.shared.nextNotify
  fresh : ∀ notify, system.shared.nextNotify ≤ notify →
    system.shared.notifies notify = Notify.new
  slots : Each (fun cache call => ∀ notify, call.phase.slot = some notify →
    cache.entries call.dir = some (.resolving notify) ∧
      cache.notifies notify = Notify.new) system
  watched : Each (fun cache call => ∀ notify, call.phase.watched = some notify →
    notify < cache.nextNotify) system
  apart : Apart (fun first second => ∀ notify, first.phase.slot = some notify →
    second.phase.slot ≠ some notify) system

theorem owned_init : Owned init where
  numbered := nofun
  fresh := fun _ _ => rfl
  slots := nofun
  watched := nofun
  apart := fun _ _ _ _ _ hfirst => nomatch hfirst

/-- The call that moves, as it stood before. -/
structure Mover (system : System) (id : ℕ) (dir : String) (phase : Phase) : Prop where
  task : ∀ old, system.tasks id = some old → old.dir = dir ∧ old.phase = phase
  started : phase ≠ .dropped → ∃ old, system.tasks id = some old
  slot : ∀ notify, phase.slot = some notify →
    system.shared.entries dir = some (.resolving notify) ∧
      system.shared.notifies notify = Notify.new
  watched : ∀ notify, phase.watched = some notify →
    notify < system.shared.nextNotify
  others : ∀ other otherCall, other ≠ id → system.tasks other = some otherCall →
    ∀ notify, phase.slot = some notify → otherCall.phase.slot ≠ some notify

theorem act_some (cache : Cache) (call : Call) (action : Action) :
    act cache (some call) action =
      (advance cache call.dir call.fingerprint call.phase action).map
        fun next => (next.1, { call with phase := next.2 }) := by
  cases action <;> rfl

/-- An action that is taken is a move. -/
theorem Owned.mover {system : System} (howned : Owned system) {id : ℕ}
    {action : Action} {next : Cache} {call : Call}
    (hact : act system.shared (system.tasks id) action = some (next, call)) :
    ∃ phase, Mover system id call.dir phase ∧
      Move system.shared call.dir call.fingerprint phase action next call.phase := by
  cases htask : system.tasks id with
  | none =>
      rw [htask] at hact
      have hnew : next = system.shared ∧ call.phase.slot = none ∧
          call.phase.watched = none := by
        cases action with
        | get dir hasEnvrc fingerprint =>
            cases hasEnvrc <;> cases hact <;> exact ⟨rfl, rfl, rfl⟩
        | _ => cases hact
      obtain ⟨rfl, hslot, hwatched⟩ := hnew
      refine ⟨.dropped, ⟨fun old hold => ?_, fun hne => absurd rfl hne, nofun, nofun,
        nofun⟩, .of_idle hslot hwatched⟩
      rw [htask] at hold
      cases hold
  | some old =>
      rw [htask] at hact
      rw [act_some] at hact
      obtain ⟨⟨cache, later⟩, hmove, heq⟩ := Option.map_eq_some_iff.1 hact
      obtain ⟨rfl, rfl⟩ := Prod.mk.inj heq
      refine ⟨old.phase, ⟨fun other hother => ?_, fun _ => ⟨old, htask⟩, ?_, ?_, ?_⟩,
        move_of_advance hmove⟩
      · obtain rfl := Option.some.inj (htask.symm.trans hother)
        exact ⟨rfl, rfl⟩
      · exact fun notify hslot => howned.slots id old htask notify hslot
      · exact fun notify hwatched => howned.watched id old htask notify hwatched
      · exact fun other otherCall hne hother notify hslot =>
          howned.apart id other old otherCall hne.symm htask hother notify hslot

theorem slot_apart_symm (first second : Call)
    (hapart : ∀ notify, first.phase.slot = some notify →
      second.phase.slot ≠ some notify) (notify : ℕ)
    (hsecond : second.phase.slot = some notify) :
    first.phase.slot ≠ some notify :=
  fun hfirst => hapart notify hfirst hsecond

section Moves

variable {system : System} {id : ℕ} {call : Call} {phase : Phase}

/-- A call that keeps its slot, or gives none up by leaving, changes nothing for
the others. -/
theorem Owned.same (howned : Owned system) (hmover : Mover system id call.dir phase)
    (hslot : ∀ notify, call.phase.slot = some notify → phase.slot = some notify)
    (hwatched : ∀ notify, call.phase.watched = some notify →
      phase.watched = some notify ∨
        system.shared.entries call.dir = some (.resolving notify)) :
    Owned ⟨system.shared, Function.update system.tasks id (some call)⟩ where
  numbered := howned.numbered
  fresh := howned.fresh
  slots := each_update (fun notify hnotify => hmover.slot notify (hslot _ hnotify))
    fun other otherCall _ hother => howned.slots other otherCall hother
  watched := by
    refine each_update (fun notify hnotify => ?_)
      fun other otherCall _ hother => howned.watched other otherCall hother
    exact (hwatched notify hnotify).elim (hmover.watched notify)
      (howned.numbered call.dir notify)
  apart := howned.apart.update slot_apart_symm
    fun other otherCall hne hother notify hnotify =>
      hmover.others other otherCall hne hother notify (hslot _ hnotify)

/-- A claimed slot is new. -/
theorem Owned.claimed (howned : Owned system)
    (hfree : ∀ notify, system.shared.entries call.dir ≠ some (.resolving notify))
    (hphase : call.phase = .evaluating system.shared.nextNotify) :
    Owned ⟨system.shared.claim call.dir,
      Function.update system.tasks id (some call)⟩ where
  numbered := by
    intro dir notify hentry
    change Function.update system.shared.entries call.dir
      (some (.resolving system.shared.nextNotify)) dir = _ at hentry
    rcases eq_or_ne dir call.dir with rfl | hdir
    · rw [Function.update_self] at hentry
      cases hentry
      exact Nat.lt_succ_self _
    · rw [Function.update_of_ne hdir] at hentry
      exact Nat.lt_succ_of_lt (howned.numbered dir notify hentry)
  fresh := fun notify hnotify => howned.fresh notify (Nat.le_of_succ_le hnotify)
  slots := by
    refine each_update (fun notify hnotify => ?_)
      fun other otherCall hne hother notify hnotify => ?_
    · rw [hphase] at hnotify
      cases hnotify
      exact ⟨Function.update_self .., howned.fresh _ (Nat.le_refl _)⟩
    · obtain ⟨hentry, hnew⟩ := howned.slots other otherCall hother notify hnotify
      have hdir : otherCall.dir ≠ call.dir := by
        intro hdir
        exact hfree notify (hdir ▸ hentry)
      exact ⟨(Function.update_of_ne hdir ..).trans hentry, hnew⟩
  watched := by
    refine each_update (fun notify hnotify => ?_)
      fun other otherCall hne hother notify hnotify =>
        Nat.lt_succ_of_lt (howned.watched other otherCall hother notify hnotify)
    rw [hphase] at hnotify
    cases hnotify
  apart := by
    refine howned.apart.update slot_apart_symm
      fun other otherCall hne hother notify hnotify hslot => ?_
    rw [hphase] at hnotify
    cases hnotify
    have hentry := (howned.slots other otherCall hother _ hslot).1
    exact Nat.lt_irrefl _ (howned.numbered _ _ hentry)

/-- Storing touches the slot of the call that stores and no other. -/
theorem Owned.stored (howned : Owned system) (hmover : Mover system id call.dir phase)
    {notify now : ℕ} {result : Except DirenvError DirenvEnv}
    (hslot : phase.slot = some notify)
    (hphase : call.phase = .returned (result.map some)) :
    Owned ⟨system.shared.store call.dir call.fingerprint notify now result,
      Function.update system.tasks id (some call)⟩ where
  numbered := by
    intro dir other hentry
    change Function.update system.shared.entries call.dir
      (settled call.fingerprint now result) dir = _ at hentry
    rcases eq_or_ne dir call.dir with rfl | hdir
    · rw [Function.update_self] at hentry
      exact absurd hentry (settled_ne_resolving _ _ _ _)
    · rw [Function.update_of_ne hdir] at hentry
      exact howned.numbered dir other hentry
  fresh := by
    intro other hother
    have hlt := howned.numbered _ _ (hmover.slot notify hslot).1
    have hne : other ≠ notify := Nat.ne_of_gt (Nat.lt_of_lt_of_le hlt hother)
    exact (Function.update_of_ne hne ..).trans (howned.fresh other hother)
  slots := by
    refine each_update (fun other hother => ?_)
      fun other otherCall hne hother kept hkept => ?_
    · rw [hphase] at hother
      cases hother
    · obtain ⟨hentry, hnew⟩ := howned.slots other otherCall hother kept hkept
      have hnotify : kept ≠ notify := by
        rintro rfl
        exact hmover.others other otherCall hne hother kept hslot hkept
      have hdir : otherCall.dir ≠ call.dir := by
        intro hdir
        rw [hdir, (hmover.slot notify hslot).1] at hentry
        cases hentry
        exact hnotify rfl
      exact ⟨(Function.update_of_ne hdir ..).trans hentry,
        (Function.update_of_ne hnotify ..).trans hnew⟩
  watched := by
    refine each_update (fun other hother => ?_)
      fun other otherCall _ hother => howned.watched other otherCall hother
    rw [hphase] at hother
    cases hother
  apart := by
    refine howned.apart.update slot_apart_symm
      fun other otherCall hne hother kept hkept => ?_
    rw [hphase] at hkept
    cases hkept

end Moves

/-- In every interleaving a slot has one owner. -/
theorem owned_step (system : System) (event : ℕ × Action) (howned : Owned system) :
    Owned (step system event) := by
  refine step_keeps howned fun next call hact => ?_
  obtain ⟨phase, hmover, hmove⟩ := howned.mover hact
  obtain ⟨dir, fingerprint, later⟩ := call
  cases hmove with
  | same hslot hwatched hticket =>
      exact howned.same hmover (fun notify hnotify => hslot ▸ hnotify) hwatched
  | claimed hphase hfree => exact howned.claimed hfree rfl
  | stored hphase => exact howned.stored hmover hphase rfl
  | abandoned haction hphase => exact howned.same hmover nofun nofun

theorem owned_run (events : List (ℕ × Action)) :
    Owned (Run.run step init events) :=
  Run.invariant_run owned_step owned_init events

/-- Two owners of slots of one directory are the same call. -/
theorem Owned.once {system : System} (howned : Owned system)
    {first second firstNotify secondNotify : ℕ} {firstCall secondCall : Call}
    {dir : String} (hfirst : system.tasks first = some firstCall)
    (hsecond : system.tasks second = some secondCall)
    (hfirstEvaluates : Evaluates (dir, firstNotify) firstCall)
    (hsecondEvaluates : Evaluates (dir, secondNotify) secondCall) :
    first = second := by
  obtain ⟨rfl, hfirstSlot⟩ := evaluates_iff.1 hfirstEvaluates
  obtain ⟨hdir, hsecondSlot⟩ := evaluates_iff.1 hsecondEvaluates
  by_contra hne
  have hentry := (howned.slots _ _ hfirst _ hfirstSlot).1
  have hother := (howned.slots _ _ hsecond _ hsecondSlot).1
  rw [hdir, hentry] at hother
  cases hother
  exact howned.apart _ _ _ _ hne hfirst hsecond _ hfirstSlot hsecondSlot

/-- Drops and late waiters or not, one evaluation of a directory runs at a
time. -/
theorem once_run (events : List (ℕ × Action)) {first second firstNotify
    secondNotify : ℕ} {firstCall secondCall : Call} {dir : String}
    (hfirst : (Run.run step init events).tasks first = some firstCall)
    (hsecond : (Run.run step init events).tasks second = some secondCall)
    (hfirstEvaluates : Evaluates (dir, firstNotify) firstCall)
    (hsecondEvaluates : Evaluates (dir, secondNotify) secondCall) :
    first = second :=
  (owned_run events).once hfirst hsecond hfirstEvaluates hsecondEvaluates

/-! ### Nobody is stranded -/

/-- Every entry in progress has its evaluator, every evaluation that has ended
notified its waiters, and every waiter had registered before. -/
structure Tended (system : System) : Prop where
  owned : Owned system
  evaluator : ∀ dir notify,
    system.shared.entries dir = some (.resolving notify) →
      Served Evaluates system (dir, notify)
  ended : ∀ notify, notify < system.shared.nextNotify →
    Live system notify ∨ 0 < (system.shared.notifies notify).calls
  tickets : Each (fun _ call => ∀ notify notified,
    call.phase = .waiting notify notified → notified.seen = 0) system

theorem tended_init : Tended init where
  owned := owned_init
  evaluator := nofun
  ended := nofun
  tickets := nofun

theorem Tended.neverStrands {system : System} (htended : Tended system) :
    NeverStrands system where
  once := fun _ _ _ _ _ _ _ hfirst hsecond => htended.owned.once hfirst hsecond
  evaluator := htended.evaluator
  woken := by
    intro id call notify notified htask hphase hended
    have hlt := htended.owned.watched id call htask notify (by rw [hphase]; rfl)
    have hcalls := (htended.ended notify hlt).resolve_left hended
    have hseen := htended.tickets id call htask notify notified hphase
    exact decide_eq_true (hseen ▸ hcalls)

/-- No call that owns a slot is dropped, and who registers does so while the
evaluation runs. -/
def Careful (system : System) (event : ℕ × Action) : Prop :=
  ∀ call, system.tasks event.1 = some call →
    (event.2 = .drop → call.phase.slot = none) ∧
      (event.2 = .register → ∀ notify, call.phase = .released notify →
        Live system notify)

section Moves

variable {system : System} {id : ℕ} {call : Call} {phase : Phase}

/-- What the call served before it moved is a slot it owned. -/
theorem Mover.slot_of_serves (hmover : Mover system id call.dir phase) {old : Call}
    (hold : system.tasks id = some old) {dir : String} {notify : ℕ}
    (hserves : Evaluates (dir, notify) old) :
    call.dir = dir ∧ phase.slot = some notify := by
  obtain ⟨hdir, hphase⟩ := hmover.task old hold
  obtain ⟨hserved, hslot⟩ := evaluates_iff.1 hserves
  exact ⟨hdir.symm.trans hserved, hphase ▸ hslot⟩

/-- An evaluation goes on unless the call that runs it gives up its slot. -/
theorem Mover.served (hmover : Mover system id call.dir phase) {cache : Cache}
    {dir : String} {notify : ℕ} (hserved : Served Evaluates system (dir, notify))
    (hslot : call.dir = dir → phase.slot = some notify →
      call.phase.slot = some notify) :
    Served Evaluates ⟨cache, Function.update system.tasks id (some call)⟩
      (dir, notify) := by
  refine hserved.keep fun old hold hserves => ?_
  obtain ⟨hdir, hnotify⟩ := hmover.slot_of_serves hold hserves
  exact evaluates_iff.2 ⟨hdir, hslot hdir hnotify⟩

theorem Mover.live (hmover : Mover system id call.dir phase) {cache : Cache}
    {notify : ℕ} (hlive : Live system notify)
    (hslot : phase.slot = some notify → call.phase.slot = some notify) :
    Live ⟨cache, Function.update system.tasks id (some call)⟩ notify :=
  hlive.imp fun _ hserved => hmover.served hserved fun _ => hslot

/-- The waiters of an evaluation that runs were not notified yet. -/
theorem Owned.calls_of_live (howned : Owned system) {notify : ℕ}
    (hlive : Live system notify) :
    system.shared.notifies notify = Notify.new := by
  obtain ⟨dir, id, call, htask, hserves⟩ := hlive
  exact (howned.slots id call htask notify (evaluates_iff.1 hserves).2).2

/-- An entry in progress whose evaluator is gone. -/
def Orphaned (dir : String) (notify : ℕ) (system : System) : Prop :=
  system.shared.entries dir = some (.resolving notify) ∧ ¬ Live system notify

/-- An entry whose evaluator is gone stays in progress. -/
theorem Owned.orphan_step (howned : Owned system) {dir : String} {notify : ℕ}
    (horphaned : Orphaned dir notify system) (event : ℕ × Action) :
    Orphaned dir notify (step system event) := by
  refine step_keeps horphaned fun next call hact => ?_
  obtain ⟨hentry, hgone⟩ := horphaned
  obtain ⟨phase, hmover, hmove⟩ := howned.mover hact
  obtain ⟨callDir, fingerprint, later⟩ := call
  have hslot : phase.slot ≠ some notify := by
    intro hslot
    have hne : phase ≠ .dropped := by
      rintro rfl
      cases hslot
    obtain ⟨old, hold⟩ := hmover.started hne
    obtain ⟨hdir, rfl⟩ := hmover.task old hold
    exact hgone ⟨callDir, event.1, old, hold, evaluates_iff.2 ⟨hdir, hslot⟩⟩
  have hrest {cache : Cache} {later : Phase} (hlater : later.slot ≠ some notify) :
      ¬ Live ⟨cache, Function.update system.tasks event.1
        (some ⟨callDir, fingerprint, later⟩)⟩ notify := by
    rintro ⟨other, hserved⟩
    obtain ⟨id, old, -, hold, hserves⟩ := hserved.of_update
      fun hown => hlater (evaluates_iff.1 hown).2
    exact hgone ⟨other, id, old, hold, hserves⟩
  cases hmove with
  | same hsame hwatched hticket => exact ⟨hentry, hrest (hsame ▸ hslot)⟩
  | claimed hphase hfree =>
      have hdir : dir ≠ callDir := by
        rintro rfl
        exact hfree notify hentry
      have hnotify : system.shared.nextNotify ≠ notify :=
        Nat.ne_of_gt (howned.numbered dir notify hentry)
      exact ⟨(Function.update_of_ne hdir ..).trans hentry,
        hrest fun hnew => hnotify (Option.some.inj hnew)⟩
  | stored hphase =>
      have hdir : dir ≠ callDir := by
        rintro rfl
        have hown := (hmover.slot _ hphase).1
        rw [hentry] at hown
        cases hown
        exact hslot hphase
      exact ⟨(Function.update_of_ne hdir ..).trans hentry, hrest nofun⟩
  | abandoned haction hphase => exact ⟨hentry, hrest nofun⟩

/-- Once the evaluator of an entry is gone, the entry stays in progress whatever
happens: no later call evaluates the directory. -/
theorem Owned.orphan_run (howned : Owned system) {dir : String} {notify : ℕ}
    (horphaned : Orphaned dir notify system) (events : List (ℕ × Action)) :
    Orphaned dir notify (Run.run step system events) ∧
      ∀ later, ¬ Served Evaluates (Run.run step system events) (dir, later) := by
  have hstep (system : System) (event : ℕ × Action)
      (hboth : Owned system ∧ Orphaned dir notify system) :
      Owned (step system event) ∧ Orphaned dir notify (step system event) :=
    ⟨owned_step system event hboth.1, hboth.1.orphan_step hboth.2 event⟩
  obtain ⟨howned, horphaned⟩ :=
    Run.invariant_run hstep ⟨howned, horphaned⟩ events
  refine ⟨horphaned, ?_⟩
  rintro later ⟨id, call, hcall, hserves⟩
  obtain ⟨rfl, hslot⟩ := evaluates_iff.1 hserves
  have hown := (howned.slots id call hcall later hslot).1
  rw [horphaned.1] at hown
  cases hown
  exact horphaned.2 ⟨call.dir, id, call, hcall, hserves⟩

theorem Tended.same (htended : Tended system)
    (hmover : Mover system id call.dir phase) (hslot : call.phase.slot = phase.slot)
    (hwatched : ∀ notify, call.phase.watched = some notify →
      phase.watched = some notify ∨
        system.shared.entries call.dir = some (.resolving notify))
    (hticket : ∀ notify notified, call.phase = .waiting notify notified →
      Live system notify ∧ notified = (system.shared.notifies notify).notified) :
    Tended ⟨system.shared, Function.update system.tasks id (some call)⟩ where
  owned := htended.owned.same hmover (fun notify hnotify => hslot ▸ hnotify) hwatched
  evaluator := fun dir notify hentry =>
    hmover.served (htended.evaluator dir notify hentry) fun _ => hslot.trans
  ended := fun notify hlt =>
    (htended.ended notify hlt).imp_left fun hlive => hmover.live hlive hslot.trans
  tickets := by
    refine each_update (fun notify notified hphase => ?_)
      fun other otherCall _ hother => htended.tickets other otherCall hother
    obtain ⟨hlive, rfl⟩ := hticket notify notified hphase
    rw [htended.owned.calls_of_live hlive]
    rfl

theorem Tended.claimed (htended : Tended system)
    (hmover : Mover system id call.dir phase) (hslot : phase.slot = none)
    (hfree : ∀ notify, system.shared.entries call.dir ≠ some (.resolving notify))
    (hphase : call.phase = .evaluating system.shared.nextNotify) :
    Tended ⟨system.shared.claim call.dir,
      Function.update system.tasks id (some call)⟩ where
  owned := htended.owned.claimed hfree hphase
  evaluator := by
    intro dir notify hentry
    change Function.update system.shared.entries call.dir
      (some (.resolving system.shared.nextNotify)) dir = _ at hentry
    rcases eq_or_ne dir call.dir with rfl | hdir
    · rw [Function.update_self] at hentry
      cases hentry
      exact .own ⟨rfl, .inl hphase⟩
    · rw [Function.update_of_ne hdir] at hentry
      exact hmover.served (htended.evaluator dir notify hentry)
        fun hsame => absurd hsame.symm hdir
  ended := by
    intro notify hlt
    rcases Nat.lt_succ_iff_lt_or_eq.1 hlt with hlt | rfl
    · refine (htended.ended notify hlt).imp_left fun hlive => hmover.live hlive ?_
      intro hnotify
      rw [hslot] at hnotify
      cases hnotify
    · exact .inl ⟨call.dir, .own ⟨rfl, .inl hphase⟩⟩
  tickets := by
    refine each_update (fun notify notified hwaiting => ?_)
      fun other otherCall _ hother => htended.tickets other otherCall hother
    rw [hphase] at hwaiting
    cases hwaiting

theorem Tended.stored (htended : Tended system)
    (hmover : Mover system id call.dir phase) {notify now : ℕ}
    {result : Except DirenvError DirenvEnv} (hslot : phase.slot = some notify)
    (hphase : call.phase = .returned (result.map some)) :
    Tended ⟨system.shared.store call.dir call.fingerprint notify now result,
      Function.update system.tasks id (some call)⟩ where
  owned := htended.owned.stored hmover hslot hphase
  evaluator := by
    intro dir other hentry
    change Function.update system.shared.entries call.dir
      (settled call.fingerprint now result) dir = _ at hentry
    rcases eq_or_ne dir call.dir with rfl | hdir
    · rw [Function.update_self] at hentry
      exact absurd hentry (settled_ne_resolving _ _ _ _)
    · rw [Function.update_of_ne hdir] at hentry
      exact hmover.served (htended.evaluator dir other hentry)
        fun hsame => absurd hsame.symm hdir
  ended := by
    intro other hlt
    change _ ∨ 0 < (Function.update system.shared.notifies notify
      (system.shared.notifies notify).notifyWaiters other).calls
    rcases eq_or_ne other notify with rfl | hother
    · rw [Function.update_self]
      exact .inr (Nat.succ_pos _)
    · rw [Function.update_of_ne hother]
      refine (htended.ended other hlt).imp_left fun hlive => hmover.live hlive ?_
      intro hnotify
      exact absurd (Option.some.inj (hnotify.symm.trans hslot)) hother
  tickets := by
    refine each_update (fun other notified hwaiting => ?_)
      fun other otherCall _ hother => htended.tickets other otherCall hother
    rw [hphase] at hwaiting
    cases hwaiting

end Moves

/-- A careful step strands nobody. -/
theorem tended_step (system : System) (event : ℕ × Action)
    (htended : Tended system) (hcareful : Careful system event) :
    Tended (step system event) := by
  refine step_keeps htended fun next call hact => ?_
  obtain ⟨phase, hmover, hmove⟩ := htended.owned.mover hact
  obtain ⟨dir, fingerprint, later⟩ := call
  cases hmove with
  | same hslot hwatched hticket =>
      refine htended.same hmover hslot hwatched fun notify notified hnext => ?_
      obtain ⟨haction, rfl, hnotified⟩ := hticket notify notified hnext
      obtain ⟨old, hold⟩ := hmover.started nofun
      exact ⟨(hcareful old hold).2 haction notify (hmover.task old hold).2, hnotified⟩
  | claimed hphase hfree => exact htended.claimed hmover hphase hfree rfl
  | stored hphase => exact htended.stored hmover hphase rfl
  | abandoned haction hphase =>
      have hne : phase ≠ .dropped := by
        rintro rfl
        cases hphase
      obtain ⟨old, hold⟩ := hmover.started hne
      have hnone := (hcareful old hold).1 haction
      rw [(hmover.task old hold).2, hphase] at hnone
      cases hnone

/-- A step that strands nobody was careful. -/
theorem careful_of_neverStrands (system : System) (event : ℕ × Action)
    (htended : Tended system) (hnever : NeverStrands (step system event)) :
    Careful system event := by
  obtain ⟨id, action⟩ := event
  intro call hcall
  constructor
  · rintro rfl
    by_contra hslot
    obtain ⟨notify, hslot⟩ := Option.ne_none_iff_exists'.1 hslot
    have hact : act system.shared (system.tasks id) .drop =
        some (system.shared, { call with phase := .dropped }) := by
      rw [hcall]
      obtain ⟨dir, fingerprint, phase⟩ := call
      cases phase <;> first | rfl | cases hslot
    rw [step, step_of_some hact] at hnever
    have hentry := (htended.owned.slots id call hcall notify hslot).1
    obtain ⟨other, otherCall, hne, hother, hserves⟩ :=
      (hnever.evaluator call.dir notify hentry).of_update (by simp [Evaluates])
    exact htended.owned.apart id other call otherCall hne.symm hcall hother notify
      hslot (evaluates_iff.1 hserves).2
  · rintro rfl notify hphase
    by_contra hended
    have hact : act system.shared (system.tasks id) .register =
        some (system.shared, { call with
          phase := .waiting notify (system.shared.notifies notify).notified }) := by
      rw [hcall]
      obtain ⟨dir, fingerprint, phase⟩ := call
      obtain rfl := hphase
      rfl
    rw [step, step_of_some hact] at hnever
    have hready := hnever.woken id _ notify _ (Function.update_self ..) rfl ?_
    · rw [isReady_notified] at hready
      cases hready
    · rintro ⟨dir, hserved⟩
      obtain ⟨other, otherCall, -, hother, hserves⟩ :=
        hserved.of_update (by simp [Evaluates])
      exact hended ⟨dir, other, otherCall, hother, hserves⟩

/-- In a run of any calls nobody is ever stranded exactly when every step is
careful. -/
theorem neverStrands_iff_careful (events : List (ℕ × Action)) :
    (∀ before, before <+: events → NeverStrands (Run.run step init before)) ↔
      Run.Meets step Careful init events :=
  Run.forall_prefix_iff_meets (fun _ => Tended.neverStrands) tended_step
    careful_of_neverStrands tended_init

/-! ### Runs that strand a caller -/

def checkedOut : Fingerprint := ⟨some 1, none⟩

/-- The call that evaluates is dropped while direnv runs. -/
def droppedEvaluation : List (ℕ × Action) := [
  (0, .get "repo" true checkedOut), (0, .read 0), (0, .claim 0), (0, .drop)]

/-- The evaluation ends after a second call saw it and before that call has
registered. -/
def lateWaiter : List (ℕ × Action) := [
  (0, .get "repo" true checkedOut), (0, .read 0), (0, .claim 0),
  (1, .get "repo" true checkedOut), (1, .read 0),
  (0, .evaluated (.ok [])), (0, .store 0), (1, .register)]

/-- A run of calls 0 and 1 started no others. -/
theorem started_le_one {events : List (ℕ × Action)}
    (hevents : ∀ event ∈ events, event.1 ≤ 1) {id : ℕ} {call : Call}
    (hcall : (Run.run step init events).tasks id = some call) : id = 0 ∨ id = 1 := by
  refine Nat.le_one_iff_eq_zero_or_eq_one.1 (Nat.le_of_not_lt fun hlt => ?_)
  have hnone : (Run.run step init events).tasks id = none := tasks_run_of_ne
    fun event hmem => Nat.ne_of_gt (Nat.lt_of_le_of_lt (hevents event hmem) hlt)
  rw [hnone] at hcall
  cases hcall

theorem callers_stranded :
    ¬ NeverStrands (Run.run step init droppedEvaluation) ∧
      ¬ NeverStrands (Run.run step init lateWaiter) := by
  constructor
  · intro hnever
    obtain ⟨id, call, hcall, hserves⟩ := hnever.evaluator "repo" 0 rfl
    rcases started_le_one (by decide) hcall with rfl | rfl
    · obtain rfl := Option.some.inj hcall
      simp [Evaluates] at hserves
    · cases hcall
  · intro hnever
    have hended : ¬ Live (Run.run step init lateWaiter) 0 := by
      rintro ⟨dir, id, call, hcall, hserves⟩
      rcases started_le_one (by decide) hcall with rfl | rfl <;>
        obtain rfl := Option.some.inj hcall <;> simp [Evaluates] at hserves
    cases hnever.woken 1 _ 0 ⟨1⟩ rfl rfl hended

end Kitaebot.Tools.Direnv
