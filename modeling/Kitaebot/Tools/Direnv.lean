import Mathlib.Algebra.Group.Nat.Defs
import Kitaebot.Core.Tasks

/-!
# The direnv cache

One call of `get` is a task: it reads the cache, waits for somebody else's
evaluation or claims the slot, evaluates and stores.  What runs under one lock is
one action.  A call can be dropped wherever it awaits.  Times are nanoseconds;
what an evaluation yields is part of its action.
-/

namespace Kitaebot.Tools.Direnv

open Kitaebot.Tasks

abbrev DirenvEnv := List (String × String)

/-- Why an evaluation did not yield an environment. -/
inductive DirenvError where
  | blocked
  | failed (text : String)
  | timeout (secs : ℕ)
  deriving DecidableEq, Repr

/-- The modification times that a cached entry depends on. -/
structure Fingerprint where
  envrcMtime : Option ℕ
  flakeLockMtime : Option ℕ
  deriving DecidableEq, Repr

/-- One minute. -/
def timeoutTtl : ℕ := 60 * 10 ^ 9

/-- What is cached for a directory.  An evaluation in progress is known by its
notification. -/
inductive CacheEntry where
  | resolving (notify : ℕ)
  | ready (env : DirenvEnv) (fingerprint : Fingerprint)
  | failed (error : DirenvError) (fingerprint : Fingerprint) (expiresAt : ℕ)
  deriving DecidableEq, Repr

/-- The cache and the notifications made so far. -/
structure Cache where
  entries : String → Option CacheEntry
  notifies : ℕ → Notify
  nextNotify : ℕ

namespace Cache

def empty : Cache := ⟨fun _ => none, fun _ => Notify.new, 0⟩

/-- The slot of a directory is taken with a new notification. -/
def claim (cache : Cache) (dir : String) : Cache where
  entries := Function.update cache.entries dir (some (.resolving cache.nextNotify))
  notifies := cache.notifies
  nextNotify := cache.nextNotify + 1

end Cache

/-- What a finished evaluation leaves behind: an environment and a timeout are
cached, a fast failure is not. -/
def settled (fingerprint : Fingerprint) (now : ℕ) :
    Except DirenvError DirenvEnv → Option CacheEntry
  | .ok env => some (.ready env fingerprint)
  | .error (.timeout secs) =>
      some (.failed (.timeout secs) fingerprint (now + timeoutTtl))
  | .error _ => none

/-- The result is stored and the waiters are notified. -/
def Cache.store (cache : Cache) (dir : String) (fingerprint : Fingerprint)
    (notify now : ℕ) (result : Except DirenvError DirenvEnv) : Cache where
  entries := Function.update cache.entries dir (settled fingerprint now result)
  notifies := Function.update cache.notifies notify
    (cache.notifies notify).notifyWaiters
  nextNotify := cache.nextNotify

/-- What a look at the cache says. -/
inductive Lookup where
  | hit (result : Except DirenvError DirenvEnv)
  | resolving (notify : ℕ)
  | miss

/-- Both looks, under the read lock and under the write lock. -/
def lookup (fingerprint : Fingerprint) (now : ℕ) : Option CacheEntry → Lookup
  | some (.ready env cached) =>
      if cached = fingerprint then .hit (.ok env) else .miss
  | some (.failed error cached expiresAt) =>
      if cached = fingerprint ∧ now < expiresAt then .hit (.error error) else .miss
  | some (.resolving notify) => .resolving notify
  | none => .miss

/-- Where a call stands. -/
inductive Phase where
  /-- Awaits the read lock. -/
  | reading
  /-- Has given the lock back but is not registered yet. -/
  | released (notify : ℕ)
  | waiting (notify : ℕ) (notified : Notified)
  /-- Awaits the write lock to claim the slot. -/
  | writing
  | evaluating (notify : ℕ)
  /-- Awaits the write lock to store the result. -/
  | storing (notify : ℕ) (result : Except DirenvError DirenvEnv)
  | returned (result : Except DirenvError (Option DirenvEnv))
  | dropped

/-- The phase ends at an await, where the call can be dropped. -/
def Phase.awaits : Phase → Bool
  | .reading => true
  | .waiting _ _ => true
  | .writing => true
  | .evaluating _ => true
  | .storing _ _ => true
  | _ => false

structure Call where
  dir : String
  fingerprint : Fingerprint
  phase : Phase

inductive Action where
  | get (dir : String) (hasEnvrc : Bool) (fingerprint : Fingerprint)
  | read (now : ℕ)
  | register
  | wake
  | claim (now : ℕ)
  | evaluated (result : Except DirenvError DirenvEnv)
  | store (now : ℕ)
  | drop

/-- One action of a call that was started. -/
def advance (cache : Cache) (dir : String) (fingerprint : Fingerprint) :
    Phase → Action → Option (Cache × Phase)
  | .reading, .read now =>
      match lookup fingerprint now (cache.entries dir) with
      | .hit result => some (cache, .returned (result.map some))
      | .resolving notify => some (cache, .released notify)
      | .miss => some (cache, .writing)
  | .released notify, .register =>
      some (cache, .waiting notify (cache.notifies notify).notified)
  | .waiting notify notified, .wake =>
      if notified.isReady (cache.notifies notify) then some (cache, .reading)
      else none
  | .writing, .claim now =>
      -- Another call may have won the race for the write lock.
      match lookup fingerprint now (cache.entries dir) with
      | .hit result => some (cache, .returned (result.map some))
      | .resolving notify => some (cache, .released notify)
      | .miss => some (cache.claim dir, .evaluating cache.nextNotify)
  | .evaluating notify, .evaluated result => some (cache, .storing notify result)
  | .storing notify result, .store now =>
      some (cache.store dir fingerprint notify now result,
        .returned (result.map some))
  | phase, .drop => if phase.awaits then some (cache, .dropped) else none
  | _, _ => none

def act (cache : Cache) : Option Call → Action → Option (Cache × Call)
  | none, .get dir hasEnvrc fingerprint =>
      some (cache, ⟨dir, fingerprint,
        if hasEnvrc then .reading else .returned (.ok none)⟩)
  | some call, action =>
      (advance cache call.dir call.fingerprint call.phase action).map
        fun (cache, phase) => (cache, { call with phase })
  | none, _ => none

/-- The cache and all calls of `get`. -/
abbrev System := World Cache Call

def init : System := idle Cache.empty

def step : System → ℕ × Action → System := Tasks.step act

/-! ### What the calls are to one another -/

/-- The call has claimed the slot of the directory and not given it back. -/
def Evaluates (slot : String × ℕ) (call : Call) : Prop :=
  call.dir = slot.1 ∧
    (call.phase = .evaluating slot.2 ∨ ∃ result, call.phase = .storing slot.2 result)

/-- Somebody runs the evaluation of this notification. -/
def Live (system : System) (notify : ℕ) : Prop :=
  ∃ dir, Served Evaluates system (dir, notify)

/-- Nobody is stranded. -/
structure NeverStrands (system : System) : Prop where
  /-- One evaluation of a directory at a time. -/
  once : ∀ first second firstCall secondCall dir firstNotify secondNotify,
    system.tasks first = some firstCall → system.tasks second = some secondCall →
      Evaluates (dir, firstNotify) firstCall →
      Evaluates (dir, secondNotify) secondCall → first = second
  /-- An entry in progress has its evaluator. -/
  evaluator : ∀ dir notify,
    system.shared.entries dir = some (.resolving notify) →
      Served Evaluates system (dir, notify)
  /-- Who waits for an evaluation that has ended is woken. -/
  woken : ∀ id call notify notified, system.tasks id = some call →
    call.phase = .waiting notify notified → ¬ Live system notify →
      notified.isReady (system.shared.notifies notify) = true

end Kitaebot.Tools.Direnv
