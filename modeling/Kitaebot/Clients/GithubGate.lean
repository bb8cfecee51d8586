import Kitaebot.Core.Tasks
import Kitaebot.Core.Text

/-!
# The request gate of the GitHub client

Every clone of a client goes through one gate: its lock is held across a request,
and what the request answers says when the next one may start.  A call can be
dropped wherever it waits.  Requests then never overlap, but a dropped request
leaves the gate as it found it, so the wait after it is lost.
-/

namespace Kitaebot.GithubClient

open Tasks

/-- Nanoseconds, of an instant of the monotonic clock or of a span of time. -/
abbrev Nanos := ℕ

def fromSecs (secs : ℕ) : Nanos := secs * 1000000000

/-- Minimum gap between consecutive real API requests. -/
def minRequestSpacing : Nanos := fromSecs 1

/-- Cooldown after a rate-limit response without a `Retry-After` header. -/
def rateLimitFallbackSecs : ℕ := 60

/-- A response as it came over the wire, its body read as lossy UTF-8. -/
structure RawResponse where
  status : ℕ
  body : String
  retryAfterSecs : Option ℕ
  deriving DecidableEq, Repr

/-- A 429, or a 403 with a `Retry-After` header or a rate-limit message. -/
def isRateLimited (raw : RawResponse) : Bool :=
  raw.status == 429 ||
    (raw.status == 403 &&
      (raw.retryAfterSecs.isSome || Text.contains "rate limit" raw.body.toLower))

/-- How long a rate-limited response asks to wait. -/
def mandatedWait (retryAfterSecs : Option ℕ) : Nanos :=
  fromSecs (retryAfterSecs.getD rateLimitFallbackSecs)

abbrev RequestResult := Except String RawResponse

/-- How far a finished request pushes the gate out. -/
def cooldown (spacing : Nanos) : RequestResult → Nanos
  | .ok raw => if isRateLimited raw then mandatedWait raw.retryAfterSecs else spacing
  | .error _ => spacing

/-- The status line and the headers of a response, before its body is read. -/
structure Head where
  status : ℕ
  retryAfterSecs : Option ℕ
  deriving DecidableEq, Repr

def Head.withBody (head : Head) (body : String) : RawResponse :=
  ⟨head.status, body, head.retryAfterSecs⟩

/-- Already the headers say that the response is a rate limit. -/
def Head.isRateLimited (head : Head) : Bool :=
  GithubClient.isRateLimited (head.withBody "")

/-- What the server sees of a client: a request that starts, and a response that
lets no request start before some instant. -/
inductive Seen where
  | started (instant : Nanos)
  | limited (endsAt : Nanos)
  deriving DecidableEq, Repr

/-- The gate with its lock, the clock, and what the server saw, latest first. -/
structure Gate where
  now : Nanos
  nextAllowed : Nanos
  locked : Bool
  seen : List Seen

/-- A gate that admits the next request immediately. -/
def freshGate (now : Nanos) : Gate := ⟨now, now, false, []⟩

/-- Where a call stands; before it returns, each of these is an await point. -/
inductive Phase where
  | locking
  | sleeping
  | requesting (started : Nanos)
  | reading (started arrived : Nanos) (head : Head)
  | returned (result : RequestResult)
  | dropped

/-- What a call does next: `fail` is a transport error of the request or of the
reading of the body. -/
inductive Action where
  | call
  | acquire
  | start
  | respond (head : Head)
  | fail (error : String)
  | complete (body : String)
  | drop

/-- An action, some time after the one before it. -/
structure Happening where
  elapsed : Nanos
  action : Action

namespace Gate

/-- Let time pass. -/
def wait (gate : Gate) (elapsed : Nanos) : Gate :=
  { gate with now := gate.now + elapsed }

def observe (gate : Gate) (seen : Seen) : Gate :=
  { gate with seen := seen :: gate.seen }

/-- The server answers with a rate limit, or with something else. -/
def mandate (gate : Gate) (isLimit : Bool) (retryAfterSecs : Option ℕ) : Gate :=
  if isLimit then gate.observe (.limited (gate.now + mandatedWait retryAfterSecs))
  else gate

/-- Set the gate after a request and let go of the lock. -/
def finish (gate : Gate) (spacing : Nanos) (result : RequestResult) : Gate :=
  { gate with nextAllowed := gate.now + cooldown spacing result, locked := false }

/-- The lock guard of a dropped call lets go of the lock, and that is all. -/
def unlock (gate : Gate) : Gate := { gate with locked := false }

end Gate

/-- One request through the gate, from one await point to the next. -/
def call (spacing : Nanos) (gate : Gate) : Option Phase → Action →
    Option (Gate × Phase)
  | none, .call => some (gate, .locking)
  | some .locking, .acquire =>
      if gate.locked then none else some ({ gate with locked := true }, .sleeping)
  | some .sleeping, .start =>
      if gate.nextAllowed ≤ gate.now then
        some (gate.observe (.started gate.now), .requesting gate.now)
      else none
  | some (.requesting started), .respond head =>
      some (gate.mandate head.isRateLimited head.retryAfterSecs,
        .reading started gate.now head)
  | some (.requesting _), .fail error =>
      some (gate.finish spacing (.error error), .returned (.error error))
  | some (.reading _ _ _), .fail error =>
      some (gate.finish spacing (.error error), .returned (.error error))
  | some (.reading _ _ head), .complete body =>
      let raw := head.withBody body
      some ((gate.mandate (isRateLimited raw) raw.retryAfterSecs).finish spacing
        (.ok raw), .returned (.ok raw))
  | some .locking, .drop => some (gate, .dropped)
  | some .sleeping, .drop => some (gate.unlock, .dropped)
  | some (.requesting _), .drop => some (gate.unlock, .dropped)
  | some (.reading _ _ _), .drop => some (gate.unlock, .dropped)
  | _, _ => none

def act (spacing : Nanos) (gate : Gate) (task : Option Phase)
    (happening : Happening) : Option (Gate × Phase) :=
  call spacing (gate.wait happening.elapsed) task happening.action

/-- The gate and the calls on any clones of one client. -/
abbrev System := World Gate Phase

def step (spacing : Nanos) : System → ℕ × Happening → System :=
  Tasks.step (act spacing)

def init (now : Nanos) : System := idle (freshGate now)

/-! ### What the gate promises -/

/-- The request of the call is on the wire. -/
def Phase.InFlight : Phase → Prop
  | .requesting _ | .reading _ _ _ => True
  | _ => False

/-- Requests are serial, spaced, and wait out every cooldown. -/
structure Gated (spacing : Nanos) (system : System) : Prop where
  serial : Apart (fun first second => ¬ (first.InFlight ∧ second.InFlight)) system
  spaced : system.shared.seen.Pairwise fun later earlier =>
    ∀ instant before, later = .started instant → earlier = .started before →
      before + spacing ≤ instant
  cooled : system.shared.seen.Pairwise fun later earlier =>
    ∀ instant endsAt, later = .started instant → earlier = .limited endsAt →
      endsAt ≤ instant

/-- When a call lets go of the gate at this instant without loss: it is not
dropped before the waits that its request began are over, nor does its response
end them early. -/
def LetsGo (spacing now : Nanos) : Option Phase → Action → Prop
  | some (.requesting started), .drop => started + spacing ≤ now
  | some (.reading started arrived head), .drop =>
      started + spacing ≤ now ∧
        (head.isRateLimited → arrived + mandatedWait head.retryAfterSecs ≤ now)
  | some (.reading _ arrived head), .fail _ =>
      head.isRateLimited →
        arrived + mandatedWait head.retryAfterSecs ≤ now + spacing
  | some (.reading started _ head), .complete body =>
      isRateLimited (head.withBody body) →
        started + spacing ≤ now + mandatedWait head.retryAfterSecs
  | _, _ => True

/-- The step lets go of the gate without loss. -/
def Patient (spacing : Nanos) (system : System) (event : ℕ × Happening) : Prop :=
  LetsGo spacing (system.shared.now + event.2.elapsed) (system.tasks event.1)
    event.2.action

/-! ### What the lock protects -/

/-- The call holds the lock. -/
def Phase.Holds : Phase → Prop
  | .sleeping | .requesting _ | .reading _ _ _ => True
  | _ => False

theorem Phase.InFlight.holds {phase : Phase} (hflight : phase.InFlight) :
    phase.Holds := by
  cases phase <;> trivial

/-- Until when something seen keeps the next request from starting. -/
def Seen.endsAt (spacing : Nanos) : Seen → Nanos
  | .started instant => instant + spacing
  | .limited endsAt => endsAt

/-- What the call saw of its own request and still has to set the gate for. -/
def Phase.Owes : Phase → Seen → Prop
  | .requesting started, seen => seen = .started started
  | .reading started arrived head, seen =>
      seen = .started started ∨ (head.isRateLimited = true ∧
        seen = .limited (arrived + mandatedWait head.retryAfterSecs))
  | _, _ => False

/-- Whoever passes the gate from now on is late enough for what was seen. -/
def Gate.Passed (spacing : Nanos) (gate : Gate) (seen : Seen) : Prop :=
  seen.endsAt spacing ≤ gate.nextAllowed ∨ seen.endsAt spacing ≤ gate.now

/-- The request in flight passed the gate, and what came back came by now. -/
def Phase.Past (gate : Gate) : Phase → Prop
  | .requesting started => gate.nextAllowed ≤ started ∧ started ≤ gate.now
  | .reading started arrived _ =>
      gate.nextAllowed ≤ started ∧ started ≤ arrived ∧ arrived ≤ gate.now
  | _ => True

/-- Who holds the lock alone knows of what the gate does not stand for yet. -/
def Suits (spacing : Nanos) (gate : Gate) (phase : Phase) : Prop :=
  phase.Holds → gate.locked = true ∧ phase.Past gate ∧
    ∀ seen ∈ gate.seen, phase.Owes seen ∨ gate.Passed spacing seen

/-- Each request started late enough for all that was seen before it. -/
def Late (spacing : Nanos) (seen : List Seen) : Prop :=
  seen.Pairwise fun later earlier =>
    ∀ instant, later = .started instant → earlier.endsAt spacing ≤ instant

/-- The calls and what was seen fit the gate. -/
structure Fits (spacing : Nanos) (system : System) : Prop where
  late : Late spacing system.shared.seen
  free : system.shared.locked = false →
    ∀ seen ∈ system.shared.seen, system.shared.Passed spacing seen
  suits : Each (Suits spacing) system
  apart : Apart (fun first second => ¬ (first.Holds ∧ second.Holds)) system

variable {spacing : Nanos} {system : System} {gate : Gate}

theorem Gate.Passed.wait {seen : Seen} (hpassed : gate.Passed spacing seen)
    (elapsed : Nanos) : (gate.wait elapsed).Passed spacing seen :=
  hpassed.imp_right fun hle => hle.trans (Nat.le_add_right ..)

theorem Phase.Past.wait {phase : Phase} (hpast : phase.Past gate) (elapsed : Nanos) :
    phase.Past (gate.wait elapsed) := by
  have hnow : gate.now ≤ (gate.wait elapsed).now := Nat.le_add_right ..
  cases phase with
  | requesting started => exact ⟨hpast.1, hpast.2.trans hnow⟩
  | reading started arrived head =>
      exact ⟨hpast.1, hpast.2.1, hpast.2.2.trans hnow⟩
  | _ => trivial

/-- The gate opened before the request of a call in flight. -/
theorem Phase.Past.nextAllowed_le {phase : Phase} (hpast : phase.Past gate)
    (hflight : phase.InFlight) : gate.nextAllowed ≤ gate.now := by
  cases phase with
  | requesting started => exact hpast.1.trans hpast.2
  | reading started arrived head => exact hpast.1.trans (hpast.2.1.trans hpast.2.2)
  | _ => exact hflight.elim

theorem Suits.wait {phase : Phase} (hsuits : Suits spacing gate phase)
    (elapsed : Nanos) : Suits spacing (gate.wait elapsed) phase := by
  intro hholds
  obtain ⟨hlocked, hpast, hseen⟩ := hsuits hholds
  refine ⟨hlocked, hpast.wait elapsed, ?_⟩
  intro seen hmem
  exact (hseen seen hmem).imp_right fun hpassed => hpassed.wait elapsed

/-- Time alone changes nothing. -/
theorem Fits.wait (hfits : Fits spacing system) (elapsed : Nanos) :
    Fits spacing ⟨system.shared.wait elapsed, system.tasks⟩ where
  late := hfits.late
  free hfree seen hmem := (hfits.free hfree seen hmem).wait elapsed
  suits id phase hphase := (hfits.suits id phase hphase).wait elapsed
  apart := hfits.apart

theorem Fits.of_holds (hfits : Fits spacing system) {id : ℕ} {phase : Phase}
    (hphase : system.tasks id = some phase) (hholds : phase.Holds) {other : ℕ}
    {otherPhase : Phase} (hne : other ≠ id)
    (hother : system.tasks other = some otherPhase) : ¬ otherPhase.Holds := by
  intro hheld
  exact hfits.apart other id otherPhase phase hne hother hphase ⟨hheld, hholds⟩

theorem Fits.of_unlocked (hfits : Fits spacing system)
    (hlocked : system.shared.locked = false) {other : ℕ} {phase : Phase}
    (hother : system.tasks other = some phase) : ¬ phase.Holds := by
  intro hheld
  have hlock := (hfits.suits other phase hother hheld).1
  rw [hlocked] at hlock
  exact Bool.false_ne_true hlock

/-- A call moves while no other call holds the lock. -/
theorem Fits.moved {id : ℕ} {phase : Phase}
    (hothers : ∀ other otherPhase, other ≠ id →
      system.tasks other = some otherPhase → ¬ otherPhase.Holds)
    (hlate : Late spacing gate.seen)
    (hfree : gate.locked = false → ∀ seen ∈ gate.seen, gate.Passed spacing seen)
    (hsuits : Suits spacing gate phase) :
    Fits spacing ⟨gate, Function.update system.tasks id (some phase)⟩ where
  late := hlate
  free := hfree
  suits := by
    apply each_update hsuits
    intro other otherPhase hne hother hholds
    exact absurd hholds (hothers other otherPhase hne hother)
  apart := by
    intro first second firstPhase secondPhase hne hfirst hsecond hboth
    change Function.update system.tasks id (some phase) first = _ at hfirst
    change Function.update system.tasks id (some phase) second = _ at hsecond
    rcases eq_or_ne first id with rfl | hfirstId
    · rw [Function.update_of_ne hne.symm] at hsecond
      exact hothers second secondPhase hne.symm hsecond hboth.2
    · rw [Function.update_of_ne hfirstId] at hfirst
      exact hothers first firstPhase hfirstId hfirst hboth.1

/-- A call that does not hold the lock moves, and still does not hold it. -/
theorem Fits.idled (hfits : Fits spacing system) {id : ℕ} {phase : Phase}
    (hholds : ¬ phase.Holds) :
    Fits spacing ⟨system.shared, Function.update system.tasks id (some phase)⟩ where
  late := hfits.late
  free := hfits.free
  suits := each_update (fun hheld => absurd hheld hholds)
    fun other otherPhase _ hother => hfits.suits other otherPhase hother
  apart := hfits.apart.update (fun _ _ hapart hboth => hapart hboth.symm)
    fun _ _ _ _ hboth => hholds hboth.1

/-- The call that holds the lock keeps it. -/
theorem Fits.held (hfits : Fits spacing system) {id : ℕ} {old phase : Phase}
    (hold : system.tasks id = some old) (hholds : old.Holds)
    (hlocked : gate.locked = true) (hlate : Late spacing gate.seen)
    (hpast : phase.Past gate)
    (hseen : ∀ seen ∈ gate.seen, phase.Owes seen ∨ gate.Passed spacing seen) :
    Fits spacing ⟨gate, Function.update system.tasks id (some phase)⟩ :=
  .moved (fun _ _ hne hother => hfits.of_holds hold hholds hne hother) hlate
    (fun hfree => Bool.noConfusion (hlocked.symm.trans hfree))
    fun _ => ⟨hlocked, hpast, hseen⟩

/-- The holder of the lock lets go of it. -/
theorem Fits.released (hfits : Fits spacing system) {id : ℕ} {old phase : Phase}
    (hold : system.tasks id = some old) (hholds : old.Holds)
    (hphase : ¬ phase.Holds) (hlate : Late spacing gate.seen)
    (hpassed : ∀ seen ∈ gate.seen, gate.Passed spacing seen) :
    Fits spacing ⟨gate, Function.update system.tasks id (some phase)⟩ :=
  .moved (fun _ _ hne hother => hfits.of_holds hold hholds hne hother) hlate
    (fun _ => hpassed) (fun hheld => absurd hheld hphase)

section Mandate

variable (gate) (isLimit : Bool) (retryAfterSecs : Option ℕ)

@[simp]
theorem locked_mandate :
    (gate.mandate isLimit retryAfterSecs).locked = gate.locked := by
  cases isLimit <;> rfl

@[simp]
theorem nextAllowed_mandate :
    (gate.mandate isLimit retryAfterSecs).nextAllowed = gate.nextAllowed := by
  cases isLimit <;> rfl

@[simp]
theorem now_mandate : (gate.mandate isLimit retryAfterSecs).now = gate.now := by
  cases isLimit <;> rfl

variable {gate isLimit retryAfterSecs}

/-- An announced rate limit keeps the order. -/
theorem Late.mandate (hlate : Late spacing gate.seen) :
    Late spacing (gate.mandate isLimit retryAfterSecs).seen := by
  cases isLimit with
  | false => exact hlate
  | true =>
      apply List.pairwise_cons.2 ⟨?_, hlate⟩
      intro seen _ instant hlimited
      cases hlimited

theorem mem_mandate {seen : Seen}
    (hmem : seen ∈ (gate.mandate isLimit retryAfterSecs).seen) :
    (isLimit = true ∧ seen = .limited (gate.now + mandatedWait retryAfterSecs)) ∨
      seen ∈ gate.seen := by
  cases isLimit with
  | false => exact .inr hmem
  | true => exact (List.mem_cons.1 hmem).imp_left fun heq => ⟨rfl, heq⟩

end Mandate

/-- What the headers say, the whole response says. -/
theorem Head.isRateLimited.withBody {head : Head} (hlimited : head.isRateLimited)
    (body : String) : GithubClient.isRateLimited (head.withBody body) := by
  have hempty : Text.contains "rate limit" "".toLower = false := by
    decide +kernel
  simp only [Head.isRateLimited, GithubClient.isRateLimited, Head.withBody, hempty,
    Bool.or_false, Bool.or_eq_true, Bool.and_eq_true] at hlimited ⊢
  exact hlimited.imp_right fun hforbidden => ⟨hforbidden.1, .inl hforbidden.2⟩

/-! ### What a step keeps -/

theorem fits_init (now : Nanos) : Fits spacing (init now) where
  late := .nil
  free _ _ hmem := absurd hmem List.not_mem_nil
  suits _ _ hphase := by cases hphase
  apart _ _ _ _ _ hfirst := by cases hfirst

/-- A call takes the lock. -/
theorem Fits.acquire (hfits : Fits spacing system) (id : ℕ)
    (hlocked : system.shared.locked = false) :
    Fits spacing ⟨{ system.shared with locked := true },
      Function.update system.tasks id (some .sleeping)⟩ := by
  apply Fits.moved
  · intro other otherPhase _ hother
    exact hfits.of_unlocked hlocked hother
  · exact hfits.late
  · exact fun hfree => Bool.noConfusion hfree
  · exact fun _ => ⟨rfl, trivial, fun seen hmem => .inr (hfits.free hlocked seen hmem)⟩

/-- A request starts when the gate has let it pass. -/
theorem Fits.start (hfits : Fits spacing system) {id : ℕ}
    (hold : system.tasks id = some .sleeping)
    (hallowed : system.shared.nextAllowed ≤ system.shared.now) :
    Fits spacing ⟨system.shared.observe (.started system.shared.now),
      Function.update system.tasks id (some (.requesting system.shared.now))⟩ := by
  obtain ⟨hlocked, _, hseen⟩ := hfits.suits id _ hold trivial
  have hpassed : ∀ seen ∈ system.shared.seen,
      seen.endsAt spacing ≤ system.shared.now := by
    intro seen hmem
    obtain howes | hle | hle := hseen seen hmem
    · exact howes.elim
    · exact hle.trans hallowed
    · exact hle
  apply hfits.held hold trivial
  · exact hlocked
  · apply List.pairwise_cons.2 ⟨?_, hfits.late⟩
    intro seen hmem instant heq
    cases heq
    exact hpassed seen hmem
  · exact ⟨hallowed, Nat.le_refl _⟩
  · intro seen hmem
    exact (List.mem_cons.1 hmem).imp_right fun hmem => .inr (hpassed seen hmem)

/-- The head of a response arrives. -/
theorem Fits.respond (hfits : Fits spacing system) {id : ℕ} {started : Nanos}
    (hold : system.tasks id = some (.requesting started)) (head : Head) :
    Fits spacing ⟨system.shared.mandate head.isRateLimited head.retryAfterSecs,
      Function.update system.tasks id
        (some (.reading started system.shared.now head))⟩ := by
  obtain ⟨hlocked, hpast, hseen⟩ := hfits.suits id _ hold trivial
  apply hfits.held hold trivial
  · rwa [locked_mandate]
  · exact hfits.late.mandate
  · rw [Phase.Past, nextAllowed_mandate, now_mandate]
    exact ⟨hpast.1, hpast.2, Nat.le_refl _⟩
  · intro seen hmem
    obtain ⟨hlimit, heq⟩ | hmem := mem_mandate hmem
    · exact .inl (.inr ⟨hlimit, heq⟩)
    · rw [Gate.Passed, nextAllowed_mandate, now_mandate]
      exact (hseen seen hmem).imp_left .inl

/-- A request is over, and its result sets the gate. -/
theorem Fits.finish (hfits : Fits spacing system) {id : ℕ} {old : Phase}
    (hold : system.tasks id = some old) (hflight : old.InFlight)
    {result : RequestResult} {isLimit : Bool} {retryAfterSecs : Option ℕ}
    (hlimit : isLimit = true →
      mandatedWait retryAfterSecs ≤ cooldown spacing result)
    (howed : ∀ seen, old.Owes seen →
      seen.endsAt spacing ≤ system.shared.now + cooldown spacing result) :
    Fits spacing
      ⟨(system.shared.mandate isLimit retryAfterSecs).finish spacing result,
        Function.update system.tasks id (some (.returned result))⟩ := by
  obtain ⟨_, hpast, hseen⟩ := hfits.suits id _ hold hflight.holds
  have hreturned : ¬ (Phase.returned result).Holds := fun hheld => hheld
  have hpassed : ∀ seen ∈ (system.shared.mandate isLimit retryAfterSecs).seen,
      seen.endsAt spacing ≤
        (system.shared.mandate isLimit retryAfterSecs).now +
          cooldown spacing result := by
    intro seen hmem
    rw [now_mandate]
    obtain ⟨hlimited, rfl⟩ | hmem := mem_mandate hmem
    · exact Nat.add_le_add_left (hlimit hlimited) _
    · obtain howes | hle | hle := hseen seen hmem
      · exact howed seen howes
      · exact (hle.trans (hpast.nextAllowed_le hflight)).trans (Nat.le_add_right ..)
      · exact hle.trans (Nat.le_add_right ..)
  exact hfits.released hold hflight.holds hreturned hfits.late.mandate
    fun seen hmem => .inl (hpassed seen hmem)

/-- A request ends without a response. -/
theorem Fits.fail (hfits : Fits spacing system) {id : ℕ} {old : Phase}
    (hold : system.tasks id = some old) (hflight : old.InFlight) (error : String)
    (howed : ∀ seen, old.Owes seen →
      seen.endsAt spacing ≤ system.shared.now + spacing) :
    Fits spacing ⟨system.shared.finish spacing (.error error),
      Function.update system.tasks id (some (.returned (.error error)))⟩ := by
  have hunlimited : false = true →
      mandatedWait none ≤ cooldown spacing (.error error) := by
    intro hlimit
    cases hlimit
  exact hfits.finish hold hflight hunlimited howed

/-- A call that holds the lock is dropped. -/
theorem Fits.unlock (hfits : Fits spacing system) {id : ℕ} {old : Phase}
    (hold : system.tasks id = some old) (hholds : old.Holds)
    (howed : ∀ seen, old.Owes seen → seen.endsAt spacing ≤ system.shared.now) :
    Fits spacing ⟨system.shared.unlock,
      Function.update system.tasks id (some .dropped)⟩ := by
  obtain ⟨_, _, hseen⟩ := hfits.suits id _ hold hholds
  have hdropped : ¬ Phase.dropped.Holds := fun hheld => hheld
  have hpassed : ∀ seen ∈ system.shared.seen, system.shared.Passed spacing seen := by
    intro seen hmem
    exact (hseen seen hmem).elim (fun howes => .inr (howed seen howes))
      fun hpassed => hpassed
  exact hfits.released hold hholds hdropped hfits.late hpassed

/-- The body of a response is read, and what the response says sets the gate. -/
theorem Fits.complete (hfits : Fits spacing system) {id : ℕ}
    {started arrived : Nanos} {head : Head}
    (hold : system.tasks id = some (.reading started arrived head)) (body : String)
    (hok : isRateLimited (head.withBody body) →
      started + spacing ≤ system.shared.now + mandatedWait head.retryAfterSecs) :
    Fits spacing
      ⟨(system.shared.mandate (isRateLimited (head.withBody body))
          head.retryAfterSecs).finish spacing (.ok (head.withBody body)),
        Function.update system.tasks id
          (some (.returned (.ok (head.withBody body))))⟩ := by
  obtain ⟨_, hpast, _⟩ := hfits.suits id _ hold trivial
  have hcooldown : isRateLimited (head.withBody body) →
      cooldown spacing (.ok (head.withBody body)) =
        mandatedWait head.retryAfterSecs := fun hlimited => if_pos hlimited
  apply hfits.finish hold trivial
  · exact fun hlimited => (hcooldown hlimited).ge
  · intro seen howes
    obtain rfl | ⟨hlimited, rfl⟩ := howes
    · by_cases hlimited : isRateLimited (head.withBody body)
      · rw [hcooldown hlimited]
        exact hok hlimited
      · rw [cooldown, if_neg hlimited]
        exact Nat.add_le_add_right (hpast.2.1.trans hpast.2.2) _
    · rw [hcooldown (Head.isRateLimited.withBody hlimited body)]
      exact Nat.add_le_add_right hpast.2.2 _

/-- An action that lets go of the gate without loss keeps the fit. -/
theorem Fits.call (hfits : Fits spacing system) {id : ℕ} {action : Action}
    {next : Gate} {phase : Phase}
    (hok : LetsGo spacing system.shared.now (system.tasks id) action)
    (hcall : GithubClient.call spacing system.shared (system.tasks id) action =
      some (next, phase)) :
    Fits spacing ⟨next, Function.update system.tasks id (some phase)⟩ := by
  cases hold : system.tasks id with
  | none =>
      rw [hold] at hcall
      cases action <;> cases hcall
      exact hfits.idled (fun hheld => hheld)
  | some old =>
      rw [hold] at hcall hok
      cases old with
      | locking =>
          cases action with
          | acquire =>
              rw [GithubClient.call] at hcall
              split at hcall
              · cases hcall
              · next hlocked =>
                  cases hcall
                  exact hfits.acquire id (Bool.eq_false_iff.2 hlocked)
          | drop =>
              cases hcall
              exact hfits.idled (fun hheld => hheld)
          | _ => cases hcall
      | sleeping =>
          cases action with
          | start =>
              rw [GithubClient.call] at hcall
              split at hcall
              · next hallowed =>
                  cases hcall
                  exact hfits.start hold hallowed
              · cases hcall
          | drop =>
              cases hcall
              exact hfits.unlock hold trivial fun _ howes => howes.elim
          | _ => cases hcall
      | requesting started =>
          obtain ⟨_, hpast, _⟩ := hfits.suits id _ hold trivial
          cases action with
          | respond head =>
              cases hcall
              exact hfits.respond hold head
          | fail error =>
              cases hcall
              apply hfits.fail hold trivial
              rintro seen rfl
              exact Nat.add_le_add_right hpast.2 _
          | drop =>
              cases hcall
              apply hfits.unlock hold trivial
              rintro seen rfl
              exact hok
          | _ => cases hcall
      | reading started arrived head =>
          obtain ⟨_, hpast, _⟩ := hfits.suits id _ hold trivial
          cases action with
          | fail error =>
              cases hcall
              apply hfits.fail hold trivial
              rintro seen (rfl | ⟨hlimited, rfl⟩)
              · exact Nat.add_le_add_right (hpast.2.1.trans hpast.2.2) _
              · exact hok hlimited
          | complete body =>
              cases hcall
              exact hfits.complete hold body hok
          | drop =>
              cases hcall
              apply hfits.unlock hold trivial
              rintro seen (rfl | ⟨hlimited, rfl⟩)
              · exact hok.1
              · exact hok.2 hlimited
          | _ => cases hcall
      | returned result => cases action <;> cases hcall
      | dropped => cases action <;> cases hcall

theorem fits_step (system : System) (event : ℕ × Happening)
    (hfits : Fits spacing system) (hpatient : Patient spacing system event) :
    Fits spacing (step spacing system event) :=
  step_keeps hfits fun _ _ hact =>
    (hfits.wait event.2.elapsed).call hpatient hact

/-- What fits the gate is gated. -/
theorem Fits.gated (hfits : Fits spacing system) : Gated spacing system where
  serial first second firstPhase secondPhase hne hfirst hsecond hboth :=
    hfits.apart first second firstPhase secondPhase hne hfirst hsecond
      ⟨hboth.1.holds, hboth.2.holds⟩
  spaced := hfits.late.imp fun hlate instant before hlater hearlier => by
    subst hearlier
    exact hlate instant hlater
  cooled := hfits.late.imp fun hlate instant endsAt hlater hearlier => by
    subst hearlier
    exact hlate instant hlater

/-- As long as every call lets go of the gate without loss, requests are serial,
spaced, and wait out every cooldown. -/
theorem gated_run (spacing now : Nanos) (events : List (ℕ × Happening))
    (hpatient : Run.Meets (step spacing) (Patient spacing) (init now) events) :
    Gated spacing (Run.run (step spacing) (init now) events) :=
  (Run.invariant_of_meets fits_step (fits_init now) hpatient).gated

/-- Two calls take turns, and the first waits two seconds for its response. -/
theorem gated_two_calls :
    Gated minRequestSpacing (Run.run (step minRequestSpacing) (init 0)
      [(0, ⟨0, .call⟩), (0, ⟨0, .acquire⟩), (0, ⟨0, .start⟩),
        (1, ⟨0, .call⟩), (0, ⟨fromSecs 2, .drop⟩), (1, ⟨0, .acquire⟩),
        (1, ⟨0, .start⟩)]) := by
  have hwaited : 0 + minRequestSpacing ≤ 0 + fromSecs 2 := by decide
  exact gated_run minRequestSpacing 0 _
    ⟨trivial, trivial, trivial, trivial, hwaited, trivial, trivial, trivial⟩

/-- A call that is dropped at once lets the next request start at once. -/
theorem dropped_unspaced :
    ¬ ∀ events, Gated minRequestSpacing
      (Run.run (step minRequestSpacing) (init 0) events) := by
  intro hgated
  have hspaced := (hgated [(0, ⟨0, .call⟩), (0, ⟨0, .acquire⟩), (0, ⟨0, .start⟩),
    (0, ⟨0, .drop⟩), (1, ⟨0, .call⟩), (1, ⟨0, .acquire⟩), (1, ⟨0, .start⟩)]).spaced
  have hgap : 0 + minRequestSpacing ≤ 0 :=
    List.rel_of_pairwise_cons hspaced (List.mem_singleton.2 rfl) 0 0 rfl rfl
  exact absurd hgap (by decide)

end Kitaebot.GithubClient
