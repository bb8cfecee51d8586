import Mathlib.Data.List.Flatten
import Mathlib.Data.List.Perm.Basic
import Kitaebot.Core.Run

/-!
# Replies matched by one queue

Requests are made in rounds, and replies name what they answer.  A reader that
keeps one queue of requests and gives every reply to the request at its front
needs no names, as long as each round is answered in order before the next one
is made.  The rules here say when that works: for one log of several sections,
and for all orders of the sections.
-/

namespace Kitaebot.Correlation

open Kitaebot.Run

variable {Request Reply : Type}

/-- A section begins, a round of requests is made, or a reply comes. -/
inductive Event (Request Reply : Type) where
  | start
  | ask (requests : List Request)
  | reply (reply : Reply)

/-- A request waits with the number of its round. -/
structure Pending (Request : Type) where
  round : ℕ
  request : Request

/-- The queue, the number of rounds so far, and the requests of the last round
of the section. -/
structure State (Request : Type) where
  rounds : ℕ
  queue : List (Pending Request)
  own : List Request

def initial : State Request := ⟨0, [], []⟩

def step (state : State Request) : Event Request Reply → State Request
  | .start => { state with own := [] }
  | .ask requests =>
      ⟨state.rounds + 1,
        state.queue ++ requests.map (⟨state.rounds + 1, ·⟩), requests⟩
  | .reply _ => { state with queue := state.queue.tail }

/-- What a reply is given to. -/
def charge (state : State Request) : Event Request Reply → List (Request × Reply)
  | .reply reply =>
      (state.queue.head?.map fun pending => (pending.request, reply)).toList
  | _ => []

variable (fits : Request → Reply → Prop)

/-- A reply is given to a request of the last round of its section that it fits,
and to none if it fits none of them. -/
def Rightly (state : State Request) : Event Request Reply → Prop
  | .reply reply =>
      ((∃ request ∈ state.own, fits request reply) →
        ∃ pending ∈ state.queue.head?, pending.round = state.rounds ∧
          pending.request ∈ state.own ∧ fits pending.request reply) ∧
      ((¬ ∃ request ∈ state.own, fits request reply) → state.queue = [])
  | _ => True

/-! ### Rounds -/

/-- The requests of a round and the replies up to the next one. -/
structure Round (Request Reply : Type) where
  requests : List Request
  replies : List Reply

/-- Cut a log into rounds; the first one is under way. -/
def roundsFrom (requests : List Request) (replies : List Reply) :
    List (Event Request Reply) → List (Round Request Reply)
  | [] => [⟨requests, replies⟩]
  | .start :: events => ⟨requests, replies⟩ :: roundsFrom [] [] events
  | .ask next :: events => ⟨requests, replies⟩ :: roundsFrom next [] events
  | .reply reply :: events => roundsFrom requests (replies ++ [reply]) events

/-- The reply at a position fits the request there; a surplus reply fits none. -/
def FitsAt (requests : List Request) (index : ℕ) (reply : Reply) : Prop :=
  match requests[index]? with
  | some request => fits request reply
  | none => ∀ request ∈ requests, ¬ fits request reply

namespace Round

/-- Every reply stands where its request does. -/
def InOrder (round : Round Request Reply) : Prop :=
  ∀ index reply, round.replies[index]? = some reply →
    FitsAt fits round.requests index reply

/-- No request is left over. -/
def Complete (round : Round Request Reply) : Prop :=
  round.requests.length ≤ round.replies.length

def pairs (round : Round Request Reply) : List (Request × Reply) :=
  round.requests.zip round.replies

end Round

/-- What an incomplete round leaves over waits for good: no reply may follow. -/
def Clear (first later : Round Request Reply) : Prop :=
  first.Complete ∨ later.replies = []

/-- Every round is answered in order, and completely if a reply follows it. -/
structure InStep (rounds : List (Round Request Reply)) : Prop where
  ordered : ∀ round ∈ rounds, round.InOrder fits
  clear : rounds.Pairwise Clear

variable {fits}

theorem inStep_cons {round : Round Request Reply}
    {rounds : List (Round Request Reply)} :
    InStep fits (round :: rounds) ↔
      round.InOrder fits ∧ (∀ later ∈ rounds, Clear round later) ∧
        InStep fits rounds := by
  constructor
  · rintro ⟨hordered, hclear⟩
    rw [List.forall_mem_cons] at hordered
    rw [List.pairwise_cons] at hclear
    exact ⟨hordered.1, hclear.1, hordered.2, hclear.2⟩
  · rintro ⟨hround, hlater, hordered, hclear⟩
    exact ⟨List.forall_mem_cons.2 ⟨hround, hordered⟩,
      List.pairwise_cons.2 ⟨hlater, hclear⟩⟩

/-- Rounds without replies are in step. -/
theorem inStep_of_silent {rounds : List (Round Request Reply)}
    (hsilent : ∀ round ∈ rounds, round.replies = []) : InStep fits rounds where
  ordered round hmem index reply hreply := by
    rw [hsilent round hmem] at hreply
    simp at hreply
  clear := List.pairwise_of_forall_mem_list fun _ _ later hmem =>
    .inr (hsilent later hmem)

theorem fitsAt_iff {requests : List Request} {index : ℕ} {reply : Reply} :
    FitsAt fits requests index reply ↔
      (∀ request, requests[index]? = some request → fits request reply) ∧
        (requests[index]? = none → ∀ request ∈ requests, ¬ fits request reply) := by
  rw [FitsAt]
  cases requests[index]? with
  | none => simp
  | some request => simp

theorem inOrder_append {requests : List Request} {replies : List Reply}
    {reply : Reply} :
    (⟨requests, replies ++ [reply]⟩ : Round Request Reply).InOrder fits ↔
      (⟨requests, replies⟩ : Round Request Reply).InOrder fits ∧
        FitsAt fits requests replies.length reply := by
  constructor
  · intro hall
    refine ⟨fun index other hother => hall index other ?_,
      hall replies.length reply (by simp)⟩
    obtain ⟨hlt, -⟩ := List.getElem?_eq_some_iff.1 hother
    rwa [List.getElem?_append_left hlt]
  · rintro ⟨hall, hlast⟩ index other hother
    rcases Nat.lt_trichotomy index replies.length with hlt | rfl | hgt
    · rw [List.getElem?_append_left hlt] at hother
      exact hall index other hother
    · simp only [List.getElem?_concat_length, Option.some.injEq] at hother
      exact hother ▸ hlast
    · simp [List.getElem?_eq_none (l := replies ++ [reply]) (i := index)
        (by simp; omega)] at hother

/-- The round under way keeps its replies at the front. -/
theorem roundsFrom_head (requests : List Request) (replies : List Reply)
    (events : List (Event Request Reply)) :
    ∃ more rest, roundsFrom requests replies events =
      ⟨requests, replies ++ more⟩ :: rest := by
  induction events generalizing replies with
  | nil => exact ⟨[], [], by rw [roundsFrom, List.append_nil]⟩
  | cons event events ih =>
      cases event with
      | start => exact ⟨[], _, by rw [roundsFrom, List.append_nil]⟩
      | ask next => exact ⟨[], _, by rw [roundsFrom, List.append_nil]⟩
      | reply reply =>
          obtain ⟨more, rest, hrounds⟩ := ih (replies ++ [reply])
          refine ⟨reply :: more, rest, ?_⟩
          rw [roundsFrom, hrounds, List.append_assoc, List.singleton_append]

/-! ### One log -/

/-- All that waits is what the round under way has not answered yet. -/
structure Fresh (state : State Request) (requests : List Request)
    (replies : List Reply) : Prop where
  own : state.own = requests
  queue : state.queue =
    (requests.drop replies.length).map (⟨state.rounds, ·⟩)

/-- The queue is headed by a request of an earlier round or section. -/
structure Stale (state : State Request) (head : Pending Request)
    (rest : List (Pending Request)) : Prop where
  queue : state.queue = head :: rest
  le : head.round ≤ state.rounds
  old : head.round = state.rounds → state.own = []

theorem Stale.stays {state : State Request} {head : Pending Request}
    {rest : List (Pending Request)} (hstale : Stale state head rest)
    {event : Event Request Reply} (hevent : ∀ reply, event ≠ .reply reply) :
    ∃ rest, Stale (step state event) head rest := by
  cases event with
  | start => exact ⟨rest, hstale.queue, hstale.le, fun _ => rfl⟩
  | ask requests =>
      refine ⟨rest ++ requests.map (⟨state.rounds + 1, ·⟩), ?_,
        Nat.le_succ_of_le hstale.le, fun hround => ?_⟩
      · rw [step, hstale.queue, List.cons_append]
      · have hle := hstale.le
        rw [hround, step] at hle
        exact absurd hle (Nat.not_succ_le_self _)
  | reply reply => exact absurd rfl (hevent reply)

/-- Behind a stale request no reply is given rightly. -/
theorem Stale.not_rightly {state : State Request} {head : Pending Request}
    {rest : List (Pending Request)} (hstale : Stale state head rest)
    (reply : Reply) : ¬ Rightly fits state (.reply reply) := by
  rintro ⟨hfits, hnone⟩
  by_cases hown : ∃ request ∈ state.own, fits request reply
  · obtain ⟨pending, hpending, hround, hmem, -⟩ := hfits hown
    rw [hstale.queue, List.head?_cons, Option.mem_some_iff] at hpending
    subst hpending
    rw [hstale.old hround] at hmem
    cases hmem
  · rw [hstale.queue] at hnone
    exact absurd (hnone hown) (List.cons_ne_nil _ _)

theorem Stale.meets_iff {state : State Request} {head : Pending Request}
    {rest : List (Pending Request)} (hstale : Stale state head rest)
    (requests : List Request) (events : List (Event Request Reply)) :
    Meets step (Rightly fits) state events ↔
      ∀ round ∈ roundsFrom requests [] events, round.replies = [] := by
  induction events generalizing state rest requests with
  | nil => simp [roundsFrom]
  | cons event events ih =>
      have hnext (hevent : ∀ reply, event ≠ .reply reply)
          (next : List Request) :
          Meets step (Rightly fits) (step state event) events ↔
            ∀ round ∈ roundsFrom next [] events, round.replies = [] := by
        obtain ⟨rest', hstale'⟩ := hstale.stays hevent
        exact ih hstale' next
      cases event with
      | start =>
          rw [meets_cons, hnext (fun _ hreply => by cases hreply) [], roundsFrom,
            List.forall_mem_cons]
          exact ⟨fun hall => ⟨rfl, hall.2⟩, fun hall => ⟨trivial, hall.2⟩⟩
      | ask next =>
          rw [meets_cons, hnext (fun _ hreply => by cases hreply) next, roundsFrom,
            List.forall_mem_cons]
          exact ⟨fun hall => ⟨rfl, hall.2⟩, fun hall => ⟨trivial, hall.2⟩⟩
      | reply reply =>
          rw [meets_cons]
          refine iff_of_false (fun hboth => hstale.not_rightly reply hboth.1) ?_
          intro hall
          obtain ⟨more, others, hrounds⟩ :=
            roundsFrom_head requests ([] ++ [reply]) events
          rw [roundsFrom, hrounds] at hall
          have hhead := hall _ List.mem_cons_self
          simp at hhead

/-- The next reply is given rightly iff it stands where its request does. -/
theorem Fresh.rightly_iff {state : State Request} {requests : List Request}
    {replies : List Reply} (hfresh : Fresh state requests replies) (reply : Reply) :
    Rightly fits state (.reply reply) ↔
      FitsAt fits requests replies.length reply := by
  have hhead : state.queue.head? =
      requests[replies.length]?.map (⟨state.rounds, ·⟩) := by
    rw [hfresh.queue, List.head?_map, List.head?_drop]
  rw [Rightly, hfresh.own, hhead, fitsAt_iff]
  cases hget : requests[replies.length]? with
  | some request =>
      have hmem : request ∈ requests := List.mem_of_getElem? hget
      have hne : state.queue ≠ [] := by
        intro hnil
        rw [hnil, hget] at hhead
        cases hhead
      constructor
      · rintro ⟨hfits, hnone⟩
        refine ⟨fun other hother => ?_, fun hbad => by cases hbad⟩
        obtain rfl := Option.some.inj hother
        by_cases hown : ∃ request ∈ requests, fits request reply
        · obtain ⟨pending, hpending, -, -, hfit⟩ := hfits hown
          obtain rfl := Option.some.inj hpending
          exact hfit
        · exact absurd (hnone hown) hne
      · rintro ⟨hfit, -⟩
        have hfit := hfit request rfl
        exact ⟨fun _ => ⟨_, rfl, rfl, hmem, hfit⟩,
          fun hnone => absurd ⟨request, hmem, hfit⟩ hnone⟩
  | none =>
      have hnil : state.queue = [] := by
        rw [hget] at hhead
        exact List.head?_eq_none_iff.1 hhead
      constructor
      · rintro ⟨hfits, -⟩
        refine ⟨fun request hrequest => by (cases hrequest), fun _ request hmem hfit => ?_⟩
        obtain ⟨pending, hpending, -⟩ := hfits ⟨request, hmem, hfit⟩
        cases hpending
      · rintro ⟨-, hnone⟩
        refine ⟨fun ⟨request, hmem, hfit⟩ => ?_, fun _ => hnil⟩
        exact absurd hfit (hnone rfl request hmem)

theorem Fresh.reply {state : State Request} {requests : List Request}
    {replies : List Reply} (hfresh : Fresh state requests replies) (reply : Reply) :
    Fresh (step state (.reply reply)) requests (replies ++ [reply]) where
  own := hfresh.own
  queue := by
    rw [step, hfresh.queue, ← List.map_tail, List.tail_drop, List.length_append,
      List.length_singleton]

/-- Where a round ends, either all is answered or its rest goes stale. -/
theorem Fresh.close {state : State Request} {requests : List Request}
    {replies : List Reply} (hfresh : Fresh state requests replies) :
    (⟨requests, replies⟩ : Round Request Reply).Complete ∧ state.queue = [] ∨
      ¬ (⟨requests, replies⟩ : Round Request Reply).Complete ∧ ∃ request rest,
        state.queue = ⟨state.rounds, request⟩ :: rest := by
  rw [hfresh.queue, Round.Complete]
  by_cases hcomplete : requests.length ≤ replies.length
  · refine .inl ⟨hcomplete, ?_⟩
    rw [List.drop_eq_nil_of_le hcomplete, List.map_nil]
  · refine .inr ⟨hcomplete, ?_⟩
    cases hdrop : requests.drop replies.length with
    | nil => exact absurd (List.drop_eq_nil_iff.1 hdrop) hcomplete
    | cons request rest => exact ⟨request, _, rfl⟩

/-- A log is read rightly exactly when its rounds are in step. -/
theorem Fresh.meets_iff {state : State Request} {requests : List Request}
    {replies : List Reply} (hfresh : Fresh state requests replies)
    (hordered : (⟨requests, replies⟩ : Round Request Reply).InOrder fits)
    (events : List (Event Request Reply)) :
    Meets step (Rightly fits) state events ↔
      InStep fits (roundsFrom requests replies events) := by
  induction events generalizing state requests replies with
  | nil =>
      rw [roundsFrom]
      refine iff_of_true trivial ⟨?_, List.pairwise_singleton _ _⟩
      exact List.forall_mem_singleton.2 hordered
  | cons event events ih =>
      -- The round under way ends, and one with these requests begins.
      have hclose (next : List Request) (hnext : ∀ reply, event ≠ .reply reply)
          (hfreshNext : state.queue = [] → Fresh (step state event) next
            ([] : List Reply))
          (hstaleNext : ∀ request rest,
            state.queue = ⟨state.rounds, request⟩ :: rest →
              ∃ rest, Stale (step state event) ⟨state.rounds, request⟩ rest) :
          Meets step (Rightly fits) (step state event) events ↔
            InStep fits (⟨requests, replies⟩ :: roundsFrom next [] events) := by
        rw [inStep_cons, and_iff_right hordered]
        have hempty : (⟨next, []⟩ : Round Request Reply).InOrder fits := by
          intro index reply hreply
          simp at hreply
        rcases hfresh.close with
          ⟨hcomplete, hnil⟩ | ⟨hincomplete, request, rest, hqueue⟩
        · rw [ih (hfreshNext hnil) hempty]
          exact (and_iff_right fun _ _ => .inl hcomplete).symm
        · obtain ⟨rest', hstale⟩ := hstaleNext request rest hqueue
          rw [hstale.meets_iff next]
          constructor
          · exact fun hsilent => ⟨fun later hmem => .inr (hsilent later hmem),
              inStep_of_silent hsilent⟩
          · rintro ⟨hclear, -⟩ later hmem
            exact (hclear later hmem).resolve_left hincomplete
      cases event with
      | start =>
          rw [meets_cons, and_iff_right (show Rightly fits state .start from trivial),
            roundsFrom]
          refine hclose [] (fun _ hreply => by cases hreply) (fun hnil => ⟨rfl, hnil⟩) ?_
          exact fun request rest hqueue => ⟨rest, hqueue, Nat.le_refl _, fun _ => rfl⟩
      | ask next =>
          rw [meets_cons,
            and_iff_right (show Rightly fits state (.ask next) from trivial),
            roundsFrom]
          refine hclose next (fun _ hreply => by cases hreply)
            (fun hnil => ⟨rfl, by rw [step, hnil]; rfl⟩) fun request rest hqueue => ?_
          refine ⟨rest ++ next.map (⟨state.rounds + 1, ·⟩), ?_, Nat.le_succ _,
            fun hround => absurd hround (Nat.ne_of_lt (Nat.lt_succ_self _))⟩
          rw [step, hqueue, List.cons_append]
      | reply reply =>
          rw [meets_cons, roundsFrom, hfresh.rightly_iff]
          by_cases hfit : FitsAt fits requests replies.length reply
          · rw [and_iff_right hfit]
            exact ih (hfresh.reply reply) (inOrder_append.2 ⟨hordered, hfit⟩)
          · refine iff_of_false (fun hboth => hfit hboth.1) fun hstep => hfit ?_
            obtain ⟨more, rest, hrounds⟩ :=
              roundsFrom_head requests (replies ++ [reply]) events
            rw [hrounds, inStep_cons] at hstep
            have hhead := hstep.1 replies.length reply (by simp)
            exact hhead

/-! ### What is charged -/

theorem Stale.charges {state : State Request} {head : Pending Request}
    {rest : List (Pending Request)} (hstale : Stale state head rest)
    {requests : List Request} {events : List (Event Request Reply)}
    (hsilent : ∀ round ∈ roundsFrom requests [] events, round.replies = []) :
    collect step charge state events = [] := by
  induction events generalizing state rest requests with
  | nil => rfl
  | cons event events ih =>
      have hnext (next : List Request) (hevent : ∀ reply, event ≠ .reply reply)
          (hrounds : ∀ round ∈ roundsFrom next [] events, round.replies = []) :
          collect step charge (step state event) events = [] := by
        obtain ⟨rest', hstale'⟩ := hstale.stays hevent
        exact ih hstale' hrounds
      cases event with
      | start =>
          rw [roundsFrom, List.forall_mem_cons] at hsilent
          rw [collect_cons, hnext [] (fun _ hreply => by cases hreply) hsilent.2]
          rfl
      | ask next =>
          rw [roundsFrom, List.forall_mem_cons] at hsilent
          rw [collect_cons, hnext next (fun _ hreply => by cases hreply) hsilent.2]
          rfl
      | reply reply =>
          obtain ⟨more, others, hrounds⟩ :=
            roundsFrom_head requests ([] ++ [reply]) events
          rw [roundsFrom, hrounds] at hsilent
          have hhead := hsilent _ List.mem_cons_self
          simp at hhead

theorem pairs_of_silent {rounds : List (Round Request Reply)}
    (hsilent : ∀ round ∈ rounds, round.replies = []) :
    rounds.flatMap Round.pairs = [] := by
  rw [List.flatMap_eq_nil_iff]
  intro round hmem
  rw [Round.pairs, hsilent round hmem, List.zip_nil_right]

theorem zip_concat (requests : List Request) (replies : List Reply) (reply : Reply) :
    requests.zip (replies ++ [reply]) = requests.zip replies ++
      (requests[replies.length]?.map fun request => (request, reply)).toList := by
  induction replies generalizing requests with
  | nil => cases requests <;> simp
  | cons first replies ih =>
      cases requests with
      | nil => rfl
      | cons request requests =>
          rw [List.cons_append, List.zip_cons_cons, ih, List.zip_cons_cons,
            List.length_cons, List.getElem?_cons_succ, List.cons_append]

/-- In step, the charges are the requests of each round with the replies at
their places. -/
theorem Fresh.charges {state : State Request} {requests : List Request}
    {replies : List Reply} (hfresh : Fresh state requests replies)
    {events : List (Event Request Reply)}
    (hstep : InStep fits (roundsFrom requests replies events)) :
    requests.zip replies ++ collect step charge state events =
      (roundsFrom requests replies events).flatMap Round.pairs := by
  induction events generalizing state requests replies with
  | nil => simp [roundsFrom, Round.pairs]
  | cons event events ih =>
      have hclose (next : List Request)
          (hstep : InStep fits (⟨requests, replies⟩ :: roundsFrom next [] events))
          (hfreshNext : state.queue = [] → Fresh (step state event) next
            ([] : List Reply))
          (hstaleNext : ∀ request rest,
            state.queue = ⟨state.rounds, request⟩ :: rest →
              ∃ rest, Stale (step state event) ⟨state.rounds, request⟩ rest) :
          collect step charge (step state event) events =
            (roundsFrom next [] events).flatMap Round.pairs := by
        obtain ⟨-, hclear, hrest⟩ := inStep_cons.1 hstep
        rcases hfresh.close with
          ⟨hcomplete, hnil⟩ | ⟨hincomplete, request, rest, hqueue⟩
        · rw [← ih (hfreshNext hnil) hrest, List.zip_nil_right, List.nil_append]
        · obtain ⟨rest', hstale⟩ := hstaleNext request rest hqueue
          have hsilent (later : Round Request Reply)
              (hmem : later ∈ roundsFrom next [] events) : later.replies = [] :=
            (hclear later hmem).resolve_left hincomplete
          rw [hstale.charges hsilent, pairs_of_silent hsilent]
      cases event with
      | start =>
          rw [roundsFrom] at hstep ⊢
          rw [collect_cons, List.flatMap_cons, hclose [] hstep
            (fun hnil => ⟨rfl, hnil⟩)
            fun request rest hqueue =>
              ⟨rest, hqueue, Nat.le_refl _, fun _ => rfl⟩]
          rfl
      | ask next =>
          rw [roundsFrom] at hstep ⊢
          rw [collect_cons, List.flatMap_cons, hclose next hstep
            (fun hnil => ⟨rfl, by rw [step, hnil]; rfl⟩)
            fun request rest hqueue =>
              ⟨rest ++ next.map (⟨state.rounds + 1, ·⟩),
                by rw [step, hqueue, List.cons_append], Nat.le_succ _,
                fun hround =>
                  absurd hround (Nat.ne_of_lt (Nat.lt_succ_self _))⟩]
          rfl
      | reply reply =>
          rw [roundsFrom] at hstep ⊢
          rw [← ih (hfresh.reply reply) hstep, collect_cons, ← List.append_assoc]
          congr 1
          -- The reply joins the request at its place, if there is one.
          rw [charge, hfresh.queue, List.head?_map, List.head?_drop, zip_concat,
            Option.map_map]
          rfl

/-! ### Sections in any order -/

/-- A log of sections, one after the other. -/
def log (sections : List (List (Event Request Reply))) : List (Event Request Reply) :=
  sections.flatMap (.start :: ·)

def rounds (part : List (Event Request Reply)) : List (Round Request Reply) :=
  roundsFrom [] [] part

theorem roundsFrom_append_start (requests : List Request) (replies : List Reply)
    (first second : List (Event Request Reply)) :
    roundsFrom requests replies (first ++ .start :: second) =
      roundsFrom requests replies first ++ rounds second := by
  induction first generalizing requests replies with
  | nil => rfl
  | cons event first ih =>
      cases event with
      | start => rw [List.cons_append, roundsFrom, ih, roundsFrom, List.cons_append]
      | ask next => rw [List.cons_append, roundsFrom, ih, roundsFrom, List.cons_append]
      | reply reply => rw [List.cons_append, roundsFrom, ih, roundsFrom]

theorem rounds_append_log (first : List (Event Request Reply))
    (sections : List (List (Event Request Reply))) :
    rounds (first ++ log sections) = rounds first ++ sections.flatMap rounds := by
  induction sections generalizing first with
  | nil => simp [log]
  | cons part sections ih =>
      have hlog : log (part :: sections) = .start :: (part ++ log sections) := rfl
      rw [hlog, rounds, roundsFrom_append_start, ih]
      rfl

theorem rounds_log (sections : List (List (Event Request Reply))) :
    rounds (log sections) = ⟨[], []⟩ :: sections.flatMap rounds :=
  rounds_append_log [] sections

variable (fits)

/-- Every reply of the sections, in this order, is given rightly. -/
def ReadRightly (sections : List (List (Event Request Reply))) : Prop :=
  Meets step (Rightly fits) initial (log sections)

/-- What the replies are given to, in this order. -/
def charges (sections : List (List (Event Request Reply))) : List (Request × Reply) :=
  collect step charge initial (log sections)

/-- Every section is in step, and what one of them leaves over waits behind no
reply of another. -/
structure Settled (sections : List (List (Event Request Reply))) : Prop where
  inStep : ∀ part ∈ sections, InStep fits (rounds part)
  apart : sections.Pairwise fun first second =>
    (∀ round ∈ rounds first, ∀ other ∈ rounds second, Clear round other) ∧
      ∀ round ∈ rounds second, ∀ other ∈ rounds first, Clear round other

variable {fits}

theorem fresh_initial : Fresh (initial : State Request) [] ([] : List Reply) :=
  ⟨rfl, rfl⟩

theorem inStep_log {sections : List (List (Event Request Reply))} :
    InStep fits (rounds (log sections)) ↔
      InStep fits (sections.flatMap rounds) := by
  rw [rounds_log, inStep_cons]
  constructor
  · exact fun hall => hall.2.2
  · intro hall
    refine ⟨fun index reply hreply => ?_, fun _ _ => .inl (Nat.le_refl _), hall⟩
    simp at hreply

/-- A log is read rightly exactly when its rounds are in step. -/
theorem readRightly_iff {sections : List (List (Event Request Reply))} :
    ReadRightly fits sections ↔ InStep fits (sections.flatMap rounds) := by
  have hordered : (⟨[], []⟩ : Round Request Reply).InOrder fits := by
    intro index reply hreply
    simp at hreply
  rw [ReadRightly, fresh_initial.meets_iff hordered, ← inStep_log]
  rfl

theorem inStep_flatMap {sections : List (List (Event Request Reply))} :
    InStep fits (sections.flatMap rounds) ↔
      (∀ part ∈ sections, InStep fits (rounds part)) ∧
        sections.Pairwise fun first second =>
          ∀ round ∈ rounds first, ∀ other ∈ rounds second, Clear round other := by
  constructor
  · rintro ⟨hordered, hclear⟩
    rw [List.pairwise_flatMap] at hclear
    exact ⟨fun part hpart => ⟨fun round hround => hordered round
      (List.mem_flatMap.2 ⟨part, hpart, hround⟩), hclear.1 part hpart⟩, hclear.2⟩
  · rintro ⟨hparts, hclear⟩
    refine ⟨fun round hround => ?_,
      List.pairwise_flatMap.2 ⟨fun part hpart => (hparts part hpart).clear, hclear⟩⟩
    obtain ⟨part, hpart, hround⟩ := List.mem_flatMap.1 hround
    exact (hparts part hpart).ordered round hround

theorem Settled.perm {sections order : List (List (Event Request Reply))}
    (hsettled : Settled fits sections) (horder : order.Perm sections) :
    Settled fits order where
  inStep part hpart := hsettled.inStep part (horder.subset hpart)
  apart := (horder.pairwise_iff fun hboth => ⟨hboth.2, hboth.1⟩).2 hsettled.apart

theorem Settled.inStep_rounds {sections : List (List (Event Request Reply))}
    (hsettled : Settled fits sections) :
    InStep fits (sections.flatMap rounds) :=
  inStep_flatMap.2 ⟨hsettled.inStep, hsettled.apart.imp fun hboth => hboth.1⟩

/-- Sections that are read rightly forwards and backwards are settled. -/
theorem settled_of_readRightly {sections : List (List (Event Request Reply))}
    (hforward : ReadRightly fits sections)
    (hbackward : ReadRightly fits sections.reverse) : Settled fits sections := by
  have hforward := inStep_flatMap.1 (readRightly_iff.1 hforward)
  have hbackward := inStep_flatMap.1 (readRightly_iff.1 hbackward)
  exact ⟨hforward.1, hforward.2.and (List.pairwise_reverse.1 hbackward.2)⟩

/-- Settled sections are read rightly in every order. -/
theorem Settled.readRightly {sections order : List (List (Event Request Reply))}
    (hsettled : Settled fits sections) (horder : order.Perm sections) :
    ReadRightly fits order :=
  readRightly_iff.2 (hsettled.perm horder).inStep_rounds

theorem Settled.charges_eq {sections : List (List (Event Request Reply))}
    (hsettled : Settled fits sections) :
    charges sections = (sections.flatMap rounds).flatMap Round.pairs := by
  have hcharges := fresh_initial.charges (inStep_log.2 hsettled.inStep_rounds)
  rw [List.zip_nil_left, List.nil_append] at hcharges
  rw [charges, hcharges, ← List.nil_append (List.flatMap _ _), ← rounds,
    rounds_log, List.flatMap_cons]
  rfl

/-- Settled sections are charged the same in every order. -/
theorem Settled.charges_perm {sections order : List (List (Event Request Reply))}
    (hsettled : Settled fits sections) (horder : order.Perm sections) :
    (charges order).Perm (charges sections) := by
  rw [hsettled.charges_eq, (hsettled.perm horder).charges_eq]
  exact (horder.flatMap_right _).flatMap_right _

end Kitaebot.Correlation
