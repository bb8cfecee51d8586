import Mathlib.Tactic.TypeStar

/-!
# Dialogues with an outside system

A computation that has commands carried out and goes on with the replies.  What
the outside system does is a relation between states.  Its execution is read
backwards from the exchanges: a sequence splits its exchanges between its two
parts.
-/

namespace Kitaebot

/-- A computation that asks for commands and ends with a value or an error. -/
inductive Dialogue (Command Reply Error : Type) (Value : Type) where
  | done (value : Value)
  | fail (error : Error)
  | ask (command : Command)
      (next : Reply → Dialogue Command Reply Error Value)

/-- One command carried out, with its reply. -/
structure Exchange (State Command Reply : Type) where
  before : State
  command : Command
  reply : Reply
  after : State

namespace Dialogue

variable {State Command Reply Error Value Result : Type}

def bind : Dialogue Command Reply Error Value →
    (Value → Dialogue Command Reply Error Result) →
      Dialogue Command Reply Error Result
  | done value, next => next value
  | fail error, _ => fail error
  | ask command rest, next => ask command fun reply => (rest reply).bind next

instance : Monad (Dialogue Command Reply Error) where
  pure := done
  bind := bind

def failIf (condition : Prop) [Decidable condition] (error : Error) :
    Dialogue Command Reply Error Unit :=
  if condition then fail error else done ()

/-- The dialogue with its error as a value. -/
def attempt : Dialogue Command Reply Error Value →
    Dialogue Command Reply Error (Except Error Value)
  | done value => done (.ok value)
  | fail error => done (.error error)
  | ask command next => ask command fun reply => (next reply).attempt

/-- A dialogue played to its end against an outside system. -/
inductive Plays (does : State → Command → Reply → State → Prop) :
    Dialogue Command Reply Error Value → State →
      List (Exchange State Command Reply) → Except Error Value → State → Prop
  | done (value : Value) (state : State) :
      Plays does (.done value) state [] (.ok value) state
  | fail (error : Error) (state : State) :
      Plays does (.fail error) state [] (.error error) state
  | ask {command : Command} {next : Reply → Dialogue Command Reply Error Value}
      {state between final : State} {reply : Reply}
      {exchanges : List (Exchange State Command Reply)}
      {result : Except Error Value} (carried : does state command reply between)
      (rest : Plays does (next reply) between exchanges result final) :
      Plays does (.ask command next) state
        (⟨state, command, reply, between⟩ :: exchanges) result final

section Plays

variable {does : State → Command → Reply → State → Prop}
  {state final : State} {exchanges : List (Exchange State Command Reply)}

theorem plays_done {value : Value} {result : Except Error Value} :
    Plays does (.done value) state exchanges result final ↔
      exchanges = [] ∧ result = .ok value ∧ final = state := by
  constructor
  · intro hplays
    cases hplays
    exact ⟨rfl, rfl, rfl⟩
  · rintro ⟨rfl, rfl, rfl⟩
    exact .done value final

theorem plays_fail {error : Error} {result : Except Error Value} :
    Plays does (.fail error) state exchanges result final ↔
      exchanges = [] ∧ result = .error error ∧ final = state := by
  constructor
  · intro hplays
    cases hplays
    exact ⟨rfl, rfl, rfl⟩
  · rintro ⟨rfl, rfl, rfl⟩
    exact .fail error final

theorem plays_failIf {condition : Prop} [Decidable condition] {error : Error}
    {result : Except Error Unit} :
    Plays does (failIf condition error) state exchanges result final ↔
      exchanges = [] ∧ final = state ∧
        result = if condition then .error error else .ok () := by
  by_cases hcondition : condition
  · simp only [failIf, hcondition, if_true, plays_fail]
    grind
  · simp only [failIf, hcondition, if_false, plays_done]
    grind

theorem plays_ask {command : Command}
    {next : Reply → Dialogue Command Reply Error Value}
    {result : Except Error Value} :
    Plays does (.ask command next) state exchanges result final ↔
      ∃ reply between rest, does state command reply between ∧
        Plays does (next reply) between rest result final ∧
          exchanges = ⟨state, command, reply, between⟩ :: rest := by
  constructor
  · intro hplays
    cases hplays with
    | ask carried rest => exact ⟨_, _, _, carried, rest, rfl⟩
  · rintro ⟨reply, between, rest, carried, hrest, rfl⟩
    exact .ask carried hrest

/-- A sequence was played in two parts, or its first part failed. -/
theorem plays_bind {first : Dialogue Command Reply Error Value}
    {next : Value → Dialogue Command Reply Error Result}
    {result : Except Error Result} :
    Plays does (first >>= next) state exchanges result final ↔
      (∃ value between early late, Plays does first state early (.ok value) between ∧
          Plays does (next value) between late result final ∧
            exchanges = early ++ late) ∨
        ∃ error, Plays does first state exchanges (.error error) final ∧
          result = .error error := by
  induction first generalizing state exchanges with
  | done value =>
      change Plays does (next value) state exchanges result final ↔ _
      constructor
      · intro hplays
        exact .inl ⟨value, state, [], exchanges, .done value state, hplays, rfl⟩
      · rintro (⟨other, between, early, late, hfirst, hnext, rfl⟩ | ⟨error, hfirst, -⟩)
        · obtain ⟨rfl, hvalue, rfl⟩ := plays_done.1 hfirst
          cases hvalue
          exact hnext
        · cases (plays_done.1 hfirst).2.1
  | fail error =>
      change Plays does (.fail error) state exchanges result final ↔ _
      constructor
      · intro hplays
        obtain ⟨rfl, rfl, rfl⟩ := plays_fail.1 hplays
        exact .inr ⟨error, .fail error _, rfl⟩
      · rintro (⟨other, between, early, late, hfirst, -, -⟩ | ⟨other, hfirst, rfl⟩)
        · cases (plays_fail.1 hfirst).2.1
        · obtain ⟨rfl, herror, rfl⟩ := plays_fail.1 hfirst
          cases herror
          exact .fail error _
  | ask command rest ih =>
      change Plays does (.ask command fun reply => rest reply >>= next) state
        exchanges result final ↔ _
      rw [plays_ask]
      constructor
      · rintro ⟨reply, between, tail, carried, hplays, rfl⟩
        rcases (ih reply).1 hplays with
          ⟨value, middle, early, late, hfirst, hnext, rfl⟩ | ⟨error, hfirst, hresult⟩
        · exact .inl ⟨value, middle, _, late, .ask carried hfirst, hnext, rfl⟩
        · exact .inr ⟨error, .ask carried hfirst, hresult⟩
      · rintro (⟨value, middle, early, late, hfirst, hnext, rfl⟩ | ⟨error, hfirst, hresult⟩)
        · obtain ⟨reply, between, tail, carried, hplays, rfl⟩ := plays_ask.1 hfirst
          exact ⟨reply, between, tail ++ late, carried,
            (ih reply).2 (.inl ⟨value, middle, tail, late, hplays, hnext, rfl⟩), rfl⟩
        · obtain ⟨reply, between, tail, carried, hplays, rfl⟩ := plays_ask.1 hfirst
          exact ⟨reply, between, tail, carried,
            (ih reply).2 (.inr ⟨error, hplays, hresult⟩), rfl⟩

/-- A refusal ends the sequence, or the rest is played. -/
theorem plays_failIf_bind {condition : Prop} [Decidable condition] {error : Error}
    {next : Unit → Dialogue Command Reply Error Result}
    {result : Except Error Result} :
    Plays does (failIf condition error >>= next) state exchanges result final ↔
      (¬ condition ∧ Plays does (next ()) state exchanges result final) ∨
        condition ∧ exchanges = [] ∧ result = .error error ∧ final = state := by
  by_cases hcondition : condition
  · simp only [failIf, hcondition, if_true, not_true, false_and, false_or, true_and]
    exact plays_fail
  · simp only [failIf, hcondition, if_false, not_false_eq_true, false_and, or_false,
      true_and]
    exact Iff.rfl

theorem plays_attempt {dialogue : Dialogue Command Reply Error Value}
    {result : Except Error (Except Error Value)} :
    Plays does dialogue.attempt state exchanges result final ↔
      ∃ value, Plays does dialogue state exchanges value final ∧
        result = .ok value := by
  induction dialogue generalizing state exchanges with
  | done value =>
      rw [attempt, plays_done]
      constructor
      · rintro ⟨rfl, rfl, rfl⟩
        exact ⟨.ok value, .done value _, rfl⟩
      · rintro ⟨result, hplays, rfl⟩
        obtain ⟨rfl, rfl, rfl⟩ := plays_done.1 hplays
        exact ⟨rfl, rfl, rfl⟩
  | fail error =>
      rw [attempt, plays_done]
      constructor
      · rintro ⟨rfl, rfl, rfl⟩
        exact ⟨.error error, .fail error _, rfl⟩
      · rintro ⟨result, hplays, rfl⟩
        obtain ⟨rfl, rfl, rfl⟩ := plays_fail.1 hplays
        exact ⟨rfl, rfl, rfl⟩
  | ask command next ih =>
      rw [attempt, plays_ask]
      constructor
      · rintro ⟨reply, between, rest, carried, hrest, rfl⟩
        obtain ⟨value, hplays, rfl⟩ := (ih reply).1 hrest
        exact ⟨value, .ask carried hplays, rfl⟩
      · rintro ⟨value, hplays, rfl⟩
        obtain ⟨reply, between, rest, carried, hrest, rfl⟩ := plays_ask.1 hplays
        exact ⟨reply, between, rest, carried, (ih reply).2 ⟨value, hrest, rfl⟩, rfl⟩

/-- Every exchange of a play was carried out by the outside system. -/
theorem Plays.carried {dialogue : Dialogue Command Reply Error Value}
    {result : Except Error Value}
    (hplays : Plays does dialogue state exchanges result final) :
    ∀ exchange ∈ exchanges,
      does exchange.before exchange.command exchange.reply exchange.after := by
  induction hplays with
  | done => simp
  | fail => simp
  | ask carried rest ih =>
      intro exchange hmem
      rcases List.mem_cons.1 hmem with rfl | hmem
      · exact carried
      · exact ih exchange hmem

end Plays

/-- The dialogue played with given replies and the states they leave. -/
def replay : Dialogue Command Reply Error Value → State → List (Reply × State) →
    Option (List (Exchange State Command Reply) × Except Error Value × State)
  | done value, state, [] => some ([], .ok value, state)
  | fail error, state, [] => some ([], .error error, state)
  | ask command next, state, (reply, between) :: answers =>
      match replay (next reply) between answers with
      | some (exchanges, result, final) =>
          some (⟨state, command, reply, between⟩ :: exchanges, result, final)
      | none => none
  | _, _, _ => none

theorem plays_of_replay {does : State → Command → Reply → State → Prop}
    {dialogue : Dialogue Command Reply Error Value} {state final : State}
    {answers : List (Reply × State)}
    {exchanges : List (Exchange State Command Reply)} {result : Except Error Value}
    (hreplay : replay dialogue state answers = some (exchanges, result, final))
    (hcarried : ∀ exchange ∈ exchanges,
      does exchange.before exchange.command exchange.reply exchange.after) :
    Plays does dialogue state exchanges result final := by
  induction dialogue generalizing state answers exchanges with
  | done value =>
      cases answers with
      | nil =>
          cases hreplay
          exact .done value _
      | cons answer answers => cases hreplay
  | fail error =>
      cases answers with
      | nil =>
          cases hreplay
          exact .fail error _
      | cons answer answers => cases hreplay
  | ask command next ih =>
      cases answers with
      | nil => cases hreplay
      | cons answer answers =>
          rw [replay] at hreplay
          split at hreplay
          next rest value last hrest =>
            cases hreplay
            exact .ask (hcarried _ (List.mem_cons_self ..))
              (ih _ hrest fun exchange hmem =>
                hcarried exchange (List.mem_cons_of_mem _ hmem))
          next => cases hreplay

/-! ### Which commands a dialogue asks for -/

def Asks (allowed : Command → Prop) : Dialogue Command Reply Error Value → Prop
  | done _ => True
  | fail _ => True
  | ask command next => allowed command ∧ ∀ reply, (next reply).Asks allowed

section Asks

variable {allowed : Command → Prop}

theorem Asks.mono {weaker : Command → Prop}
    {dialogue : Dialogue Command Reply Error Value} (hasks : dialogue.Asks allowed)
    (hweaker : ∀ command, allowed command → weaker command) : dialogue.Asks weaker := by
  induction dialogue with
  | done => trivial
  | fail => trivial
  | ask command next ih =>
      exact ⟨hweaker command hasks.1, fun reply => ih reply (hasks.2 reply)⟩

theorem Asks.bind {first : Dialogue Command Reply Error Value}
    {next : Value → Dialogue Command Reply Error Result}
    (hfirst : first.Asks allowed) (hnext : ∀ value, (next value).Asks allowed) :
    (first >>= next).Asks allowed := by
  induction first with
  | done value => exact hnext value
  | fail error => exact trivial
  | ask command rest ih => exact ⟨hfirst.1, fun reply => ih reply (hfirst.2 reply)⟩

theorem Asks.failIf {condition : Prop} [Decidable condition] {error : Error} :
    (Dialogue.failIf condition error : Dialogue Command Reply Error Unit).Asks
      allowed := by
  by_cases hcondition : condition
  · simp only [Dialogue.failIf, hcondition, if_true]
    trivial
  · simp only [Dialogue.failIf, hcondition, if_false]
    trivial

theorem Asks.failIf_bind {condition : Prop} [Decidable condition] {error : Error}
    {next : Unit → Dialogue Command Reply Error Result}
    (hnext : (next ()).Asks allowed) :
    (Dialogue.failIf condition error >>= next).Asks allowed :=
  Asks.failIf.bind fun _ => hnext

variable {does : State → Command → Reply → State → Prop}
  {state final : State} {exchanges : List (Exchange State Command Reply)}
  {dialogue : Dialogue Command Reply Error Value} {result : Except Error Value}

theorem Plays.asked (hplays : Plays does dialogue state exchanges result final)
    (hasks : dialogue.Asks allowed) :
    ∀ exchange ∈ exchanges, allowed exchange.command := by
  induction hplays with
  | done => simp
  | fail => simp
  | ask carried rest ih =>
      intro exchange hmem
      rcases List.mem_cons.1 hmem with rfl | hmem
      · exact hasks.1
      · exact ih (hasks.2 _) exchange hmem

/-- What every allowed command keeps, the dialogue keeps. -/
theorem Plays.keeps {invariant : State → Prop}
    (hplays : Plays does dialogue state exchanges result final)
    (hasks : dialogue.Asks allowed)
    (hkeeps : ∀ state command reply between, allowed command →
      does state command reply between → invariant state → invariant between)
    (hstate : invariant state) : invariant final := by
  induction hplays with
  | done => exact hstate
  | fail => exact hstate
  | ask carried rest ih =>
      exact ih (hasks.2 _) (hkeeps _ _ _ _ hasks.1 carried hstate)

end Asks

end Dialogue

end Kitaebot
