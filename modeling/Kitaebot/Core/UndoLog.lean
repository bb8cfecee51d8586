import Mathlib.Data.List.Infix

/-!
# Crashes under an undo record

A program saves its whole state, and saves it before each transaction with a
record of how to undo that transaction.  A state without such a record is
settled.  Whatever prefix of the acts a crash leaves behind, the state on disk
is the last settled one, or a transaction opened on it; if undoing a
transaction gives back the state it was opened on, recovery returns to the last
settled save.
-/

namespace Kitaebot.UndoLog

variable {State Act : Type*} (saved? : Act → Option State)

/-- What is on disk after some acts. -/
def lastSave (disk : Option State) (acts : List Act) : Option State :=
  acts.foldl (fun disk act => (saved? act).or disk) disk

@[simp]
theorem lastSave_nil (disk : Option State) : lastSave saved? disk [] = disk :=
  rfl

@[simp]
theorem lastSave_cons (disk : Option State) (act : Act) (acts : List Act) :
    lastSave saved? disk (act :: acts) =
      lastSave saved? ((saved? act).or disk) acts := rfl

theorem lastSave_append (disk : Option State) (first second : List Act) :
    lastSave saved? disk (first ++ second) =
      lastSave saved? (lastSave saved? disk first) second :=
  List.foldl_append

variable (settled : State → Bool)

/-- The last settled state that was saved, or the one before the acts. -/
def lastSettled (state : State) (acts : List Act) : State :=
  acts.foldl (fun state act => ((saved? act).filter settled).getD state) state

@[simp]
theorem lastSettled_nil (state : State) :
    lastSettled saved? settled state [] = state := rfl

@[simp]
theorem lastSettled_cons (state : State) (act : Act) (acts : List Act) :
    lastSettled saved? settled state (act :: acts) =
      lastSettled saved? settled (((saved? act).filter settled).getD state)
        acts := rfl

theorem settled_lastSettled {state : State} (hstate : settled state = true)
    (acts : List Act) :
    settled (lastSettled saved? settled state acts) = true := by
  induction acts generalizing state with
  | nil => exact hstate
  | cons act acts ih =>
      rw [lastSettled_cons]
      apply ih
      cases hfilter : (saved? act).filter settled with
      | none => exact hstate
      | some next => exact (Option.filter_eq_some_iff.1 hfilter).2

/-- The last save that closed a transaction, or the state before the acts. -/
def lastClosed (closed : State) (opened : Bool) : List Act → State
  | [] => closed
  | act :: acts =>
      match saved? act with
      | none => lastClosed closed opened acts
      | some next =>
          if settled next then
            lastClosed (if opened then next else closed) false acts
          else lastClosed closed true acts

/-- Where nothing was saved, the state before the acts stands. -/
theorem lastSettled_of_lastSave_none {disk : Option State} {acts : List Act}
    (hnone : lastSave saved? disk acts = none) (state : State) :
    disk = none ∧ lastSettled saved? settled state acts = state := by
  induction acts generalizing disk with
  | nil => exact ⟨hnone, rfl⟩
  | cons act acts ih =>
      obtain ⟨hdisk, hrest⟩ := ih hnone
      rw [Option.or_eq_none_iff] at hdisk
      rw [lastSettled_cons, hdisk.1]
      exact ⟨hdisk.2, hrest⟩

/-- The acts of a program that opens a transaction with one save, works on it
and closes it with another.  Between transactions it may save settled states. -/
inductive Journal (quiet : State → State → Prop)
    (opens : State → State → Act → Prop) : State → List Act → State → Prop
  | done (state : State) : Journal quiet opens state [] state
  | other {state final : State} {act : Act} {acts : List Act}
      (hact : saved? act = none)
      (hrest : Journal quiet opens state acts final) :
      Journal quiet opens state (act :: acts) final
  | save {state next final : State} {act : Act} {acts : List Act}
      (hact : saved? act = some next) (hnext : settled next = true)
      (hquiet : quiet state next)
      (hrest : Journal quiet opens next acts final) :
      Journal quiet opens state (act :: acts) final
  | transaction {state opened closed final : State} {opening work closing : Act}
      {acts : List Act}
      (hopening : saved? opening = some opened) (hopened : settled opened = false)
      (hopens : opens state opened work)
      (hwork : saved? work = none)
      (hclosing : saved? closing = some closed) (hclosed : settled closed = true)
      (hrest : Journal quiet opens closed acts final) :
      Journal quiet opens state (opening :: work :: closing :: acts) final

namespace Journal

variable {saved?} {settled}
  {quiet : State → State → Prop} {opens : State → State → Act → Prop}
  {state mid final : State} {acts first second : List Act}

theorem append (hfirst : Journal saved? settled quiet opens state first mid)
    (hsecond : Journal saved? settled quiet opens mid second final) :
    Journal saved? settled quiet opens state (first ++ second) final := by
  induction hfirst with
  | done state => exact hsecond
  | other hact _ ih => exact .other hact (ih hsecond)
  | save hact hnext hquiet _ ih => exact .save hact hnext hquiet (ih hsecond)
  | transaction hopening hopened hopens hwork hclosing hclosed _ ih =>
      exact .transaction hopening hopened hopens hwork hclosing hclosed
        (ih hsecond)

/-- A journal that starts settled ends so. -/
theorem settled_final
    (hjournal : Journal saved? settled quiet opens state acts final)
    (hstate : settled state = true) : settled final = true := by
  induction hjournal with
  | done state => exact hstate
  | other _ _ ih => exact ih hstate
  | save _ hnext _ _ ih => exact ih hnext
  | transaction _ _ _ _ _ hclosed _ ih => exact ih hclosed

theorem lastSettled_final
    (hjournal : Journal saved? settled quiet opens state acts final) :
    lastSettled saved? settled state acts = final := by
  induction hjournal with
  | done state => rfl
  | other hact _ ih => rw [lastSettled_cons, hact, Option.filter_none,
      Option.getD_none, ih]
  | save hact hnext _ _ ih => rw [lastSettled_cons, hact,
      Option.filter_some_pos hnext, Option.getD_some, ih]
  | transaction hopening hopened _ hwork hclosing hclosed _ ih =>
      simp only [lastSettled_cons, hopening, hwork, hclosing,
        Option.filter_some_pos hclosed, Option.filter_none, Option.getD_some,
        Option.getD_none, ih]

/-- At its end the state in memory is the one on disk. -/
theorem lastSave_final
    (hjournal : Journal saved? settled quiet opens state acts final)
    {disk : Option State} (hdisk : ∀ known ∈ disk, known = state) :
    ∀ known ∈ lastSave saved? disk acts, known = final := by
  induction hjournal generalizing disk with
  | done state => exact hdisk
  | other hact _ ih =>
      rw [lastSave_cons, hact]
      exact ih hdisk
  | save hact _ _ _ ih =>
      rw [lastSave_cons, hact]
      exact ih (by simp)
  | transaction _ _ _ hwork hclosing _ _ ih =>
      rw [lastSave_cons, lastSave_cons, lastSave_cons, hwork, hclosing]
      exact ih (by simp)

/-- A crash after any number of acts leaves the last settled save on disk, or a
transaction opened on the state of that save. -/
theorem cut (hjournal : Journal saved? settled quiet opens state acts final)
    {disk : Option State} (hdisk : ∀ known ∈ disk, known = state) (k : ℕ) :
    (∀ known ∈ lastSave saved? disk (acts.take k),
        known = lastSettled saved? settled state (acts.take k)) ∨
      ∃ opening opened work, saved? opening = some opened ∧
        settled opened = false ∧
        lastSave saved? disk (acts.take k) = some opened ∧
        opens (lastSettled saved? settled state (acts.take k)) opened work ∧
        [opening, work] <:+: acts := by
  induction hjournal generalizing disk k with
  | done state => exact .inl (by simpa using hdisk)
  | @other state final act acts hact _ ih =>
      cases k with
      | zero => exact .inl hdisk
      | succ k =>
          rw [List.take_succ_cons, lastSave_cons, lastSettled_cons, hact]
          obtain hclean | ⟨opening, opened, work, hopening, hopened, hsaved,
            hopens, hpair⟩ := ih hdisk k
          · exact .inl hclean
          · exact .inr ⟨opening, opened, work, hopening, hopened, hsaved, hopens,
              List.infix_cons hpair⟩
  | @save state next final act acts hact hnext _ _ ih =>
      cases k with
      | zero => exact .inl hdisk
      | succ k =>
          rw [List.take_succ_cons, lastSave_cons, lastSettled_cons, hact,
            Option.filter_some_pos hnext]
          have hknown : ∀ known ∈ some next, known = next := by simp
          obtain hclean | ⟨opening, opened, work, hopening, hopened, hsaved,
            hopens, hpair⟩ := ih hknown k
          · exact .inl hclean
          · exact .inr ⟨opening, opened, work, hopening, hopened, hsaved, hopens,
              List.infix_cons hpair⟩
  | @transaction state opened closed final opening work closing acts hopening
      hopened hopens hwork hclosing hclosed _ ih =>
      have hskip : (some opened).filter settled = none := by simp [hopened]
      have hpair : [opening, work] <:+: opening :: work :: closing :: acts :=
        (List.prefix_append [opening, work] (closing :: acts)).isInfix
      match k with
      | 0 => exact .inl hdisk
      | 1 =>
          refine .inr ⟨opening, opened, work, hopening, hopened, ?_, ?_, hpair⟩
          · simp [hopening]
          · simpa [hopening, hskip] using hopens
      | 2 =>
          refine .inr ⟨opening, opened, work, hopening, hopened, ?_, ?_, hpair⟩
          · simp [hopening, hwork]
          · simpa [hopening, hskip, hwork] using hopens
      | k + 3 =>
          simp only [List.take_succ_cons, lastSave_cons, lastSettled_cons, hopening,
            hwork, hclosing, hskip, Option.filter_some_pos hclosed]
          have hknown : ∀ known ∈ some closed, known = closed := by simp
          obtain hclean | ⟨opening', opened', work', hopening', hopened', hsaved,
            hopens', hpair'⟩ := ih hknown k
          · exact .inl hclean
          · exact .inr ⟨opening', opened', work', hopening', hopened', hsaved,
              hopens', List.infix_cons (List.infix_cons (List.infix_cons hpair'))⟩

/-- The last settled save only adds what quiet saves did to the last closed
transaction. -/
theorem lastSettled_within {within : State → State → Prop}
    (hquiet : ∀ closed state next, within state closed → quiet state next →
      within next closed)
    (hrefl : ∀ state, within state state)
    (hjournal : Journal saved? settled quiet opens state acts final)
    {closed : State} (hclosed : within state closed) (k : ℕ) :
    within (lastSettled saved? settled state (acts.take k))
      (lastClosed saved? settled closed false (acts.take k)) := by
  induction hjournal generalizing closed k with
  | done state => simpa [lastClosed] using hclosed
  | @other state final act acts hact _ ih =>
      cases k with
      | zero => exact hclosed
      | succ k =>
          simp only [List.take_succ_cons, lastSettled_cons, lastClosed, hact]
          exact ih hclosed k
  | @save state next final act acts hact hnext hstep _ ih =>
      cases k with
      | zero => exact hclosed
      | succ k =>
          simp only [List.take_succ_cons, lastSettled_cons, lastClosed, hact,
            Option.filter_some_pos hnext, hnext, Bool.false_eq_true, if_true,
            if_false]
          exact ih (hquiet closed state next hclosed hstep) k
  | @transaction state opened closed' final opening work closing acts hopening
      hopened hopens hwork hclosing hclosed' _ ih =>
      have hskip : (some opened).filter settled = none := by simp [hopened]
      match k with
      | 0 => exact hclosed
      | 1 => simpa [lastClosed, hopening, hopened, hskip] using hclosed
      | 2 => simpa [lastClosed, hopening, hopened, hskip, hwork] using hclosed
      | k + 3 =>
          simp only [List.take_succ_cons, lastSettled_cons, lastClosed, hopening,
            hopened, hwork, hclosing, hskip, Option.filter_some_pos hclosed',
            hclosed', Bool.false_eq_true, if_true, if_false]
          exact ih (hrefl closed') k

end Journal

end Kitaebot.UndoLog
