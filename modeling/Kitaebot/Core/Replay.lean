import Mathlib.Data.List.Basic

/-!
# Replaying changes with stops

Changes are picked one after the other on top of a base.  A pick that does not
apply stops the replay; content from outside then stands in for it, and the
replay goes on.
-/

namespace Kitaebot

/-- How one change is put on top of a version. -/
structure Picking (Version Content : Type) where
  /-- The change applied cleanly. -/
  pick : Version → Version → Option Version
  /-- The change with the given content in its place. -/
  resolve : Version → Version → Content → Version

namespace Picking

variable {Version Content : Type} (picking : Picking Version Content)

/-- Clean picks lead from one version and its remaining changes to another. -/
inductive Picks : Version → List Version → Version → List Version → Prop
  | stop (head : Version) (todo : List Version) : Picks head todo head todo
  | pick {head between last change : Version} {rest todo : List Version}
      (clean : picking.pick head change = some between)
      (onward : Picks between rest last todo) : Picks head (change :: rest) last todo

/-- All changes replayed, some with given contents in their place. -/
inductive Replays : Version → List Version → List Content → Version → Prop
  | done (head : Version) : Replays head [] [] head
  | pick {head between last change : Version} {rest : List Version}
      {contents : List Content} (clean : picking.pick head change = some between)
      (onward : Replays between rest contents last) :
      Replays head (change :: rest) contents last
  | resolve {head last change : Version} {content : Content} {rest : List Version}
      {contents : List Content}
      (onward : Replays (picking.resolve head change content) rest contents last) :
      Replays head (change :: rest) (content :: contents) last

/-- Going on after a stop, with the content for the change it stopped at. -/
def Resumes (head : Version) (todo : List Version) (content : Content)
    (last : Version) (rest : List Version) : Prop :=
  match todo with
  | [] => last = head ∧ rest = []
  | change :: changes =>
      picking.Picks (picking.resolve head change content) changes last rest

variable {picking} {head between last : Version} {todo rest : List Version}
  {content : Content} {contents : List Content}

theorem Picks.replays (hpicks : picking.Picks head todo between rest)
    (hreplays : picking.Replays between rest contents last) :
    picking.Replays head todo contents last := by
  induction hpicks with
  | stop => exact hreplays
  | pick clean _ ih => exact .pick clean (ih hreplays)

theorem Picks.replays_all (hpicks : picking.Picks head todo last []) :
    picking.Replays head todo [] last :=
  hpicks.replays (.done last)

/-- The contents of a resumed replay: none if nothing was left to replay. -/
theorem Resumes.replays (hresumes : picking.Resumes head todo content between rest) :
    ∃ used, (∀ value ∈ used, value = content) ∧ ∀ contents last,
      picking.Replays between rest contents last →
        picking.Replays head todo (used ++ contents) last := by
  cases todo with
  | nil =>
      obtain ⟨rfl, rfl⟩ := hresumes
      exact ⟨[], by simp, fun _ _ hreplays => hreplays⟩
  | cons change changes =>
      refine ⟨[content], by simp, fun contents last hreplays => .resolve ?_⟩
      exact Picks.replays hresumes hreplays

end Picking

end Kitaebot
