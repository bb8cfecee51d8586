import Mathlib.Data.Finset.Card
import Mathlib.Data.Finset.SDiff
import Mathlib.Data.List.Nodup
import Mathlib.Logic.Relation

/-!
# Depth-first traversal with a stack

A graph is walked from a stack of nodes with their levels; nodes that were seen
before are not put on the stack again.  From one root, every node that can be
reached is visited once, at a level at which a path of that length reaches it.
-/

namespace Kitaebot.Traversal

variable {Node : Type*}

/-- The nodes of a stack. -/
def nodes (entries : List (Node × ℕ)) : List Node := entries.map Prod.fst

@[simp]
theorem nodes_nil : nodes ([] : List (Node × ℕ)) = [] := rfl

@[simp]
theorem nodes_cons (entry : Node × ℕ) (entries : List (Node × ℕ)) :
    nodes (entry :: entries) = entry.1 :: nodes entries := rfl

variable [DecidableEq Node]

/-- Put the unseen nodes on the stack, the last one on top. -/
def discover (level : ℕ) :
    List Node → List (Node × ℕ) → List Node → List (Node × ℕ) × List Node
  | [], stack, seen => (stack, seen)
  | node :: rest, stack, seen =>
      if node ∈ seen then discover level rest stack seen
      else discover level rest ((node, level) :: stack) (node :: seen)

/-- The visits in order; `none` when the fuel does not last. -/
def walk (children : Node → List Node) :
    ℕ → List (Node × ℕ) → List Node → Option (List (Node × ℕ))
  | _, [], _ => some []
  | 0, _ :: _, _ => none
  | fuel + 1, (node, level) :: stack, seen =>
      let next := discover (level + 1) (children node) stack seen
      (walk children fuel next.1 next.2).map ((node, level) :: ·)

/-! ### Discovery -/

/-- The stack and the seen nodes after a discovery. -/
structure Discovered (level : ℕ) (found : List Node)
    (stack : List (Node × ℕ)) (seen : List Node)
    (after : List (Node × ℕ) × List Node) : Prop where
  fresh : ∃ fresh : List Node, after.1 = fresh.map (·, level) ++ stack ∧
    fresh.Nodup ∧ (∀ node ∈ fresh, node ∈ found ∧ node ∉ seen) ∧
    ∀ node, node ∈ after.2 ↔ node ∈ fresh ∨ node ∈ seen
  all : ∀ node ∈ found, node ∈ after.2

theorem discovered (level : ℕ) (found : List Node) (stack : List (Node × ℕ))
    (seen : List Node) :
    Discovered level found stack seen (discover level found stack seen) := by
  induction found generalizing stack seen with
  | nil =>
      refine ⟨⟨[], rfl, List.nodup_nil, ?_, ?_⟩, ?_⟩
      · simp
      · simp [discover]
      · simp
  | cons node rest ih =>
      rw [discover]
      split
      · next hseen =>
          obtain ⟨⟨fresh, hstack, hnodup, hfound, hafter⟩, hall⟩ := ih stack seen
          refine ⟨⟨fresh, hstack, hnodup, ?_, hafter⟩, ?_⟩
          · intro other hother
            exact ⟨List.mem_cons_of_mem _ (hfound other hother).1,
              (hfound other hother).2⟩
          · intro other hother
            rcases List.mem_cons.1 hother with rfl | hrest
            · exact (hafter other).2 (.inr hseen)
            · exact hall other hrest
      · next hseen =>
          obtain ⟨⟨fresh, hstack, hnodup, hfound, hafter⟩, hall⟩ :=
            ih ((node, level) :: stack) (node :: seen)
          refine ⟨⟨fresh ++ [node], ?_, ?_, ?_, ?_⟩, ?_⟩
          · rw [hstack, List.map_append, List.append_assoc]
            rfl
          · rw [List.nodup_append]
            refine ⟨hnodup, List.nodup_singleton node, ?_⟩
            intro first hfirst second hsecond heq
            rw [List.mem_singleton.1 hsecond] at heq
            rw [heq] at hfirst
            exact (hfound node hfirst).2 List.mem_cons_self
          · intro other hother
            rcases List.mem_append.1 hother with hold | hnew
            · have hnot := (hfound other hold).2
              rw [List.mem_cons, not_or] at hnot
              exact ⟨List.mem_cons_of_mem _ (hfound other hold).1, hnot.2⟩
            · rw [List.mem_singleton.1 hnew]
              exact ⟨List.mem_cons_self, hseen⟩
          · intro other
            rw [hafter, List.mem_cons, List.mem_append, List.mem_singleton,
              or_assoc]
          · intro other hother
            rcases List.mem_cons.1 hother with rfl | hrest
            · exact (hafter other).2 (.inr List.mem_cons_self)
            · exact hall other hrest

/-! ### Walks -/

variable {children : Node → List Node}

/-- More fuel does not change a walk. -/
theorem walk_mono {fuel more : ℕ} (hmore : fuel ≤ more)
    {stack visits : List (Node × ℕ)} {seen : List Node}
    (hwalk : walk children fuel stack seen = some visits) :
    walk children more stack seen = some visits := by
  induction fuel generalizing more stack seen visits with
  | zero =>
      cases stack with
      | nil =>
          rw [walk] at hwalk ⊢
          exact hwalk
      | cons entry stack => cases hwalk
  | succ fuel ih =>
      cases stack with
      | nil =>
          rw [walk] at hwalk ⊢
          exact hwalk
      | cons entry stack =>
          obtain ⟨more, rfl⟩ := Nat.exists_eq_add_of_lt hmore
          rw [walk] at hwalk ⊢
          obtain ⟨rest, hrest, rfl⟩ := Option.map_eq_some_iff.1 hwalk
          rw [ih (by omega) hrest]
          rfl

/-- What is put on the stack is no longer unseen. -/
theorem discover_measure {bound : Finset Node} {found : List Node}
    (hfound : ∀ child ∈ found, child ∈ bound) (level : ℕ) (stack : List (Node × ℕ))
    (seen : List Node) :
    (bound \ (discover level found stack seen).2.toFinset).card +
        (discover level found stack seen).1.length =
      (bound \ seen.toFinset).card + stack.length := by
  obtain ⟨⟨fresh, hstack, hnodup, hfresh, hafter⟩, _⟩ :=
    discovered level found stack seen
  have hsplit : bound \ seen.toFinset =
      (bound \ (discover level found stack seen).2.toFinset) ∪ fresh.toFinset := by
    ext node
    simp only [Finset.mem_sdiff, List.mem_toFinset, Finset.mem_union, hafter]
    constructor
    · intro hnode
      by_cases hnew : node ∈ fresh
      · exact .inr hnew
      · exact .inl ⟨hnode.1, fun hor => hor.elim hnew hnode.2⟩
    · rintro (hnode | hnode)
      · exact ⟨hnode.1, fun hseen => hnode.2 (.inr hseen)⟩
      · exact ⟨hfound node (hfresh node hnode).1, (hfresh node hnode).2⟩
  have hdisjoint : Disjoint (bound \ (discover level found stack seen).2.toFinset)
      fresh.toFinset := by
    rw [Finset.disjoint_left]
    intro node hnode hnew
    rw [Finset.mem_sdiff, List.mem_toFinset, hafter] at hnode
    exact hnode.2 (.inl (List.mem_toFinset.1 hnew))
  have hcard := Finset.card_union_of_disjoint hdisjoint
  rw [← hsplit, List.toFinset_card_of_nodup hnodup] at hcard
  rw [hstack, List.length_append, List.length_map]
  omega

/-- With the children in a finite set, a walk ends. -/
theorem walk_isSome {bound : Finset Node}
    (hchildren : ∀ node, ∀ child ∈ children node, child ∈ bound) {fuel : ℕ}
    {stack : List (Node × ℕ)} {seen : List Node}
    (hfuel : (bound \ seen.toFinset).card + stack.length ≤ fuel) :
    ∃ visits, walk children fuel stack seen = some visits := by
  induction fuel generalizing stack seen with
  | zero =>
      have hempty : stack = [] := List.length_eq_zero_iff.1 (by omega)
      rw [hempty]
      exact ⟨[], rfl⟩
  | succ fuel ih =>
      cases stack with
      | nil => exact ⟨[], rfl⟩
      | cons entry stack =>
          have hmeasure := discover_measure (hchildren entry.1) (entry.2 + 1) stack seen
          rw [List.length_cons] at hfuel
          obtain ⟨visits, hvisits⟩ := ih (Nat.le_trans hmeasure.le (by omega))
          rw [walk]
          exact ⟨_, by rw [hvisits]; rfl⟩

/-- What a traversal has done: the nodes that are done or on the stack were
seen, once each, and the children of what is done were seen. -/
structure Progress (children : Node → List Node) (done : List Node)
    (stack : List (Node × ℕ)) (seen : List Node) : Prop where
  distinct : (done ++ nodes stack).Nodup
  known : ∀ node, node ∈ seen ↔ node ∈ done ∨ node ∈ nodes stack
  closed : ∀ node ∈ done, ∀ child ∈ children node, child ∈ seen

theorem Progress.step {done : List Node} {node : Node} {level : ℕ}
    {stack : List (Node × ℕ)} {seen : List Node}
    (hprogress : Progress children done ((node, level) :: stack) seen) :
    Progress children (done ++ [node])
      (discover (level + 1) (children node) stack seen).1
      (discover (level + 1) (children node) stack seen).2 := by
  obtain ⟨⟨fresh, hstack, hnodup, hfound, hafter⟩, hall⟩ :=
    discovered (level + 1) (children node) stack seen
  have hnodes : nodes (discover (level + 1) (children node) stack seen).1 =
      fresh ++ nodes stack := by
    rw [hstack, nodes, List.map_append, List.map_map]
    congr 1
    exact List.map_id' fresh
  have hsplit : done ++ nodes ((node, level) :: stack) =
      done ++ [node] ++ nodes stack := by
    rw [nodes_cons, List.append_assoc]
    rfl
  constructor
  · have hold := hprogress.distinct
    rw [hsplit] at hold
    rw [hnodes, ← List.append_assoc]
    have hperm : (done ++ [node] ++ fresh ++ nodes stack).Perm
        (fresh ++ (done ++ [node] ++ nodes stack)) := by
      rw [← List.append_assoc fresh]
      exact List.perm_append_comm.append_right _
    rw [hperm.nodup_iff, List.nodup_append]
    refine ⟨hnodup, hold, ?_⟩
    intro first hfirst second hsecond heq
    apply (hfound first hfirst).2
    rw [hprogress.known, ← List.mem_append, hsplit, heq]
    exact hsecond
  · intro other
    rw [hafter, hprogress.known, hnodes]
    simp only [nodes_cons, List.mem_append, List.mem_cons, List.not_mem_nil,
      or_false]
    tauto
  · intro other hother child hchild
    rcases List.mem_append.1 hother with hdone | hnode
    · exact (hafter child).2 (.inr (hprogress.closed other hdone child hchild))
    · rw [List.mem_singleton.1 hnode] at hchild
      exact hall child hchild

omit [DecidableEq Node] in
/-- When the stack is empty, the children of what is done are done. -/
theorem Progress.finished {done seen : List Node}
    (hprogress : Progress children done [] seen) :
    ∀ node ∈ done ++ nodes [], ∀ child ∈ children node,
      child ∈ done ++ nodes [] := by
  intro node hnode child hchild
  rw [nodes_nil, List.append_nil] at hnode ⊢
  rcases (hprogress.known child).1
    (hprogress.closed node hnode child hchild) with hdone | hstack
  · exact hdone
  · cases hstack

/-- The whole walk: nothing is visited twice, everything on the stack is
visited, and so are the children of every visited node. -/
theorem Progress.walk {fuel : ℕ} {done : List Node} {stack : List (Node × ℕ)}
    {seen : List Node} (hprogress : Progress children done stack seen)
    {visits : List (Node × ℕ)}
    (hwalk : walk children fuel stack seen = some visits) :
    (done ++ nodes visits).Nodup ∧
      (∀ node ∈ nodes stack, node ∈ nodes visits) ∧
      ∀ node ∈ done ++ nodes visits, ∀ child ∈ children node,
        child ∈ done ++ nodes visits := by
  induction fuel generalizing done stack seen visits with
  | zero =>
      cases stack with
      | nil =>
          cases hwalk
          exact ⟨hprogress.distinct, fun _ hnode => hnode, hprogress.finished⟩
      | cons entry stack => cases hwalk
  | succ fuel ih =>
      cases stack with
      | nil =>
          cases hwalk
          exact ⟨hprogress.distinct, fun _ hnode => hnode, hprogress.finished⟩
      | cons entry stack =>
          obtain ⟨node, level⟩ := entry
          rw [Traversal.walk] at hwalk
          obtain ⟨rest, hrest, rfl⟩ := Option.map_eq_some_iff.1 hwalk
          have hsplit : done ++ [node] ++ nodes rest =
              done ++ nodes ((node, level) :: rest) := by
            rw [nodes_cons, List.append_assoc]
            rfl
          obtain ⟨hdistinct, hvisited, hclosed⟩ := ih hprogress.step hrest
          rw [hsplit] at hdistinct hclosed
          refine ⟨hdistinct, ?_, hclosed⟩
          intro other hother
          rw [nodes_cons] at hother ⊢
          rcases List.mem_cons.1 hother with rfl | hstack
          · exact List.mem_cons_self
          · apply List.mem_cons_of_mem
            apply hvisited
            obtain ⟨⟨fresh, hfresh, _⟩, _⟩ :=
              discovered (level + 1) (children node) stack seen
            rw [hfresh, nodes, List.map_append, List.mem_append]
            exact .inr hstack

/-- What holds of the stack and passes to children one level down holds of
every visit. -/
theorem walk_visits {good : Node → ℕ → Prop}
    (hchild : ∀ node level, good node level → ∀ child ∈ children node,
      good child (level + 1))
    {fuel : ℕ} {stack visits : List (Node × ℕ)} {seen : List Node}
    (hstack : ∀ entry ∈ stack, good entry.1 entry.2)
    (hwalk : walk children fuel stack seen = some visits) :
    ∀ entry ∈ visits, good entry.1 entry.2 := by
  induction fuel generalizing stack seen visits with
  | zero =>
      cases stack with
      | nil =>
          cases hwalk
          intro entry hentry
          cases hentry
      | cons entry stack => cases hwalk
  | succ fuel ih =>
      cases stack with
      | nil =>
          cases hwalk
          intro entry hentry
          cases hentry
      | cons entry stack =>
          rw [List.forall_mem_cons] at hstack
          rw [walk] at hwalk
          obtain ⟨rest, hrest, rfl⟩ := Option.map_eq_some_iff.1 hwalk
          obtain ⟨⟨fresh, hfresh, _, hfound, _⟩, _⟩ :=
            discovered (entry.2 + 1) (children entry.1) stack seen
          rw [List.forall_mem_cons]
          refine ⟨hstack.1, ih ?_ hrest⟩
          intro other hother
          rw [hfresh] at hother
          rcases List.mem_append.1 hother with hnew | hold
          · obtain ⟨node, hnode, rfl⟩ := List.mem_map.1 hnew
            exact hchild _ _ hstack.1 node (hfound node hnode).1
          · exact hstack.2 other hold

/-- From one root, a walk visits what can be reached, each node once. -/
theorem walk_root {fuel : ℕ} {root : Node} {visits : List (Node × ℕ)}
    (hwalk : walk children fuel [(root, 0)] [root] = some visits) :
    (nodes visits).Nodup ∧ ∀ node, node ∈ nodes visits ↔
      Relation.ReflTransGen (fun parent child => child ∈ children parent)
        root node := by
  have hstart : Progress children [] [(root, 0)] [root] := by
    constructor
    · exact List.nodup_singleton root
    · intro node
      simp
    · intro node hnode
      cases hnode
  obtain ⟨hdistinct, hvisited, hclosed⟩ := hstart.walk hwalk
  have hreached : ∀ entry ∈ visits, Relation.ReflTransGen
      (fun parent child => child ∈ children parent) root entry.1 :=
    @walk_visits Node _ children (fun node _ => Relation.ReflTransGen
      (fun parent child => child ∈ children parent) root node)
      (fun _ _ hparent _ hchild => hparent.tail hchild) fuel [(root, 0)] visits
      [root] (fun entry hentry => by rw [List.mem_singleton.1 hentry]) hwalk
  refine ⟨hdistinct, fun node => ⟨fun hnode => ?_, fun hpath => ?_⟩⟩
  · obtain ⟨entry, hentry, rfl⟩ := List.mem_map.1 hnode
    exact hreached entry hentry
  · induction hpath with
    | refl => exact hvisited root List.mem_cons_self
    | tail _ hchild ih => exact hclosed _ ih _ hchild

end Kitaebot.Traversal
