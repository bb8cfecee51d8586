import Mathlib.Data.List.Nodup
import Std.Data.ExtTreeSet
import Kitaebot.Core.Text

/-!
# Ticket channels

What the two channels that work on tickets share: the brief a plan-first ticket
asks for, counting the turns about one ticket among those about all, and
filtering a thread twice.
-/

namespace Kitaebot.Channel

def planInstructions : String :=
  "Analyze the task and reply with a review-ready plan brief in markdown,\n" ++
  "written so a human can assess it in one read. Your reply is\n" ++
  "posted verbatim as a comment on the ticket — start directly with the\n" ++
  "plan: no preamble, no narration. Never post the plan to the ticket\n" ++
  "yourself; replying is the posting, and a tool-posted copy duplicates\n" ++
  "the thread.\n" ++
  "\n" ++
  "Every plan has these:\n" ++
  "\n" ++
  "- A title line stating the change in one sentence, then `Scope:`\n" ++
  "  naming what is touched and, just as deliberately, what is not.\n" ++
  "- **Summary** — the problem and the approach in two short paragraphs,\n" ++
  "  leading with why the current behavior is wrong.\n" ++
  "- **Decisions** — the load-bearing choices, each naming the\n" ++
  "  alternative actually considered and why it lost. \"We considered X\n" ++
  "  and rejected it because…\" is the most valuable sentence in a plan;\n" ++
  "  a decision with no alternative named is an assumption in a costume.\n" ++
  "- **Assumptions** — what you take as true without proving it, stated\n" ++
  "  so a reviewer can spot a bad one without reading any code.\n" ++
  "- **Open questions** — what you need answered, each concrete enough\n" ++
  "  to answer in a sentence. When there are none, say so in one line.\n" ++
  "- **Implementation notes** — always present and always the plan's\n" ++
  "  final section, addressed to the executing turn, which may run on a\n" ++
  "  weaker model than the one planning: reviewers can stop reading\n" ++
  "  above this line. Pointers and constraints, never a script — a\n" ++
  "  step-by-step written before touching the code is wrong in detail,\n" ++
  "  and scripts get followed off cliffs. Name the files and seams each\n" ++
  "  piece touches, the command that proves each piece works, the\n" ++
  "  ordering constraints you dug for, and the landmines you already\n" ++
  "  spotted (a lint that will fire, a test that must move, a fence that\n" ++
  "  must not). For each piece, state the behaviors its tests must pin —\n" ++
  "  observable outcomes and the edge cases you already found, never\n" ++
  "  test code — so the tests assert what the plan intends rather than\n" ++
  "  mirroring whatever the implementation happens to do.\n" ++
  "\n" ++
  "The rest exist only when the task earns them — an empty or\n" ++
  "one-obvious-sentence section is noise that buries the sections that\n" ++
  "matter, so omit it without comment:\n" ++
  "\n" ++
  "- **What we are consciously accepting** — only when the design takes\n" ++
  "  on real risk, coupling, or compromise: each with why it is\n" ++
  "  acceptable and what bounds it. The reviewer must meet the sharp\n" ++
  "  edges here, not discover them later.\n" ++
  "- **How it works** — only when a flow or protocol is involved: a\n" ++
  "  `mermaid` sequenceDiagram of the happy path and the failure\n" ++
  "  fallback. Skip when prose is shorter.\n" ++
  "- **What needs to be built** — only when the work is more than a\n" ++
  "  couple of pieces: independently shippable pieces in dependency\n" ++
  "  order, a `mermaid` flowchart when the graph is not a straight line,\n" ++
  "  and a note on what is inert until the last piece lands. Never a\n" ++
  "  commit-by-commit script; the commits are re-derived at execution\n" ++
  "  time. Record sequencing detail only where re-deriving it would be\n" ++
  "  expensive — an ordering constraint you had to dig for.\n" ++
  "- **Kill switch / rollback** — only for changes that alter live\n" ++
  "  behavior: the shortest way back.\n" ++
  "- **Out of scope (recorded, not built)** — only when you actually\n" ++
  "  noticed adjacent work and declined it, one line each.\n" ++
  "- **Needs your call** — only when you are escalating a fork no\n" ++
  "  precedent settles, and then it goes FIRST, above the title. Frame it\n" ++
  "  as a closed question: two to four mutually exclusive options, each a\n" ++
  "  bold label and a one-line trade-off, your recommendation first and\n" ++
  "  marked \"(recommended)\". End with \"Reply with a label, or tell me\n" ++
  "  something better.\" A fork you cannot phrase as options is not ready\n" ++
  "  to escalate — constructing the choices is how you find out whether\n" ++
  "  the fork is real.\n" ++
  "\n" ++
  "Do not implement anything yet.\n"

theorem mem_foldl_insert {α : Type} (key : α → String) {elements : List α}
    {keys : Std.ExtTreeSet String} {wanted : String} :
    wanted ∈ elements.foldl (fun keys element => keys.insert (key element)) keys ↔
      wanted ∈ keys ∨ wanted ∈ elements.map key := by
  induction elements generalizing keys with
  | nil => simp
  | cons element elements ih =>
      rw [List.foldl_cons, ih, Std.ExtTreeSet.mem_insert, compare_eq_iff_eq,
        List.map_cons, List.mem_cons, eq_comm, or_assoc]
      exact or_left_comm

/-- If no other element contributes, a count over all is the count over one. -/
theorem countP_flatMap_eq {α β κ : Type} {key : α → κ} {f : α → List β}
    {p : β → Bool} {elements : List α} (hdistinct : (elements.map key).Nodup)
    {element : α} (hmem : element ∈ elements)
    (hothers : ∀ other ∈ elements, key other ≠ key element →
      (f other).countP p = 0) :
    (elements.flatMap f).countP p = (f element).countP p := by
  obtain ⟨before, after, rfl⟩ := List.append_of_mem hmem
  rw [List.map_append, List.map_cons, List.nodup_middle, List.nodup_cons,
    List.mem_append, not_or] at hdistinct
  have hzero (part : List α) (hkey : key element ∉ part.map key)
      (hpart : ∀ other ∈ part, other ∈ before ++ element :: after) :
      (part.flatMap f).countP p = 0 := by
    rw [List.countP_eq_zero]
    intro result hresult
    obtain ⟨other, hother, hresult⟩ := List.mem_flatMap.1 hresult
    have hcount := hothers other (hpart other hother) fun heq =>
      hkey (heq ▸ List.mem_map_of_mem hother)
    exact List.countP_eq_zero.1 hcount result hresult
  rw [List.flatMap_append, List.flatMap_cons, List.countP_append,
    List.countP_append, hzero before hdistinct.1.1 (by simp +contextual),
    hzero after hdistinct.1.2 (by simp +contextual), Nat.add_zero, Nat.zero_add]

/-- Of elements with distinct keys, at most one meets what fixes the key. -/
theorem countP_distinct {α κ : Type} {key : α → κ} {p : α → Bool}
    {elements : List α} {wanted : κ} (hdistinct : (elements.map key).Nodup)
    (hkey : ∀ element ∈ elements, p element = true → key element = wanted) :
    elements.countP p = if elements.any p then 1 else 0 := by
  induction elements with
  | nil => rfl
  | cons element elements ih =>
      rw [List.map_cons, List.nodup_cons] at hdistinct
      rw [List.forall_mem_cons] at hkey
      rw [List.countP_cons, List.any_cons, ih hdistinct.2 hkey.2]
      by_cases hfirst : p element = true
      · have hrest : ¬ elements.any p = true := by
          rw [List.any_eq_true]
          rintro ⟨other, hother, hp⟩
          refine hdistinct.1 ?_
          rw [hkey.1 hfirst, ← hkey.2 other hother hp]
          exact List.mem_map_of_mem hother
        rw [if_neg hrest, hfirst]
        rfl
      · rw [Bool.not_eq_true] at hfirst
        rw [hfirst]
        rfl

theorem filter_of_imp {α : Type} {strict weak : α → Bool} {elements : List α}
    (himp : ∀ element ∈ elements, strict element = true → weak element = true) :
    (elements.filter weak).filter strict = elements.filter strict := by
  rw [List.filter_filter]
  refine List.filter_congr fun element hmem => ?_
  cases hstrict : strict element with
  | false => rfl
  | true => rw [himp element hmem hstrict, Bool.and_true]

/-- Only the element that is found has to be kept. -/
theorem find_filter {α : Type} {wanted kept : α → Bool} {elements : List α}
    (hfound : ∀ element ∈ elements.find? wanted, kept element = true) :
    (elements.filter kept).find? wanted = elements.find? wanted := by
  induction elements with
  | nil => rfl
  | cons element elements ih =>
      cases hwanted : wanted element with
      | true =>
          rw [List.find?_cons_of_pos hwanted] at hfound ⊢
          rw [List.filter_cons_of_pos (hfound element rfl),
            List.find?_cons_of_pos hwanted]
      | false =>
          have hnot : ¬ wanted element = true := by simp [hwanted]
          rw [List.find?_cons_of_neg hnot] at hfound ⊢
          cases hkept : kept element with
          | true =>
              rw [List.filter_cons_of_pos hkept, List.find?_cons_of_neg hnot,
                ih hfound]
          | false =>
              rw [List.filter_cons_of_neg (by simp [hkept]), ih hfound]

end Kitaebot.Channel
