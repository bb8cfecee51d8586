import Kitaebot.Channel.PrPosts
import Kitaebot.Core.Run

/-!
# What a tick of the pull request channel does

One lemma per pass and direction: which snapshots a pass takes, which turns
come of them, and how the map of reviewed pull requests moves.
-/

namespace Kitaebot.Channel

open Kitaebot.Text
open Kitaebot.Time

def Act.turn? : Act → Option Turn
  | .send turn => some turn
  | .save _ => none

/-- The turns among the acts of a tick. -/
def turnsOf (acts : List Act) : List Turn := acts.filterMap Act.turn?

@[simp]
theorem turnsOf_nil : turnsOf [] = [] := rfl

@[simp]
theorem turnsOf_append (first second : List Act) :
    turnsOf (first ++ second) = turnsOf first ++ turnsOf second :=
  List.filterMap_append

@[simp]
theorem turnsOf_save (state : PollState) (acts : List Act) :
    turnsOf (.save state :: acts) = turnsOf acts := rfl

@[simp]
theorem turnsOf_send (turn : Turn) (acts : List Act) :
    turnsOf (.send turn :: acts) = turn :: turnsOf acts := rfl

def FeedbackDispatch.turn (role : GitHubRole) (d : FeedbackDispatch) : Turn :=
  { prNumber := d.prNumber, repo := d.repo, role, message := d.message
    session := sessionFor role d.repo d.prNumber, about := d.about }

def ReviewDispatch.turn (d : ReviewDispatch) : Turn :=
  { prNumber := d.prNumber, repo := d.repo, role := .reviewer
    message := d.message
    session := sessionFor .reviewer d.repo d.prNumber, about := d.about }

theorem turnsOf_sends (role : GitHubRole) (ds : List FeedbackDispatch) :
    turnsOf (ds.map fun d => send d.prNumber d.repo role d.message d.about) =
      ds.map (FeedbackDispatch.turn role) := by
  induction ds with
  | nil => rfl
  | cons d ds ih =>
      rw [List.map_cons, List.map_cons, send, turnsOf_send, ih]
      rfl

/-- A turn on the pull request whose message carries the post. -/
structure Turn.Carries (turn : Turn) (nwo : String) (number : UInt32)
    (post : Post) : Prop where
  repo : turn.repo = nwo
  prNumber : turn.prNumber = number
  about : post.id ∈ turn.about
  mentioned : Mentions turn.message post.login post.body

/-- Every wait of the tick succeeds. -/
def Tick.Succeeds (tick : Tick) : Prop := ∀ n, tick.succeeds n = true

theorem Tick.ask_of_succeeds {α : Type} {tick : Tick} (hup : tick.Succeeds)
    (n : ℕ) (answer : Moment → α) :
    tick.ask n answer = (some (answer (tick.clock n)), n + 1) := by
  rw [Tick.ask, hup n, if_pos rfl]

/-- A wait that succeeds gives the answer at its clock reading. -/
theorem Tick.ask_some {α : Type} {tick : Tick} {n next : ℕ}
    {answer : Moment → α} {result : α}
    (hask : tick.ask n answer = (some result, next)) :
    result = answer (tick.clock n) ∧ next = n + 1 := by
  rw [Tick.ask, Prod.mk.injEq, Option.ite_none_right_eq_some] at hask
  exact ⟨(Option.some.inj hask.1.2).symm, hask.2.symm⟩

section Snapshots

variable {forge : Forge} {tick : Tick} {botLogin : String}

/-- The snapshot's three fetches, one after the other. -/
structure FeedbackSnapshot.Fetched (forge : Forge) (tick : Tick)
    (botLogin : String) (s : FeedbackSnapshot) (m : ℕ) : Prop where
  reviews : s.feedback.reviews =
    forge.pullReviews botLogin s.nwo s.pr.number (tick.clock m)
  comments : s.feedback.comments =
    forge.issueComments s.nwo s.pr.number (tick.clock (m + 1))
  diffComments : s.diffComments =
    forge.pullComments botLogin s.nwo s.pr.number (tick.clock (m + 2))

theorem fetchPrFeedback_some {nwo : String} {number : UInt32} {n next : ℕ}
    {feedback : PrFeedback}
    (hfetch : fetchPrFeedback forge tick botLogin nwo number n =
      (some feedback, next)) :
    feedback.reviews = forge.pullReviews botLogin nwo number (tick.clock n) ∧
      feedback.comments =
        forge.issueComments nwo number (tick.clock (n + 1)) ∧ next = n + 2 := by
  simp only [fetchPrFeedback] at hfetch
  split at hfetch
  · cases hfetch
  · rename_i reviews after hreviews
    obtain ⟨rfl, rfl⟩ := Tick.ask_some hreviews
    split at hfetch
    · cases hfetch
    · rename_i comments after hcomments
      obtain ⟨rfl, rfl⟩ := Tick.ask_some hcomments
      simp only [Prod.mk.injEq, Option.some.injEq] at hfetch
      obtain ⟨rfl, rfl⟩ := hfetch
      exact ⟨rfl, rfl, rfl⟩

theorem feedbackSnapshots_fetched {prs : List (String × SearchIssue)} {n : ℕ}
    {s : FeedbackSnapshot}
    (hmem : s ∈ (feedbackSnapshots forge tick botLogin prs n).1) :
    (s.nwo, s.pr) ∈ prs ∧ ∃ m, s.Fetched forge tick botLogin m := by
  induction prs generalizing n with
  | nil => cases hmem
  | cons first prs ih =>
      obtain ⟨nwo, pr⟩ := first
      simp only [feedbackSnapshots] at hmem
      split at hmem
      · exact (ih hmem).imp_left (List.mem_cons_of_mem _)
      · rename_i feedback after hfeedback
        split at hmem
        · exact (ih hmem).imp_left (List.mem_cons_of_mem _)
        · rename_i diffComments after' hdiffs
          obtain ⟨hreviews, hcomments, rfl⟩ := fetchPrFeedback_some hfeedback
          obtain ⟨rfl, rfl⟩ := Tick.ask_some hdiffs
          rcases List.mem_cons.1 hmem with rfl | hmem
          · exact ⟨List.mem_cons_self, n, hreviews, hcomments, rfl⟩
          · exact (ih hmem).imp_left (List.mem_cons_of_mem _)

/-- Without failures every pull request asked for has its snapshot. -/
theorem feedbackSnapshots_complete (forge : Forge) (botLogin : String)
    (hup : tick.Succeeds)
    {prs : List (String × SearchIssue)} {nwo : String} {pr : SearchIssue}
    (hmem : (nwo, pr) ∈ prs) (n : ℕ) :
    ∃ s ∈ (feedbackSnapshots forge tick botLogin prs n).1,
      s.nwo = nwo ∧ s.pr = pr := by
  induction prs generalizing n with
  | nil => cases hmem
  | cons first prs ih =>
      obtain ⟨nwo', pr'⟩ := first
      simp only [feedbackSnapshots, fetchPrFeedback, Tick.ask_of_succeeds hup]
      rcases List.mem_cons.1 hmem with heq | hmem
      · obtain ⟨rfl, rfl⟩ := Prod.mk.inj heq
        exact ⟨_, List.mem_cons_self, rfl, rfl⟩
      · obtain ⟨s, hs, heq⟩ := ih hmem (n + 1 + 1 + 1)
        exact ⟨s, List.mem_cons_of_mem _ hs, heq⟩

/-- The snapshot's four fetches, one after the other. -/
structure TrackedSnapshot.Fetched (forge : Forge) (tick : Tick)
    (botLogin : String) (s : TrackedSnapshot) (m : ℕ) : Prop where
  state : s.view.state = (forge.pull s.nwo s.prNumber (tick.clock m)).state
  headSha : s.view.headSha =
    (forge.pull s.nwo s.prNumber (tick.clock m)).head.sha
  comments : s.view.comments =
    forge.issueComments s.nwo s.prNumber (tick.clock (m + 1))
  reviews : s.view.reviews =
    forge.pullReviews botLogin s.nwo s.prNumber (tick.clock (m + 2))
  diffComments : s.diffComments =
    forge.pullComments botLogin s.nwo s.prNumber (tick.clock (m + 3))

theorem fetchTrackedPr_some {nwo : String} {number : UInt32} {n next : ℕ}
    {view : TrackedPrView}
    (hfetch : fetchTrackedPr forge tick botLogin nwo number n =
      (some view, next)) :
    view.state = (forge.pull nwo number (tick.clock n)).state ∧
      view.headSha = (forge.pull nwo number (tick.clock n)).head.sha ∧
      view.comments = forge.issueComments nwo number (tick.clock (n + 1)) ∧
      view.reviews =
        forge.pullReviews botLogin nwo number (tick.clock (n + 2)) ∧
      next = n + 3 := by
  simp only [fetchTrackedPr] at hfetch
  split at hfetch
  · cases hfetch
  · rename_i pull after hpull
    obtain ⟨rfl, rfl⟩ := Tick.ask_some hpull
    split at hfetch
    · cases hfetch
    · rename_i comments after hcomments
      obtain ⟨rfl, rfl⟩ := Tick.ask_some hcomments
      split at hfetch
      · cases hfetch
      · rename_i reviews after hreviews
        obtain ⟨rfl, rfl⟩ := Tick.ask_some hreviews
        simp only [Prod.mk.injEq, Option.some.injEq] at hfetch
        obtain ⟨rfl, rfl⟩ := hfetch
        exact ⟨rfl, rfl, rfl, rfl, rfl⟩

theorem trackedSnapshots_fetched {entries : List (String × String)} {n : ℕ}
    {s : TrackedSnapshot}
    (hmem : s ∈ (trackedSnapshots forge tick botLogin entries n).1) :
    s.key ∈ entries.map Prod.fst ∧
      parseTrackingKey s.key = some (s.nwo, s.prNumber) ∧
      ∃ m, s.Fetched forge tick botLogin m := by
  induction entries generalizing n with
  | nil => cases hmem
  | cons first entries ih =>
      obtain ⟨key, prevSha⟩ := first
      simp only [trackedSnapshots] at hmem
      split at hmem
      · exact (ih hmem).imp_left (List.mem_cons_of_mem _)
      · rename_i nwo number hparse
        split at hmem
        · exact (ih hmem).imp_left (List.mem_cons_of_mem _)
        · rename_i view after hview
          split at hmem
          · exact (ih hmem).imp_left (List.mem_cons_of_mem _)
          · rename_i diffComments after' hdiffs
            obtain ⟨hstate, hhead, hcomments, hreviews, rfl⟩ :=
              fetchTrackedPr_some hview
            obtain ⟨rfl, rfl⟩ := Tick.ask_some hdiffs
            rcases List.mem_cons.1 hmem with rfl | hmem
            · exact ⟨List.mem_cons_self, hparse, n, hstate, hhead, hcomments,
                hreviews, rfl⟩
            · exact (ih hmem).imp_left (List.mem_cons_of_mem _)

theorem trackedSnapshots_complete (forge : Forge) (botLogin : String)
    (hup : tick.Succeeds)
    {entries : List (String × String)} {key nwo : String} {number : UInt32}
    (hmem : key ∈ entries.map Prod.fst)
    (hparse : parseTrackingKey key = some (nwo, number)) (n : ℕ) :
    ∃ s ∈ (trackedSnapshots forge tick botLogin entries n).1,
      s.key = key ∧ s.nwo = nwo ∧ s.prNumber = number := by
  induction entries generalizing n with
  | nil => cases hmem
  | cons first entries ih =>
      obtain ⟨key', prevSha⟩ := first
      simp only [trackedSnapshots, fetchTrackedPr, Tick.ask_of_succeeds hup]
      rcases List.mem_cons.1 hmem with rfl | hmem
      · simp only [hparse]
        exact ⟨_, List.mem_cons_self, rfl, rfl, rfl⟩
      · cases parseTrackingKey key' with
        | none => exact ih hmem n
        | some found =>
            obtain ⟨s, hs, heq⟩ := ih hmem (n + 1 + 1 + 1 + 1)
            exact ⟨s, List.mem_cons_of_mem _ hs, heq⟩

end Snapshots

/-! ### The reviewer turns -/

section Reviews

variable {tick : Tick}

theorem runReviews_lastPoll (state : PollState) (ds : List ReviewDispatch)
    (n : ℕ) : (runReviews tick state ds n).1.lastPoll = state.lastPoll := by
  induction ds generalizing state n with
  | nil => rfl
  | cons d ds ih =>
      simp only [runReviews]
      split
      · exact ih state _
      · exact ih _ _

theorem runReviews_turns_sublist (state : PollState) (ds : List ReviewDispatch)
    (n : ℕ) : (turnsOf (runReviews tick state ds n).2.1).Sublist
      (ds.map ReviewDispatch.turn) := by
  induction ds generalizing state n with
  | nil => exact List.Sublist.slnil
  | cons d ds ih =>
      simp only [runReviews]
      split
      · exact (ih state _).cons _
      · exact (ih _ _).cons_cons _

theorem runReviews_turns (hup : tick.Succeeds) (state : PollState)
    (ds : List ReviewDispatch) (n : ℕ) :
    turnsOf (runReviews tick state ds n).2.1 = ds.map ReviewDispatch.turn := by
  induction ds generalizing state n with
  | nil => rfl
  | cons d ds ih =>
      simp only [runReviews, Tick.ask_of_succeeds hup, turnsOf_save, send,
        turnsOf_send, ih, List.map_cons]
      rfl

/-- The loop adds the keys of its dispatches and removes none. -/
theorem mem_runReviews {state : PollState} {ds : List ReviewDispatch} {n : ℕ}
    {key : String} (hmem : key ∈ state.reviewed) :
    key ∈ (runReviews tick state ds n).1.reviewed := by
  induction ds generalizing state n with
  | nil => exact hmem
  | cons d ds ih =>
      simp only [runReviews]
      split
      · exact ih hmem
      · refine ih ?_
        simp only [PollState.endTurn, PollState.startTurn,
          Std.ExtTreeMap.mem_insert]
        exact .inr hmem

theorem of_mem_runReviews {state : PollState} {ds : List ReviewDispatch} {n : ℕ}
    {key : String} (hmem : key ∈ (runReviews tick state ds n).1.reviewed) :
    key ∈ state.reviewed ∨ key ∈ ds.map (·.key) := by
  induction ds generalizing state n with
  | nil => exact .inl hmem
  | cons d ds ih =>
      simp only [runReviews] at hmem
      split at hmem
      · exact (ih hmem).imp_right (List.mem_cons_of_mem _)
      · rcases ih hmem with hmem | hmem
        · simp only [PollState.endTurn, PollState.startTurn,
            Std.ExtTreeMap.mem_insert, compare_eq_iff_eq] at hmem
          rcases hmem with rfl | hmem
          · exact .inr List.mem_cons_self
          · exact .inl hmem
        · exact .inr (List.mem_cons_of_mem _ hmem)

end Reviews

/-! ### The passes -/

section Passes

variable {forge : Forge} {tick : Tick} {botLogin lastPoll : String}
  {trust : Trust} {n next : ℕ} {acts : List Act} {state after : PollState}

/-- Search hits with a repository, as pairs. -/
def withNwo (prs : List SearchIssue) : List (String × SearchIssue) :=
  prs.filterMap fun pr => pr.nwo.map fun nwo => (nwo, pr)

theorem mem_withNwo {prs : List SearchIssue} {nwo : String} {pr : SearchIssue} :
    (nwo, pr) ∈ withNwo prs ↔ pr ∈ prs ∧ pr.nwo = some nwo := by
  simp only [withNwo, List.mem_filterMap, Option.map_eq_some_iff,
    Prod.mk.injEq]
  constructor
  · rintro ⟨other, hmem, nwo', hnwo, rfl, rfl⟩
    exact ⟨hmem, hnwo⟩
  · rintro ⟨hmem, hnwo⟩
    exact ⟨pr, hmem, nwo, hnwo, rfl, rfl⟩

theorem mem_contributedCandidates {prs : List SearchIssue} {reviewed : Reviewed}
    {nwo : String} {pr : SearchIssue} :
    (nwo, pr) ∈ contributedCandidates prs reviewed ↔
      pr ∈ prs ∧ pr.nwo = some nwo ∧
        trackingKey nwo pr.number ∉ reviewed := by
  simp only [contributedCandidates, List.mem_filterMap]
  constructor
  · rintro ⟨other, hmem, hcandidate⟩
    split at hcandidate
    · cases hcandidate
    · rename_i nwo' hnwo
      rw [Option.ite_none_left_eq_some, Option.some.injEq,
        Prod.mk.injEq] at hcandidate
      obtain ⟨hkey, rfl, rfl⟩ := hcandidate
      exact ⟨hmem, hnwo, by simpa using hkey⟩
  · rintro ⟨hmem, hnwo, hkey⟩
    refine ⟨pr, hmem, ?_⟩
    rw [hnwo]
    simp [hkey]

theorem feedbackPass_some
    (hpass : feedbackPass forge tick botLogin trust lastPoll n =
      (some acts, next)) :
    turnsOf acts = (decideFeedback botLogin trust lastPoll
      (feedbackSnapshots forge tick botLogin
        (withNwo (forge.search (listBotPrs botLogin) (tick.clock n)))
          (n + 1)).1).map (FeedbackDispatch.turn .author) := by
  simp only [feedbackPass] at hpass
  split at hpass
  · cases hpass
  · rename_i prs middle hsearch
    obtain ⟨rfl, rfl⟩ := Tick.ask_some hsearch
    simp only [Prod.mk.injEq, Option.some.injEq] at hpass
    rw [← hpass.1]
    exact turnsOf_sends .author _

theorem contributedPass_some
    (hpass : contributedPass forge tick botLogin trust state n =
      (some acts, next)) :
    turnsOf acts = (decideContributed botLogin trust state.lastPoll
      (feedbackSnapshots forge tick botLogin
        (contributedCandidates (forge.search (contributedQuery botLogin)
          (tick.clock n)) state.reviewed) (n + 1)).1).map
            (FeedbackDispatch.turn .contributor) := by
  simp only [contributedPass] at hpass
  split at hpass
  · cases hpass
  · rename_i prs middle hsearch
    obtain ⟨rfl, rfl⟩ := Tick.ask_some hsearch
    simp only [Prod.mk.injEq, Option.some.injEq] at hpass
    rw [← hpass.1]
    exact turnsOf_sends .contributor _

/-- The candidates of the review-request pass are hits of its search. -/
theorem reviewCandidates_mem {prs : List SearchIssue} {n : ℕ}
    {candidate : ReviewCandidate}
    (hmem : candidate ∈ (reviewCandidates forge tick prs n).1) :
    candidate.pr ∈ prs ∧ candidate.pr.nwo = some candidate.nwo := by
  induction prs generalizing n with
  | nil => cases hmem
  | cons pr prs ih =>
      simp only [reviewCandidates] at hmem
      split at hmem
      · exact (ih hmem).imp_left (List.mem_cons_of_mem _)
      · rename_i nwo hnwo
        split at hmem
        · exact (ih hmem).imp_left (List.mem_cons_of_mem _)
        · rcases List.mem_cons.1 hmem with rfl | hmem
          · exact ⟨List.mem_cons_self, hnwo⟩
          · exact (ih hmem).imp_left (List.mem_cons_of_mem _)

theorem reviewRequestPass_some
    (hpass : reviewRequestPass forge tick botLogin trust state n =
      (some (after, acts), next)) :
    ∃ ds m, (after, acts, next) = runReviews tick state ds m ∧
      ds = decideReviewRequests botLogin trust (reviewCandidates forge tick
        (forge.search (listReviewRequestedPrs botLogin) (tick.clock n))
          (n + 1)).1 state.reviewed := by
  simp only [reviewRequestPass] at hpass
  split at hpass
  · cases hpass
  · rename_i prs middle hsearch
    obtain ⟨rfl, rfl⟩ := Tick.ask_some hsearch
    simp only [Prod.mk.injEq, Option.some.injEq] at hpass
    obtain ⟨⟨rfl, rfl⟩, rfl⟩ := hpass
    exact ⟨_, _, rfl, rfl⟩

theorem reviewRequestDispatch_some {reviewed : Reviewed}
    {candidate : ReviewCandidate} {d : ReviewDispatch}
    (hdispatch : reviewRequestDispatch botLogin trust reviewed candidate =
      some d) :
    d.key = trackingKey candidate.nwo candidate.pr.number ∧ d.about = [] ∧
      candidate.pr.user.login ≠ botLogin := by
  simp only [reviewRequestDispatch] at hdispatch
  split at hdispatch
  · cases hdispatch
  · rename_i hpassed
    rw [Option.map_eq_some_iff] at hdispatch
    obtain ⟨checkout, -, rfl⟩ := hdispatch
    simp only [Bool.or_eq_true, beq_iff_eq, not_or] at hpassed
    exact ⟨rfl, rfl, hpassed.1.1⟩

/-- The keys the review-request pass may add, and what its turns are about. -/
theorem decideReviewRequests_mem {prs : List SearchIssue} {n : ℕ}
    {reviewed : Reviewed} {d : ReviewDispatch}
    (hmem : d ∈ decideReviewRequests botLogin trust
      (reviewCandidates forge tick prs n).1 reviewed) :
    d.about = [] ∧ ∃ pr ∈ prs, ∃ nwo, pr.nwo = some nwo ∧
      d.key = trackingKey nwo pr.number ∧ pr.user.login ≠ botLogin := by
  rw [decideReviewRequests, List.mem_filterMap] at hmem
  obtain ⟨candidate, hcandidate, hdispatch⟩ := hmem
  obtain ⟨hkey, habout, hlogin⟩ := reviewRequestDispatch_some hdispatch
  obtain ⟨hpr, hnwo⟩ := reviewCandidates_mem hcandidate
  exact ⟨habout, candidate.pr, hpr, candidate.nwo, hnwo, hkey, hlogin⟩

theorem trackedDispatch_some {reviewed : Reviewed} {s : TrackedSnapshot}
    {d : ReviewDispatch}
    (hdispatch : trackedDispatch botLogin trust lastPoll reviewed s = some d) :
    s.view.state = "open" ∧ s.key ∈ reviewed ∧ d.key = s.key ∧
      d.repo = s.nwo ∧ d.prNumber = s.prNumber ∧
        d.about = (s.newPosts botLogin trust lastPoll).ids := by
  simp only [trackedDispatch] at hdispatch
  split at hdispatch
  · cases hdispatch
  · rename_i hopen
    split at hdispatch
    · cases hdispatch
    · rename_i prevSha hprev
      split at hdispatch
      · cases hdispatch
      · rw [Option.map_eq_some_iff] at hdispatch
        obtain ⟨checkout, -, rfl⟩ := hdispatch
        refine ⟨by simpa using hopen, ?_, rfl, rfl, rfl, rfl⟩
        exact Std.ExtTreeMap.mem_iff_isSome_getElem?.2 (by simp [hprev])

/-- The dispatches of the tracked pass. -/
def trackedDispatches (forge : Forge) (tick : Tick) (botLogin : String)
    (trust : Trust) (state : PollState) (n : ℕ) : List ReviewDispatch :=
  (decideTracked botLogin trust state.lastPoll
    (trackedSnapshots forge tick botLogin state.reviewed.toList n).1
      state.reviewed).1

theorem mem_foldl_erase {keys : List String} {reviewed : Reviewed}
    {key : String} :
    key ∈ keys.foldl (·.erase ·) reviewed ↔ key ∈ reviewed ∧ key ∉ keys := by
  induction keys generalizing reviewed with
  | nil => simp
  | cons first keys ih =>
      rw [List.foldl_cons, ih, Std.ExtTreeMap.mem_erase]
      simp only [ne_eq, compare_eq_iff_eq, List.mem_cons, not_or]
      constructor
      · rintro ⟨⟨hne, hmem⟩, hrest⟩
        exact ⟨hmem, fun heq => hne heq.symm, hrest⟩
      · rintro ⟨hmem, hne, hrest⟩
        exact ⟨⟨fun heq => hne heq.symm, hmem⟩, hrest⟩

/-- The pass runs its dispatches on the map without corrupt and closed keys,
and saves that map if it lost any. -/
theorem trackedPass_eq (forge : Forge) (tick : Tick) (botLogin : String)
    (trust : Trust) (state : PollState) (n : ℕ) :
    ∃ gone pruned m, pruned = { state with
        reviewed := List.foldl (·.erase ·) state.reviewed gone } ∧
      trackedPass forge tick botLogin trust state n =
        ((runReviews tick pruned
            (trackedDispatches forge tick botLogin trust state n) m).1,
          (if gone.isEmpty then [] else [.save pruned]) ++
            (runReviews tick pruned
              (trackedDispatches forge tick botLogin trust state n) m).2.1,
          (runReviews tick pruned
            (trackedDispatches forge tick botLogin trust state n) m).2.2) :=
  ⟨_, _, _, rfl, rfl⟩

/-- How the passes of a tick follow each other, and where it can fail. -/
theorem pollOnce_cases (forge : Forge) (tick : Tick) (botLogin : String)
    (trust : Trust) (state : PollState) :
    pollOnce forge tick botLogin trust state = ⟨false, state, []⟩ ∨
    ∃ acts n, feedbackPass forge tick botLogin trust state.lastPoll 0 =
        (some acts, n) ∧
      (pollOnce forge tick botLogin trust state = ⟨false, state, acts⟩ ∨
      ∃ mid reviews n₂ after tracked n₃,
        reviewRequestPass forge tick botLogin trust state n =
          (some (mid, reviews), n₂) ∧
        trackedPass forge tick botLogin trust mid n₂ = (after, tracked, n₃) ∧
        (pollOnce forge tick botLogin trust state =
            ⟨false, after, acts ++ (reviews ++ tracked)⟩ ∨
        ∃ contributed n₄,
          contributedPass forge tick botLogin trust after n₃ =
            (some contributed, n₄) ∧
          pollOnce forge tick botLogin trust state =
            ⟨true, after, acts ++ (reviews ++ (tracked ++ contributed))⟩)) := by
  simp only [pollOnce]
  split
  · exact .inl rfl
  · rename_i acts n hfeedback
    refine .inr ⟨acts, n, hfeedback, ?_⟩
    split
    · exact .inl rfl
    · rename_i mid reviews n₂ hrequests
      refine .inr ⟨mid, reviews, n₂, _, _, _, hrequests, rfl, ?_⟩
      split
      · exact .inl rfl
      · rename_i contributed n₄ hcontributed
        exact .inr ⟨contributed, n₄, hcontributed, rfl⟩

/-- A good tick moves the cursor to its start and saves; a bad one keeps what
its passes left. -/
theorem Outcome.advance_cases (outcome : Outcome) (start : Moment) :
    outcome.ok = true ∧
      outcome.advance start =
        ⟨true, { outcome.state with lastPoll := start.stamp }, outcome.acts ++
          [.save { outcome.state with lastPoll := start.stamp }]⟩ ∨
    outcome.ok = false ∧ outcome.advance start = outcome := by
  obtain ⟨ok, state, acts⟩ := outcome
  cases ok with
  | false => exact .inr ⟨rfl, rfl⟩
  | true => exact .inl ⟨rfl, rfl⟩

@[simp]
theorem Outcome.advance_ok (outcome : Outcome) (start : Moment) :
    (outcome.advance start).ok = outcome.ok := by
  obtain ⟨hok, heq⟩ | ⟨-, heq⟩ := outcome.advance_cases start
  · rw [heq, hok]
  · rw [heq]

theorem Outcome.advance_turns (outcome : Outcome) (start : Moment) :
    turnsOf (outcome.advance start).acts = turnsOf outcome.acts := by
  obtain ⟨-, heq⟩ | ⟨-, heq⟩ := outcome.advance_cases start
  · rw [heq, turnsOf_append, turnsOf_save, turnsOf_nil, List.append_nil]
  · rw [heq]

/-- Stated for any text: comparing records must not compute a stamp. -/
theorem PollState.reviewed_setLastPoll (state : PollState) (cursor : String) :
    { state with lastPoll := cursor : PollState }.reviewed = state.reviewed :=
  rfl

@[simp]
theorem Outcome.advance_reviewed (outcome : Outcome) (start : Moment) :
    (outcome.advance start).state.reviewed = outcome.state.reviewed := by
  obtain ⟨-, heq⟩ | ⟨-, heq⟩ := outcome.advance_cases start
  · rw [heq, PollState.reviewed_setLastPoll]
  · rw [heq]

theorem Outcome.advance_lastPoll (outcome : Outcome) (start : Moment) :
    (outcome.advance start).state.lastPoll =
      if outcome.ok then start.stamp else outcome.state.lastPoll := by
  obtain ⟨hok, heq⟩ | ⟨hfail, heq⟩ := outcome.advance_cases start
  · rw [heq, hok, if_pos rfl]
  · rw [heq, hfail, if_neg Bool.false_ne_true]

theorem pollTick_turns (forge : Forge) (tick : Tick) (botLogin : String)
    (trust : Trust) (state : PollState) :
    turnsOf (pollTick forge tick botLogin trust state).acts =
      turnsOf (pollOnce forge tick botLogin trust state).acts :=
  Outcome.advance_turns _ _

end Passes

end Kitaebot.Channel
