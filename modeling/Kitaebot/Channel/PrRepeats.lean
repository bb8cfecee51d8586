import Mathlib.Data.List.Nodup
import Kitaebot.Channel.PrPolling

/-!
# Repeated posts

A tick sends at most one turn about a post, because its passes look at
different pull requests.  Over two ticks a post is repeated only while the
cursor stays behind it: the earlier tick failed, or it started in a second
before the post's own.
-/

namespace Kitaebot.Channel

open Kitaebot.Run
open Kitaebot.Text
open Kitaebot.Time

/-- What the service promises of its searches: a hit names the author of the
pull request, the author qualifiers hold, and no answer repeats a hit. -/
structure Forge.Attributed (forge : Forge) (author : String → UInt32 → String)
    (botLogin : String) : Prop where
  hits : ∀ query now, ∀ pr ∈ forge.search query now, ∀ nwo, pr.nwo = some nwo →
    pr.user.login = author nwo pr.number
  own : ∀ now, ∀ pr ∈ forge.search (listBotPrs botLogin) now,
    pr.user.login = botLogin
  contributed : ∀ now, ∀ pr ∈ forge.search (contributedQuery botLogin) now,
    pr.user.login ≠ botLogin
  distinct : ∀ query now, (forge.search query now).Pairwise fun first second =>
    first.nwo ≠ second.nwo ∨ first.number ≠ second.number

/-- The map holds keys as the channel writes them, of pull requests that are
not the bot's own. -/
structure TracksOthers (author : String → UInt32 → String) (botLogin : String)
    (state : PollState) : Prop where
  canonical : ∀ key ∈ state.reviewed, ∀ nwo number,
    parseTrackingKey key = some (nwo, number) → key = trackingKey nwo number
  notOwn : ∀ nwo number, trackingKey nwo number ∈ state.reviewed →
    author nwo number ≠ botLogin

theorem tracksOthers_empty (author : String → UInt32 → String)
    (botLogin lastPoll : String) (inFlight : Option InFlight) :
    TracksOthers author botLogin ⟨lastPoll, ∅, inFlight⟩ where
  canonical _ hmem := absurd hmem Std.ExtTreeMap.not_mem_empty
  notOwn _ _ hmem := absurd hmem Std.ExtTreeMap.not_mem_empty

/-- The turn carries a post of that kind and id on that pull request. -/
structure Turn.IsAbout (turn : Turn) (nwo : String) (number : UInt32)
    (id : PostId) : Prop where
  repo : turn.repo = nwo
  prNumber : turn.prNumber = number
  about : id ∈ turn.about

/-- The two turns are not about one post. -/
def Turn.Apart (first second : Turn) : Prop :=
  ∀ nwo number id, ¬ (first.IsAbout nwo number id ∧ second.IsAbout nwo number id)

theorem Turn.apart_of_ne {first second : Turn}
    (hne : first.repo ≠ second.repo ∨ first.prNumber ≠ second.prNumber) :
    first.Apart second := by
  rintro nwo number id ⟨hfirst, hsecond⟩
  rcases hne with hne | hne
  · exact hne (hfirst.repo.trans hsecond.repo.symm)
  · exact hne (hfirst.prNumber.trans hsecond.prNumber.symm)

/-! ### Where a turn comes from -/

section Sources

variable {forge : Forge} {tick : Tick} {botLogin lastPoll nwo : String}
  {trust : Trust} {number : UInt32} {id : PostId}
  {author : String → UInt32 → String}

theorem feedbackDispatch_some {s : FeedbackSnapshot} {d : FeedbackDispatch}
    (hdispatch : feedbackDispatch botLogin trust lastPoll s = some d) :
    d.repo = s.nwo ∧ d.prNumber = s.pr.number ∧
      d.about = (s.newPosts botLogin trust lastPoll).ids := by
  simp only [feedbackDispatch, Option.ite_none_left_eq_some,
    Option.some.injEq] at hdispatch
  obtain ⟨-, rfl⟩ := hdispatch
  exact ⟨rfl, rfl, rfl⟩

theorem contributedDispatch_some {s : ContributedSnapshot}
    {d : ContributedDispatch}
    (hdispatch : contributedDispatch botLogin trust lastPoll s = some d) :
    d.repo = s.nwo ∧ d.prNumber = s.pr.number ∧
      d.about = (s.newPosts botLogin trust lastPoll).ids := by
  simp only [contributedDispatch, Option.ite_none_left_eq_some,
    Option.some.injEq] at hdispatch
  obtain ⟨-, rfl⟩ := hdispatch
  exact ⟨rfl, rfl, rfl⟩

/-- The post a turn of this tick is about has appeared by one of the tick's
clock readings, and the cursor was before it. -/
def Fresh (forge : Forge) (tick : Tick) (lastPoll nwo : String)
    (number : UInt32) (id : PostId) : Prop :=
  ∃ post ∈ forge.posts nwo number, post.id = id ∧
    (∃ n, post.appears ≤ tick.clock n) ∧ lastPoll < post.appears.stamp

theorem FeedbackSnapshot.fresh {s : FeedbackSnapshot} {m : ℕ}
    (hfetched : s.Fetched forge tick botLogin m)
    (hmem : id ∈ (s.newPosts botLogin trust lastPoll).ids) :
    Fresh forge tick lastPoll s.nwo s.pr.number id := by
  simp only [NewPosts.ids, FeedbackSnapshot.newPosts, List.mem_append,
    List.mem_map] at hmem
  rw [hfetched.reviews, hfetched.comments, hfetched.diffComments] at hmem
  rcases hmem with ⟨review, hmem, rfl⟩ | ⟨comment, hmem, rfl⟩ | ⟨dc, hmem, rfl⟩
  · obtain ⟨post, hpost, hid, hle, hcursor⟩ := posted_of_review hmem
    exact ⟨post, hpost, hid, ⟨_, hle⟩, hcursor⟩
  · obtain ⟨post, hpost, hid, hle, hcursor⟩ := posted_of_comment hmem
    exact ⟨post, hpost, hid, ⟨_, hle⟩, hcursor⟩
  · obtain ⟨post, hpost, hid, hle, hcursor⟩ := posted_of_diffComment hmem
    exact ⟨post, hpost, hid, ⟨_, hle⟩, hcursor⟩

theorem TrackedSnapshot.fresh {s : TrackedSnapshot} {m : ℕ}
    (hfetched : s.Fetched forge tick botLogin m)
    (hmem : id ∈ (s.newPosts botLogin trust lastPoll).ids) :
    Fresh forge tick lastPoll s.nwo s.prNumber id := by
  simp only [NewPosts.ids, TrackedSnapshot.newPosts, List.map_nil,
    List.nil_append, List.mem_append, List.mem_map] at hmem
  rw [hfetched.reviews, hfetched.comments, hfetched.diffComments] at hmem
  rcases hmem with ⟨comment, hmem, rfl⟩ | ⟨dc, hmem, rfl⟩
  · obtain ⟨post, hpost, hid, hle, hcursor⟩ := posted_of_comment hmem
    exact ⟨post, hpost, hid, ⟨_, hle⟩, hcursor⟩
  · obtain ⟨post, hpost, hid, hle, hcursor⟩ := posted_of_diffComment hmem
    exact ⟨post, hpost, hid, ⟨_, hle⟩, hcursor⟩

/-- A turn of the own or the contributed pass. -/
theorem fresh_of_feedback {prs : List (String × SearchIssue)} {n : ℕ}
    {dispatch : FeedbackSnapshot → Option FeedbackDispatch} {role : GitHubRole}
    (hdispatch : ∀ s d, dispatch s = some d → d.repo = s.nwo ∧
      d.prNumber = s.pr.number ∧
        d.about = (s.newPosts botLogin trust lastPoll).ids)
    {turn : Turn}
    (hmem : turn ∈ (((feedbackSnapshots forge tick botLogin prs n).1.filterMap
      dispatch).map (FeedbackDispatch.turn role))) :
    (∃ pr, (turn.repo, pr) ∈ prs ∧ pr.number = turn.prNumber) ∧
      ∀ id ∈ turn.about,
        Fresh forge tick lastPoll turn.repo turn.prNumber id := by
  obtain ⟨d, hd, rfl⟩ := List.mem_map.1 hmem
  obtain ⟨s, hs, hsome⟩ := List.mem_filterMap.1 hd
  obtain ⟨hrepo, hnumber, habout⟩ := hdispatch s d hsome
  obtain ⟨hlisted, m, hfetched⟩ := feedbackSnapshots_fetched hs
  rw [← hrepo] at hlisted
  refine ⟨⟨s.pr, hlisted, hnumber.symm⟩, fun id hid => ?_⟩
  have hid : id ∈ (s.newPosts botLogin trust lastPoll).ids := habout ▸ hid
  have hfresh := FeedbackSnapshot.fresh hfetched hid
  rw [← hrepo, ← hnumber] at hfresh
  exact hfresh

theorem fresh_of_tracked {state : PollState} {n : ℕ} {d : ReviewDispatch}
    (hmem : d ∈ trackedDispatches forge tick botLogin trust state n) :
    d.key ∈ state.reviewed ∧
      parseTrackingKey d.key = some (d.repo, d.prNumber) ∧
      ∀ id ∈ d.about,
        Fresh forge tick state.lastPoll d.repo d.prNumber id := by
  obtain ⟨s, hs, hsome⟩ := List.mem_filterMap.1 hmem
  obtain ⟨-, hreviewed, hkey, hrepo, hnumber, habout⟩ := trackedDispatch_some hsome
  obtain ⟨-, hparse, m, hfetched⟩ := trackedSnapshots_fetched hs
  rw [hkey, hrepo, hnumber]
  refine ⟨hreviewed, hparse, fun id hid => ?_⟩
  have hid : id ∈ (s.newPosts botLogin trust state.lastPoll).ids := habout ▸ hid
  exact TrackedSnapshot.fresh hfetched hid

/-! ### No pull request twice in a pass -/

theorem feedbackSnapshots_sublist (prs : List (String × SearchIssue)) (n : ℕ) :
    (((feedbackSnapshots forge tick botLogin prs n).1).map
      fun s => (s.nwo, s.pr)).Sublist prs := by
  induction prs generalizing n with
  | nil => exact List.Sublist.slnil
  | cons first prs ih =>
      obtain ⟨nwo, pr⟩ := first
      simp only [feedbackSnapshots]
      split
      · exact (ih _).cons _
      · split
        · exact (ih _).cons _
        · exact (ih _).cons_cons _

theorem trackedSnapshots_sublist (entries : List (String × String)) (n : ℕ) :
    (((trackedSnapshots forge tick botLogin entries n).1).map (·.key)).Sublist
      (entries.map Prod.fst) := by
  induction entries generalizing n with
  | nil => exact List.Sublist.slnil
  | cons first entries ih =>
      obtain ⟨key, prevSha⟩ := first
      simp only [trackedSnapshots]
      split
      · exact (ih _).cons _
      · split
        · exact (ih _).cons _
        · split
          · exact (ih _).cons _
          · exact (ih _).cons_cons _

/-- Two pull requests, told apart by repository or number. -/
def Distinct (first second : String × SearchIssue) : Prop :=
  first.1 ≠ second.1 ∨ first.2.number ≠ second.2.number

theorem withNwo_distinct {query : String} {now : Moment}
    (hforge : forge.Attributed author botLogin) :
    (withNwo (forge.search query now)).Pairwise Distinct := by
  refine (hforge.distinct query now).filterMap _ ?_
  intro first second hne pair hpair other hother
  simp only [Option.map_eq_some_iff] at hpair hother
  obtain ⟨nwo, hnwo, rfl⟩ := hpair
  obtain ⟨nwo', hnwo', rfl⟩ := hother
  exact hne.imp_left fun hne heq =>
    hne (hnwo.trans ((congrArg some heq).trans hnwo'.symm))

theorem contributedCandidates_distinct {query : String} {now : Moment}
    {reviewed : Reviewed} (hforge : forge.Attributed author botLogin) :
    (contributedCandidates (forge.search query now) reviewed).Pairwise
      Distinct := by
  refine (hforge.distinct query now).filterMap _ ?_
  intro first second hne pair hpair other hother
  split at hpair
  · cases hpair
  · rename_i nwo hnwo
    split at hother
    · cases hother
    · rename_i nwo' hnwo'
      simp only [Option.ite_none_left_eq_some, Option.some.injEq] at hpair hother
      obtain ⟨-, rfl⟩ := hpair
      obtain ⟨-, rfl⟩ := hother
      exact hne.imp_left fun hne heq =>
        hne (hnwo.trans ((congrArg some heq).trans hnwo'.symm))

theorem feedback_apart {prs : List (String × SearchIssue)} {n : ℕ}
    {dispatch : FeedbackSnapshot → Option FeedbackDispatch} {role : GitHubRole}
    (hdispatch : ∀ s d, dispatch s = some d → d.repo = s.nwo ∧
      d.prNumber = s.pr.number ∧
        d.about = (s.newPosts botLogin trust lastPoll).ids)
    (hprs : prs.Pairwise Distinct) :
    (((feedbackSnapshots forge tick botLogin prs n).1.filterMap dispatch).map
      (FeedbackDispatch.turn role)).Pairwise Turn.Apart := by
  have hsnapshots : (feedbackSnapshots forge tick botLogin prs n).1.Pairwise
      fun first second =>
        first.nwo ≠ second.nwo ∨ first.pr.number ≠ second.pr.number :=
    List.pairwise_map.1 (hprs.sublist (feedbackSnapshots_sublist prs n))
  rw [List.pairwise_map]
  refine hsnapshots.filterMap _ ?_
  intro first second hne d hd d' hd'
  obtain ⟨hrepo, hnumber, -⟩ := hdispatch first d hd
  obtain ⟨hrepo', hnumber', -⟩ := hdispatch second d' hd'
  refine Turn.apart_of_ne ?_
  simpa only [FeedbackDispatch.turn, hrepo, hnumber, hrepo', hnumber'] using hne

theorem tracked_apart {state : PollState}
    (htracks : TracksOthers author botLogin state) (n : ℕ) :
    ((trackedDispatches forge tick botLogin trust state n).map
      ReviewDispatch.turn).Pairwise Turn.Apart := by
  have hkeys : (trackedSnapshots forge tick botLogin state.reviewed.toList
      n).1.Pairwise fun first second => first.key ≠ second.key := by
    refine List.pairwise_map.1 (List.Pairwise.sublist
      (trackedSnapshots_sublist state.reviewed.toList n) ?_)
    rw [Std.ExtTreeMap.map_fst_toList_eq_keys]
    exact Std.ExtTreeMap.nodup_keys
  have hdispatches : (trackedDispatches forge tick botLogin trust state
      n).Pairwise fun first second => first.key ≠ second.key := by
    refine hkeys.filterMap _ ?_
    intro first second hne d hd d' hd'
    rw [(trackedDispatch_some hd).2.2.1, (trackedDispatch_some hd').2.2.1]
    exact hne
  rw [List.pairwise_map]
  refine hdispatches.imp_of_mem ?_
  intro first second hfirst hsecond hne
  obtain ⟨hmem, hparse, -⟩ := fresh_of_tracked hfirst
  obtain ⟨hmem', hparse', -⟩ := fresh_of_tracked hsecond
  refine Turn.apart_of_ne (not_and_or.1 ?_)
  rintro ⟨hrepo, hnumber⟩
  apply hne
  rw [htracks.canonical _ hmem _ _ hparse, htracks.canonical _ hmem' _ _ hparse']
  have hrepo : first.repo = second.repo := hrepo
  have hnumber : first.prNumber = second.prNumber := hnumber
  rw [hrepo, hnumber]

end Sources

/-! ### The turns of one tick -/

section OneTick

variable {forge : Forge} {tick : Tick} {botLogin lastPoll : String}
  {trust : Trust} {author : String → UInt32 → String} {state : PollState}

theorem Turn.apart_of_nil {first second : Turn} (hnil : second.about = []) :
    first.Apart second := by
  rintro nwo number id ⟨-, hsecond⟩
  have hmem := hsecond.about
  rw [hnil] at hmem
  cases hmem

theorem Turn.Apart.symm {first second : Turn} (hapart : first.Apart second) :
    second.Apart first := fun nwo number id hboth =>
  hapart nwo number id hboth.symm

theorem runReviews_turn {ds : List ReviewDispatch} {n : ℕ} {turn : Turn}
    (hmem : turn ∈ turnsOf (runReviews tick state ds n).2.1) :
    ∃ d ∈ ds, turn = d.turn ∧
      d.key ∈ (runReviews tick state ds n).1.reviewed := by
  induction ds generalizing state n with
  | nil => cases hmem
  | cons d ds ih =>
      simp only [runReviews] at hmem ⊢
      split at hmem
      · obtain ⟨other, hother, heq⟩ := ih hmem
        exact ⟨other, List.mem_cons_of_mem _ hother, heq⟩
      · simp only [turnsOf_save, send, turnsOf_send, List.mem_cons] at hmem
        rcases hmem with rfl | hmem
        · refine ⟨d, List.mem_cons_self, rfl, mem_runReviews ?_⟩
          simp only [PollState.endTurn, PollState.startTurn,
            Std.ExtTreeMap.mem_insert]
          exact .inl (compare_eq_iff_eq.2 rfl)
        · obtain ⟨other, hother, heq⟩ := ih hmem
          exact ⟨other, List.mem_cons_of_mem _ hother, heq⟩

/-- The map keeps its shape when keys leave it and when it gains other users'
pull requests. -/
theorem TracksOthers.of_reviewed {mid : PollState}
    (htracks : TracksOthers author botLogin state)
    (hkeys : ∀ key ∈ mid.reviewed, key ∈ state.reviewed ∨
      ∃ nwo number, key = trackingKey nwo number ∧
        author nwo number ≠ botLogin) :
    TracksOthers author botLogin mid where
  canonical key hmem nwo number hparse := by
    rcases hkeys key hmem with hmem | ⟨nwo', number', rfl, -⟩
    · exact htracks.canonical key hmem nwo number hparse
    · rw [parseTrackingKey_trackingKey, Option.some.injEq,
        Prod.mk.injEq] at hparse
      rw [hparse.1, hparse.2]
  notOwn nwo number hmem := by
    rcases hkeys _ hmem with hmem | ⟨nwo', number', heq, hauthor⟩
    · exact htracks.notOwn nwo number hmem
    · obtain ⟨rfl, rfl⟩ := trackingKey_inj heq
      exact hauthor

theorem TracksOthers.requests {mid : PollState} {reviews : List Act}
    {n next : ℕ} (hforge : forge.Attributed author botLogin)
    (htracks : TracksOthers author botLogin state)
    (hpass : reviewRequestPass forge tick botLogin trust state n =
      (some (mid, reviews), next)) : TracksOthers author botLogin mid := by
  obtain ⟨-, -, hadded⟩ := reviewRequestPass_reviewed hpass
  refine htracks.of_reviewed fun key hmem => (hadded key hmem).imp_right ?_
  rintro ⟨pr, hpr, nwo, hnwo, hkey, hlogin⟩
  exact ⟨nwo, pr.number, hkey, hforge.hits _ _ pr hpr nwo hnwo ▸ hlogin⟩

/-- The four parts of a tick's turns, with what keeps them apart. -/
structure Parts (forge : Forge) (tick : Tick) (lastPoll botLogin : String)
    (author : String → UInt32 → String) (reviewed : Reviewed)
    (own requests tracked contributed : List Turn) : Prop where
  apart : own.Pairwise Turn.Apart ∧ tracked.Pairwise Turn.Apart ∧
    contributed.Pairwise Turn.Apart
  own_author : ∀ turn ∈ own, author turn.repo turn.prNumber = botLogin
  requests_about : ∀ turn ∈ requests, turn.about = []
  tracked_author : ∀ turn ∈ tracked, author turn.repo turn.prNumber ≠ botLogin
  tracked_key : ∀ turn ∈ tracked,
    trackingKey turn.repo turn.prNumber ∈ reviewed
  contributed_author : ∀ turn ∈ contributed,
    author turn.repo turn.prNumber ≠ botLogin
  contributed_key : ∀ turn ∈ contributed,
    trackingKey turn.repo turn.prNumber ∉ reviewed
  fresh : ∀ turn ∈ own ++ (tracked ++ contributed), ∀ id ∈ turn.about,
    Fresh forge tick lastPoll turn.repo turn.prNumber id

theorem Parts.turns_apart {reviewed : Reviewed}
    {own requests tracked contributed : List Turn}
    (hparts : Parts forge tick lastPoll botLogin author reviewed own requests
      tracked contributed) :
    (own ++ (requests ++ (tracked ++ contributed))).Pairwise Turn.Apart := by
  have hrequests : requests.Pairwise Turn.Apart :=
    List.pairwise_of_forall_mem_list fun first _ second hsecond =>
      Turn.apart_of_nil (hparts.requests_about second hsecond)
  have hne (first second : Turn)
      (hdiffer : ¬ (first.repo = second.repo ∧
        first.prNumber = second.prNumber)) : first.Apart second :=
    Turn.apart_of_ne (not_and_or.1 hdiffer)
  rw [List.pairwise_append, List.pairwise_append, List.pairwise_append]
  refine ⟨hparts.apart.1, ⟨hrequests, ⟨hparts.apart.2.1, hparts.apart.2.2,
    fun first hfirst second hsecond => hne _ _ ?_⟩,
    fun first hfirst second _ =>
      (Turn.apart_of_nil (hparts.requests_about first hfirst)).symm⟩,
    fun first hfirst second hsecond => ?_⟩
  · rintro ⟨hrepo, hnumber⟩
    refine hparts.contributed_key second hsecond ?_
    rw [← hrepo, ← hnumber]
    exact hparts.tracked_key first hfirst
  · rw [List.mem_append, List.mem_append] at hsecond
    rcases hsecond with hsecond | hsecond | hsecond
    · exact Turn.apart_of_nil (hparts.requests_about second hsecond)
    · refine hne _ _ ?_
      rintro ⟨hrepo, hnumber⟩
      refine hparts.tracked_author second hsecond ?_
      rw [← hrepo, ← hnumber]
      exact hparts.own_author first hfirst
    · refine hne _ _ ?_
      rintro ⟨hrepo, hnumber⟩
      refine hparts.contributed_author second hsecond ?_
      rw [← hrepo, ← hnumber]
      exact hparts.own_author first hfirst

theorem Parts.turns_fresh {reviewed : Reviewed}
    {own requests tracked contributed : List Turn}
    (hparts : Parts forge tick lastPoll botLogin author reviewed own requests
      tracked contributed) :
    ∀ turn ∈ own ++ (requests ++ (tracked ++ contributed)), ∀ id ∈ turn.about,
      Fresh forge tick lastPoll turn.repo turn.prNumber id := by
  intro turn hmem id hid
  rw [List.mem_append, List.mem_append] at hmem
  rcases hmem with hmem | hmem | hmem
  · exact hparts.fresh turn (List.mem_append_left _ hmem) id hid
  · rw [hparts.requests_about turn hmem] at hid
    cases hid
  · exact hparts.fresh turn (List.mem_append_right _ hmem) id hid

theorem parts_own {acts : List Act} {next : ℕ} (reviewed : Reviewed)
    (hforge : forge.Attributed author botLogin)
    (hpass : feedbackPass forge tick botLogin trust lastPoll 0 =
      (some acts, next)) :
    Parts forge tick lastPoll botLogin author reviewed (turnsOf acts) [] [] [] := by
  rw [feedbackPass_some hpass]
  refine ⟨⟨feedback_apart (fun _ _ => feedbackDispatch_some)
      (withNwo_distinct hforge), .nil, .nil⟩, fun turn hmem => ?_, by simp, by simp,
    by simp, by simp, by simp, fun turn hmem id hid => ?_⟩
  · obtain ⟨⟨pr, hlisted, hnumber⟩, -⟩ :=
      fresh_of_feedback (fun _ _ => feedbackDispatch_some) hmem
    obtain ⟨hpr, hnwo⟩ := mem_withNwo.1 hlisted
    rw [← hnumber, ← hforge.hits _ _ pr hpr _ hnwo]
    exact hforge.own _ pr hpr
  · rw [List.append_nil, List.append_nil] at hmem
    exact (fresh_of_feedback (fun _ _ => feedbackDispatch_some) hmem).2 id hid

theorem requests_about {mid : PollState} {reviews : List Act} {n next : ℕ}
    (hpass : reviewRequestPass forge tick botLogin trust state n =
      (some (mid, reviews), next)) :
    ∀ turn ∈ turnsOf reviews, turn.about = [] := by
  obtain ⟨ds, m, hrun, rfl⟩ := reviewRequestPass_some hpass
  obtain ⟨rfl, hrest⟩ := Prod.mk.inj hrun
  obtain ⟨rfl, -⟩ := Prod.mk.inj hrest
  intro turn hmem
  obtain ⟨d, hd, rfl, -⟩ := runReviews_turn hmem
  exact (decideReviewRequests_mem hd).1

theorem tracked_turns {mid after : PollState} {tracked : List Act} {n next : ℕ}
    (htracks : TracksOthers author botLogin mid)
    (hpass : trackedPass forge tick botLogin trust mid n =
      (after, tracked, next)) :
    (turnsOf tracked).Pairwise Turn.Apart ∧
      ∀ turn ∈ turnsOf tracked, author turn.repo turn.prNumber ≠ botLogin ∧
        trackingKey turn.repo turn.prNumber ∈ after.reviewed ∧
        ∀ id ∈ turn.about,
          Fresh forge tick mid.lastPoll turn.repo turn.prNumber id := by
  obtain ⟨gone, pruned, m, -, heq⟩ :=
    trackedPass_eq forge tick botLogin trust mid n
  rw [hpass, Prod.mk.injEq, Prod.mk.injEq] at heq
  obtain ⟨rfl, rfl, -⟩ := heq
  have hturns : turnsOf ((if gone.isEmpty = true then [] else [.save pruned]) ++
      (runReviews tick pruned
        (trackedDispatches forge tick botLogin trust mid n) m).2.1) =
      turnsOf (runReviews tick pruned
        (trackedDispatches forge tick botLogin trust mid n) m).2.1 := by
    rw [turnsOf_append]
    split <;> rfl
  rw [hturns]
  refine ⟨(tracked_apart htracks n).sublist (runReviews_turns_sublist _ _ _),
    fun turn hmem => ?_⟩
  obtain ⟨d, hd, rfl, hkept⟩ := runReviews_turn hmem
  obtain ⟨hkey, hparse, hfresh⟩ := fresh_of_tracked hd
  have hcanonical : d.key = trackingKey d.repo d.prNumber :=
    htracks.canonical _ hkey _ _ hparse
  exact ⟨htracks.notOwn _ _ (hcanonical ▸ hkey), hcanonical ▸ hkept, hfresh⟩

theorem contributed_turns {contributed : List Act} {n next : ℕ}
    (hforge : forge.Attributed author botLogin)
    (hpass : contributedPass forge tick botLogin trust state n =
      (some contributed, next)) :
    (turnsOf contributed).Pairwise Turn.Apart ∧
      ∀ turn ∈ turnsOf contributed,
        author turn.repo turn.prNumber ≠ botLogin ∧
        trackingKey turn.repo turn.prNumber ∉ state.reviewed ∧
        ∀ id ∈ turn.about,
          Fresh forge tick state.lastPoll turn.repo turn.prNumber id := by
  rw [contributedPass_some hpass]
  refine ⟨feedback_apart (fun _ _ => contributedDispatch_some)
    (contributedCandidates_distinct hforge), fun turn hmem => ?_⟩
  obtain ⟨⟨pr, hlisted, hnumber⟩, hfresh⟩ :=
    fresh_of_feedback (fun _ _ => contributedDispatch_some) hmem
  obtain ⟨hpr, hnwo, hkey⟩ := mem_contributedCandidates.1 hlisted
  rw [hnumber] at hkey
  refine ⟨?_, hkey, hfresh⟩
  rw [← hnumber, ← hforge.hits _ _ pr hpr _ hnwo]
  exact hforge.contributed _ pr hpr

theorem Parts.of_passes {reviewed : Reviewed}
    {own requests tracked contributed : List Turn}
    (hown : Parts forge tick lastPoll botLogin author reviewed own [] [] [])
    (hrequests : ∀ turn ∈ requests, turn.about = [])
    (htrackedApart : tracked.Pairwise Turn.Apart)
    (htracked : ∀ turn ∈ tracked, author turn.repo turn.prNumber ≠ botLogin ∧
      trackingKey turn.repo turn.prNumber ∈ reviewed ∧
      ∀ id ∈ turn.about, Fresh forge tick lastPoll turn.repo turn.prNumber id)
    (hapart : contributed.Pairwise Turn.Apart)
    (hcontributed : ∀ turn ∈ contributed,
      author turn.repo turn.prNumber ≠ botLogin ∧
      trackingKey turn.repo turn.prNumber ∉ reviewed ∧
      ∀ id ∈ turn.about, Fresh forge tick lastPoll turn.repo turn.prNumber id) :
    Parts forge tick lastPoll botLogin author reviewed own requests tracked
      contributed where
  apart := ⟨hown.apart.1, htrackedApart, hapart⟩
  own_author := hown.own_author
  requests_about := hrequests
  tracked_author turn hmem := (htracked turn hmem).1
  tracked_key turn hmem := (htracked turn hmem).2.1
  contributed_author turn hmem := (hcontributed turn hmem).1
  contributed_key turn hmem := (hcontributed turn hmem).2.1
  fresh turn hmem := by
    rw [List.mem_append, List.mem_append] at hmem
    rcases hmem with hmem | hmem | hmem
    · exact hown.fresh turn (List.mem_append_left _ hmem)
    · exact (htracked turn hmem).2.2
    · exact (hcontributed turn hmem).2.2

/-- The turns of a tick fall into parts, and the tick keeps the map's shape. -/
theorem pollOnce_parts (tick : Tick) (trust : Trust)
    (hforge : forge.Attributed author botLogin)
    (htracks : TracksOthers author botLogin state) :
    (∃ reviewed own requests tracked contributed,
      Parts forge tick state.lastPoll botLogin author reviewed own requests tracked
        contributed ∧
      turnsOf (pollOnce forge tick botLogin trust state).acts =
        own ++ (requests ++ (tracked ++ contributed))) ∧
      TracksOthers author botLogin
        (pollOnce forge tick botLogin trust state).state ∧
      (pollOnce forge tick botLogin trust state).state.lastPoll =
        state.lastPoll := by
  obtain hfail | ⟨acts, n, hacts, hrest⟩ :=
    pollOnce_cases forge tick botLogin trust state
  · rw [hfail]
    exact ⟨⟨∅, [], [], [], [], ⟨⟨.nil, .nil, .nil⟩, by simp, by simp, by simp,
      by simp, by simp, by simp, by simp⟩, rfl⟩, htracks, rfl⟩
  · obtain hfail | ⟨mid, reviews, n₂, after, tracked, n₃, hmid, hafter, hrest⟩ :=
      hrest
    · rw [hfail]
      exact ⟨⟨∅, _, [], [], [], parts_own ∅ hforge hacts, by simp⟩, htracks, rfl⟩
    · have hmidTracks := htracks.requests hforge hmid
      obtain ⟨hmidPoll, -, -⟩ := reviewRequestPass_reviewed hmid
      obtain ⟨hafterPoll, hless⟩ := trackedPass_reviewed hafter
      have hafterTracks : TracksOthers author botLogin after :=
        hmidTracks.of_reviewed fun key hmem => .inl (hless key hmem)
      obtain ⟨htrackedApart, htracked⟩ := tracked_turns hmidTracks hafter
      have hown := parts_own after.reviewed hforge hacts
      rw [hmidPoll] at htracked
      have hpoll : after.lastPoll = state.lastPoll := hafterPoll.trans hmidPoll
      obtain hfail | ⟨contributed, n₄, hcontributed, hall⟩ := hrest
      · rw [hfail]
        exact ⟨⟨_, _, _, _, [], hown.of_passes (requests_about hmid)
          htrackedApart htracked .nil (by simp), by simp⟩, hafterTracks,
          hpoll⟩
      · obtain ⟨hapart, hturns⟩ := contributed_turns hforge hcontributed
        rw [hpoll] at hturns
        rw [hall]
        exact ⟨⟨_, _, _, _, _, hown.of_passes (requests_about hmid)
          htrackedApart htracked hapart hturns, by simp⟩, hafterTracks,
          hpoll⟩

/-- Within a tick no two turns are about one post. -/
theorem pollTick_apart (hforge : forge.Attributed author botLogin)
    (htracks : TracksOthers author botLogin state) :
    (turnsOf (pollTick forge tick botLogin trust state).acts).Pairwise
      Turn.Apart := by
  obtain ⟨⟨reviewed, own, requests, tracked, contributed, hparts, heq⟩, -⟩ :=
    pollOnce_parts tick trust hforge htracks
  rw [pollTick_turns, heq]
  exact hparts.turns_apart

theorem pollTick_fresh (hforge : forge.Attributed author botLogin)
    (htracks : TracksOthers author botLogin state) {turn : Turn}
    (hmem : turn ∈ turnsOf (pollTick forge tick botLogin trust state).acts)
    {nwo : String} {number : UInt32} {id : PostId}
    (habout : turn.IsAbout nwo number id) :
    Fresh forge tick state.lastPoll nwo number id := by
  obtain ⟨⟨reviewed, own, requests, tracked, contributed, hparts, heq⟩, -⟩ :=
    pollOnce_parts tick trust hforge htracks
  rw [pollTick_turns, heq] at hmem
  have hfresh := hparts.turns_fresh turn hmem id habout.about
  rwa [habout.repo, habout.prNumber] at hfresh

theorem pollStep_tracks (hforge : forge.Attributed author botLogin)
    (htracks : TracksOthers author botLogin state) (tick : Tick) :
    TracksOthers author botLogin (pollStep forge botLogin trust state tick) := by
  obtain ⟨-, hkept, -⟩ := pollOnce_parts tick trust hforge htracks
  refine hkept.of_reviewed fun key hmem => .inl ?_
  rwa [pollStep, pollTick, Outcome.advance_reviewed] at hmem

/-- A good tick leaves its start as the cursor, a failed one the old cursor. -/
theorem pollStep_cursor (trust : Trust)
    (hforge : forge.Attributed author botLogin)
    (htracks : TracksOthers author botLogin state) (tick : Tick) :
    (pollTick forge tick botLogin trust state).ok = true ∧
        (pollStep forge botLogin trust state tick).lastPoll = tick.start.stamp ∨
      (pollTick forge tick botLogin trust state).ok = false ∧
        (pollStep forge botLogin trust state tick).lastPoll = state.lastPoll := by
  obtain ⟨-, -, hpoll⟩ := pollOnce_parts tick trust hforge htracks
  simp only [pollStep, pollTick, Outcome.advance_ok, Outcome.advance_lastPoll]
  cases (pollOnce forge tick botLogin trust state).ok with
  | false => exact .inr ⟨rfl, hpoll⟩
  | true => exact .inl ⟨rfl, rfl⟩

/-- While the cursor stays behind a post, every tick that starts after the post
fails. -/
theorem failed_while_behind (hforge : forge.Attributed author botLogin)
    {post : Post} {ticks : List Tick} {state : PollState}
    (htracks : TracksOthers author botLogin state)
    (hlater : ∀ tick ∈ ticks, post.appears ≤ tick.start)
    (hbehind : (run (pollStep forge botLogin trust) state ticks).lastPoll <
      post.appears.stamp) :
    state.lastPoll < post.appears.stamp ∧
      Meets (pollStep forge botLogin trust)
        (fun state tick => (pollTick forge tick botLogin trust state).ok = false)
        state ticks := by
  induction ticks generalizing state with
  | nil => exact ⟨hbehind, trivial⟩
  | cons tick ticks ih =>
      rw [List.forall_mem_cons] at hlater
      obtain ⟨hnext, hrest⟩ :=
        ih (pollStep_tracks hforge htracks tick) hlater.2 hbehind
      obtain ⟨-, hcursor⟩ | ⟨hfail, hcursor⟩ :=
        pollStep_cursor trust hforge htracks tick
      · rw [hcursor, Moment.stamp_lt_iff] at hnext
        exact absurd (Moment.epoch_mono hlater.1) (not_le.2 hnext)
      · exact ⟨hcursor ▸ hnext, hfail, hrest⟩

end OneTick

/-! ### Two ticks -/

/-- A tick starts when all before it are over. -/
def Tick.Before (earlier later : Tick) : Prop :=
  ∀ n, earlier.clock n ≤ later.start

/-- A turn of the tick is about that post. -/
def Sends (forge : Forge) (botLogin : String) (trust : Trust) (nwo : String)
    (number : UInt32) (id : PostId) (state : PollState) (tick : Tick) : Prop :=
  ∃ turn ∈ turnsOf (pollTick forge tick botLogin trust state).acts,
    turn.IsAbout nwo number id

theorem ReviewPost.id_of_post? {review : ReviewPost} {post : Post}
    (hpost : review.post? = some post) : post.id = .review review.id := by
  obtain ⟨submitted, -, rfl⟩ := Option.map_eq_some_iff.1 hpost
  rfl

theorem DiffPost.id_of_post? {reviews : List ReviewPost} {dc : DiffPost}
    {post : Post} (hpost : dc.post? reviews = some post) :
    post.id = .diffComment dc.id := by
  obtain ⟨appears, -, rfl⟩ := Option.map_eq_some_iff.1 hpost
  rfl

/-- The service keeps one post under an id. -/
theorem Forge.posts_id_inj (forge : Forge) {nwo : String} {number : UInt32}
    {first second : Post} (hfirst : first ∈ forge.posts nwo number)
    (hsecond : second ∈ forge.posts nwo number) (hid : first.id = second.id) :
    first = second := by
  simp only [Forge.posts, List.mem_append, List.mem_filterMap,
    List.mem_map] at hfirst hsecond
  obtain ⟨review, hmem, hpost⟩ | ⟨comment, hmem, rfl⟩ | ⟨dc, hmem, hpost⟩ :=
    hfirst <;>
  obtain ⟨review', hmem', hpost'⟩ | ⟨comment', hmem', rfl⟩ |
    ⟨dc', hmem', hpost'⟩ := hsecond
  · rw [ReviewPost.id_of_post? hpost, ReviewPost.id_of_post? hpost'] at hid
    obtain rfl := List.inj_on_of_nodup_map (forge.reviews_distinct nwo number)
      hmem hmem' (PostId.review.inj hid)
    exact Option.some.inj (hpost.symm.trans hpost')
  · rw [ReviewPost.id_of_post? hpost] at hid
    cases hid
  · rw [ReviewPost.id_of_post? hpost, DiffPost.id_of_post? hpost'] at hid
    cases hid
  · rw [ReviewPost.id_of_post? hpost'] at hid
    cases hid
  · obtain rfl := List.inj_on_of_nodup_map (forge.comments_distinct nwo number)
      hmem hmem' (PostId.comment.inj hid)
    rfl
  · rw [DiffPost.id_of_post? hpost'] at hid
    cases hid
  · rw [DiffPost.id_of_post? hpost, ReviewPost.id_of_post? hpost'] at hid
    cases hid
  · rw [DiffPost.id_of_post? hpost] at hid
    cases hid
  · rw [DiffPost.id_of_post? hpost, DiffPost.id_of_post? hpost'] at hid
    obtain rfl := List.inj_on_of_nodup_map
      (forge.diffComments_distinct nwo number) hmem hmem'
      (PostId.diffComment.inj hid)
    exact Option.some.inj (hpost.symm.trans hpost')

/-- Within a tick no two turns are about one post.  If two ticks of a run send
a post, all ticks between them failed, and so did the earlier one unless it
started in a second before the post's own. -/
theorem posts_repeated (forge : Forge) (botLogin : String) (trust : Trust)
    (author : String → UInt32 → String)
    (hforge : forge.Attributed author botLogin)
    (start : PollState) (htracks : TracksOthers author botLogin start)
    (ticks : List Tick) (hserial : ticks.Pairwise Tick.Before) :
    Meets (pollStep forge botLogin trust)
        (fun state tick =>
          (turnsOf (pollTick forge tick botLogin trust state).acts).Pairwise
            Turn.Apart)
        start ticks ∧
      ∀ before early mid late after,
        ticks = before ++ early :: (mid ++ late :: after) →
        ∀ nwo number, ∀ post ∈ forge.posts nwo number,
        Sends forge botLogin trust nwo number post.id
          (run (pollStep forge botLogin trust) start before) early →
        Sends forge botLogin trust nwo number post.id
          (run (pollStep forge botLogin trust) start (before ++ early :: mid))
          late →
        ((pollTick forge early botLogin trust
            (run (pollStep forge botLogin trust) start before)).ok = false ∨
          early.start.epoch < post.appears.epoch) ∧
        Meets (pollStep forge botLogin trust)
          (fun state tick => (pollTick forge tick botLogin trust state).ok = false)
          (run (pollStep forge botLogin trust) start (before ++ [early])) mid := by
  have hkeep (state : PollState) (tick : Tick)
      (htracks : TracksOthers author botLogin state) :
      TracksOthers author botLogin (pollStep forge botLogin trust state tick) :=
    pollStep_tracks hforge htracks tick
  constructor
  · have hall : Meets (pollStep forge botLogin trust) (fun _ _ => True) start
        ticks := meets_of_forall (fun _ _ _ => trivial) start
    exact meets_of_invariant (fun state tick htracks _ =>
      ⟨hkeep state tick htracks, pollTick_apart hforge htracks⟩) htracks hall
  · rintro before early mid late after rfl nwo number post hpost
      ⟨turn, hturn, habout⟩ ⟨turn', hturn', habout'⟩
    have hearly : TracksOthers author botLogin
        (run (pollStep forge botLogin trust) start before) :=
      invariant_run hkeep htracks before
    have hlate : TracksOthers author botLogin
        (run (pollStep forge botLogin trust) start (before ++ early :: mid)) :=
      invariant_run hkeep htracks _
    obtain ⟨seen, hseen, hid, ⟨n, happears⟩, -⟩ :=
      pollTick_fresh hforge hearly hturn habout
    obtain rfl := forge.posts_id_inj hseen hpost hid
    obtain ⟨again, hagain, hid, -, hbehind⟩ :=
      pollTick_fresh hforge hlate hturn' habout'
    obtain rfl := forge.posts_id_inj hagain hpost hid
    -- Later ticks start after the earlier one saw the post.
    have hlater : ∀ tick ∈ mid, again.appears ≤ tick.start := by
      intro tick hmem
      have hserial := (List.pairwise_append.1 hserial).2.1
      exact happears.trans ((List.pairwise_cons.1 hserial).1 tick
        (List.mem_append_left _ hmem) n)
    rw [run_append, run_cons] at hbehind
    obtain ⟨hnext, hmid⟩ := failed_while_behind hforge
      (hkeep _ early hearly) hlater hbehind
    rw [run_append, run_cons, run_nil]
    refine ⟨?_, hmid⟩
    obtain ⟨-, hcursor⟩ | ⟨hfail, -⟩ :=
      pollStep_cursor trust hforge hearly early
    · rw [hcursor, Moment.stamp_lt_iff] at hnext
      exact .inr hnext
    · exact .inl hfail

theorem clock_mono_const (later : Moment) : Monotone fun _ : ℕ => later :=
  monotone_const

/-- A tick whose requests all see the same later moment. -/
def slowTick (start later : Moment) (hle : start ≤ later) : Tick where
  start := start
  clock _ := later
  succeeds _ := true
  findings _ _ := []
  start_le _ := hle
  clock_mono := clock_mono_const later

/-- alice comments while the first tick is under way. -/
def midTickComment : CommentPost where
  id := 7
  user := ⟨"alice"⟩
  body := "please fix"
  created := Moment.of2026 2000

def ownSearch (query : String) : List SearchIssue :=
  if query = "is:pr is:open author:kitaebot" then [sharedPr "kitaebot"] else []

/-- The bot's own pull request with that comment. -/
def commentedForge : Forge := smallForge ownSearch none (some midTickComment)

theorem mem_ownSearch {query : String} {pr : SearchIssue}
    (hmem : pr ∈ ownSearch query) :
    query = "is:pr is:open author:kitaebot" ∧ pr = sharedPr "kitaebot" := by
  rw [ownSearch] at hmem
  split at hmem
  · exact ⟨by assumption, List.mem_singleton.1 hmem⟩
  · cases hmem

theorem commentedForge_attributed :
    commentedForge.Attributed (fun _ _ => "kitaebot") "kitaebot" where
  hits query now pr hmem nwo hnwo := by
    obtain ⟨-, rfl⟩ := mem_ownSearch hmem
    rfl
  own now pr hmem := by
    replace hmem : pr ∈ ownSearch (listBotPrs "kitaebot") := hmem
    obtain ⟨-, rfl⟩ := mem_ownSearch hmem
    rfl
  contributed now pr hmem := by
    replace hmem : pr ∈ ownSearch (contributedQuery "kitaebot") := hmem
    obtain ⟨hquery, -⟩ := mem_ownSearch hmem
    exact absurd hquery (by decide)
  distinct query now := by
    show (ownSearch query).Pairwise _
    rw [ownSearch]
    split
    · exact List.pairwise_singleton _ _
    · exact .nil

def overlapping : List Tick :=
  [slowTick (Moment.of2026 1000) (Moment.of2026 3000) (by decide),
    instantTick (Moment.of2026 5000)]

theorem overlapping_serial : overlapping.Pairwise Tick.Before := by
  rw [overlapping, List.pairwise_pair]
  intro n
  show Moment.of2026 3000 ≤ Moment.of2026 5000
  decide

instance (turn : Turn) (nwo : String) (number : UInt32) (id : PostId) :
    Decidable (turn.IsAbout nwo number id) :=
  decidable_of_iff
    (turn.repo = nwo ∧ turn.prNumber = number ∧ id ∈ turn.about)
    ⟨fun ⟨hrepo, hnumber, habout⟩ => ⟨hrepo, hnumber, habout⟩,
      fun h => ⟨h.repo, h.prNumber, h.about⟩⟩

instance (forge : Forge) (botLogin : String) (trust : Trust) (nwo : String)
    (number : UInt32) (id : PostId) (state : PollState) (tick : Tick) :
    Decidable (Sends forge botLogin trust nwo number id state tick) :=
  inferInstanceAs (Decidable (∃ turn ∈ _, _))

/-- Two good ticks in a row send one comment: the cursor is the first tick's
start, and that tick saw further. -/
theorem midTickComment_repeated :
    commentedForge.Attributed (fun _ _ => "kitaebot") "kitaebot" ∧
      TracksOthers (fun _ _ => "kitaebot") "kitaebot" (pollStart ∅) ∧
      overlapping.Pairwise Tick.Before ∧
      midTickComment.post ∈ commentedForge.posts "owner/repo" 1 ∧
      Meets (pollStep commentedForge "kitaebot" aliceTrust)
        (fun state tick =>
          (pollTick commentedForge tick "kitaebot" aliceTrust state).ok = true ∧
          Sends commentedForge "kitaebot" aliceTrust "owner/repo" 1 (.comment 7)
            state tick)
        (pollStart ∅) overlapping := by
  refine ⟨commentedForge_attributed, tracksOthers_empty _ _ _ _,
    overlapping_serial, ?_, by decide⟩
  exact List.mem_append_right _ (List.mem_append_left _
    (List.mem_map_of_mem (List.mem_singleton_self _)))

/-- The second tick of that run repeats the comment, so the first one started
in an earlier second. -/
theorem posts_repeated_overlapping :
    (pollTick commentedForge
        (slowTick (Moment.of2026 1000) (Moment.of2026 3000) (by decide))
        "kitaebot" aliceTrust (pollStart ∅)).ok = false ∨
      (Moment.of2026 1000).epoch < (Moment.of2026 2000).epoch :=
  ((posts_repeated commentedForge "kitaebot" aliceTrust _
    commentedForge_attributed (pollStart ∅) (tracksOthers_empty _ _ _ _)
    overlapping overlapping_serial).2 [] _ [] _ [] rfl "owner/repo" 1
      midTickComment.post
      (List.mem_append_right _ (List.mem_append_left _
        (List.mem_map_of_mem (List.mem_singleton_self _))))
      (by decide) (by decide)).1

end Kitaebot.Channel
