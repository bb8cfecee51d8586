import Kitaebot.Channel.PrTicks
import Kitaebot.Core.CursorPoll

/-!
# Polling pull requests

What a whole run of ticks dispatches.  The cursor is the start of the last good
tick, in whole seconds, and a post is new if its stamp is greater.  A post that
appears after a tick's requests is left to the next tick, so it must not share
its second with that tick's start; one that appears during a tick is seen both
by that tick and by the next.
-/

namespace Kitaebot.Channel

open Kitaebot.Run
open Kitaebot.Text
open Kitaebot.Time

def pollStep (forge : Forge) (botLogin : String) (trust : Trust)
    (state : PollState) (tick : Tick) : PollState :=
  (pollTick forge tick botLogin trust state).state

theorem parseTrackingKey_trackingKey (nwo : String) (number : UInt32) :
    parseTrackingKey (trackingKey nwo number) = some (nwo, number) := by
  have hdigits : '#' ∉ (toString number.toNat).toList := fun hmem =>
    absurd (isDigit_of_repr hmem) (by decide)
  have hcut : rsplitOnce '#' (trackingKey nwo number) =
      some (nwo, toString number.toNat) :=
    rsplitOnce_append '#' nwo (toString number.toNat) hdigits
  simp only [parseTrackingKey, hcut, Option.bind_some, parseU32_repr,
    Option.map_some]

theorem trackingKey_inj {nwo nwo' : String} {number number' : UInt32}
    (heq : trackingKey nwo number = trackingKey nwo' number') :
    nwo = nwo' ∧ number = number' := by
  have hparse := parseTrackingKey_trackingKey nwo number
  rw [heq, parseTrackingKey_trackingKey, Option.some.injEq,
    Prod.mk.injEq] at hparse
  exact ⟨hparse.1.symm, hparse.2.symm⟩

/-! ### Nothing is lost -/

section Complete

variable {forge : Forge} {tick : Tick} {botLogin : String} {trust : Trust}
  {nwo : String} {number : UInt32} {post : Post} {state : PollState}

/-- The search lists the pull request throughout the tick. -/
def Listed (forge : Forge) (tick : Tick) (query nwo : String)
    (number : UInt32) : Prop :=
  ∀ n, ∃ pr ∈ forge.search query (tick.clock n),
    pr.nwo = some nwo ∧ pr.number = number

/-- The pull request is not tracked, nor will be in this tick. -/
def Untracked (forge : Forge) (tick : Tick) (botLogin : String)
    (state : PollState) (nwo : String) (number : UInt32) : Prop :=
  trackingKey nwo number ∉ state.reviewed ∧
    ∀ n, ∀ pr ∈ forge.search (listReviewRequestedPrs botLogin) (tick.clock n),
      pr.nwo = some nwo → pr.number ≠ number

/-- The tick's own, tracked or contributed pull requests include this one; the
tracked ones count for comments only. -/
inductive Covered (forge : Forge) (tick : Tick) (botLogin : String)
    (state : PollState) (nwo : String) (number : UInt32) (id : PostId) : Prop where
  | own (hlisted : Listed forge tick (listBotPrs botLogin) nwo number)
  | tracked (hkey : trackingKey nwo number ∈ state.reviewed)
      (hkind : ∀ review, id ≠ .review review)
  | contributed (hlisted : Listed forge tick (contributedQuery botLogin) nwo number)
      (hkind : (∀ review, id ≠ .review review) ∨
        Untracked forge tick botLogin state nwo number)

theorem pollOnce_ok (hup : tick.Succeeds) (state : PollState) :
    (pollOnce forge tick botLogin trust state).ok = true := by
  simp only [pollOnce, feedbackPass, reviewRequestPass, contributedPass,
    Tick.ask_of_succeeds hup]

/-- The passes of a tick without failures. -/
theorem pollOnce_of_succeeds (forge : Forge) (botLogin : String)
    (trust : Trust) (hup : tick.Succeeds) (state : PollState) :
    ∃ acts n mid reviews n₂ after tracked n₃ contributed n₄,
      feedbackPass forge tick botLogin trust state.lastPoll 0 =
        (some acts, n) ∧
      reviewRequestPass forge tick botLogin trust state n =
        (some (mid, reviews), n₂) ∧
      trackedPass forge tick botLogin trust mid n₂ = (after, tracked, n₃) ∧
      contributedPass forge tick botLogin trust after n₃ =
        (some contributed, n₄) ∧
      pollOnce forge tick botLogin trust state =
        ⟨true, after, acts ++ (reviews ++ (tracked ++ contributed))⟩ := by
  have hok : (pollOnce forge tick botLogin trust state).ok = true :=
    pollOnce_ok hup state
  obtain hfail | ⟨acts, n, hacts, hfail | ⟨mid, reviews, n₂, after, tracked, n₃,
    hmid, hafter, hfail | ⟨contributed, n₄, hcontributed, hall⟩⟩⟩ :=
    pollOnce_cases forge tick botLogin trust state
  · rw [hfail] at hok
    cases hok
  · rw [hfail] at hok
    cases hok
  · rw [hfail] at hok
    cases hok
  · exact ⟨acts, n, mid, reviews, n₂, after, tracked, n₃, contributed, n₄, hacts,
      hmid, hafter, hcontributed, hall⟩

theorem feedbackPass_carries {acts : List Act} {next : ℕ} {lastPoll : String}
    (hup : tick.Succeeds)
    (hpass : feedbackPass forge tick botLogin trust lastPoll 0 =
      (some acts, next))
    (hlisted : Listed forge tick (listBotPrs botLogin) nwo number)
    (hpost : post ∈ forge.posts nwo number)
    (hwanted : post.Wanted botLogin trust)
    (hseen : post.appears ≤ tick.clock 0)
    (hcursor : lastPoll < post.appears.stamp) :
    ∃ turn ∈ turnsOf acts, turn.Carries nwo number post := by
  have hlater (m : ℕ) : post.appears ≤ tick.clock m :=
    hseen.trans (tick.clock_mono (Nat.zero_le m))
  obtain ⟨pr, hpr, hnwo, rfl⟩ := hlisted 0
  obtain ⟨s, hs, rfl, rfl⟩ := feedbackSnapshots_complete
    forge botLogin hup (mem_withNwo.2 ⟨hpr, hnwo⟩) 1
  obtain ⟨-, m, hfetched⟩ := feedbackSnapshots_fetched hs
  obtain ⟨d, hd, hrepo, hnumber, habout, hmentions⟩ := feedbackDispatch_carries
    (FeedbackSnapshot.holds hpost hwanted hcursor hfetched.reviews
      hfetched.comments hfetched.diffComments (hlater _) (hlater _) (hlater _))
  rw [feedbackPass_some hpass]
  exact ⟨_, List.mem_map_of_mem (List.mem_filterMap.2 ⟨s, hs, hd⟩), hrepo,
    hnumber, habout, hmentions⟩

theorem contributedPass_carries {acts : List Act} {n next : ℕ}
    (hup : tick.Succeeds)
    (hpass : contributedPass forge tick botLogin trust state n =
      (some acts, next))
    (hlisted : Listed forge tick (contributedQuery botLogin) nwo number)
    (hkey : trackingKey nwo number ∉ state.reviewed)
    (hpost : post ∈ forge.posts nwo number)
    (hwanted : post.Wanted botLogin trust)
    (hseen : post.appears ≤ tick.clock 0)
    (hcursor : state.lastPoll < post.appears.stamp) :
    ∃ turn ∈ turnsOf acts, turn.Carries nwo number post := by
  have hlater (m : ℕ) : post.appears ≤ tick.clock m :=
    hseen.trans (tick.clock_mono (Nat.zero_le m))
  obtain ⟨pr, hpr, hnwo, rfl⟩ := hlisted n
  obtain ⟨s, hs, rfl, rfl⟩ := feedbackSnapshots_complete
    forge botLogin hup
      (mem_contributedCandidates.2 ⟨hpr, hnwo, hkey⟩) (n + 1)
  obtain ⟨-, m, hfetched⟩ := feedbackSnapshots_fetched hs
  obtain ⟨d, hd, hrepo, hnumber, habout, hmentions⟩ :=
    contributedDispatch_carries (FeedbackSnapshot.holds hpost hwanted hcursor
      hfetched.reviews hfetched.comments hfetched.diffComments (hlater _)
        (hlater _) (hlater _))
  rw [contributedPass_some hpass]
  exact ⟨_, List.mem_map_of_mem (List.mem_filterMap.2 ⟨s, hs, hd⟩), hrepo,
    hnumber, habout, hmentions⟩

theorem trackedPass_carries {n : ℕ} (hup : tick.Succeeds)
    (hkey : trackingKey nwo number ∈ state.reviewed)
    (hopen : ∀ m, (forge.pull nwo number (tick.clock m)).state = "open")
    (hpath : (checkoutRelPath nwo).isSome = true)
    (hpost : post ∈ forge.posts nwo number)
    (hkind : ∀ review, post.id ≠ .review review)
    (hwanted : post.Wanted botLogin trust)
    (hseen : post.appears ≤ tick.clock 0)
    (hcursor : state.lastPoll < post.appears.stamp) :
    ∃ turn ∈ turnsOf (trackedPass forge tick botLogin trust state n).2.1,
      turn.Carries nwo number post := by
  have hlater (m : ℕ) : post.appears ≤ tick.clock m :=
    hseen.trans (tick.clock_mono (Nat.zero_le m))
  have hentry : trackingKey nwo number ∈
      state.reviewed.toList.map Prod.fst := by
    rw [Std.ExtTreeMap.map_fst_toList_eq_keys]
    exact Std.ExtTreeMap.mem_keys.2 hkey
  obtain ⟨s, hs, hskey, rfl, rfl⟩ := trackedSnapshots_complete
    forge botLogin hup hentry
      (parseTrackingKey_trackingKey nwo number) n
  obtain ⟨-, -, m, hfetched⟩ := trackedSnapshots_fetched hs
  obtain ⟨d, hd, hrepo, hnumber, habout, hmentions⟩ := trackedDispatch_carries
    (TrackedSnapshot.holds hpost hkind hwanted hcursor hfetched.reviews
      hfetched.comments hfetched.diffComments (hlater _) (hlater _) (hlater _))
    (hfetched.state.trans (hopen m)) (hskey ▸ hkey) hpath
  obtain ⟨gone, pruned, k, -, heq⟩ := trackedPass_eq forge tick
    botLogin trust state n
  have hmem : d ∈ trackedDispatches forge tick botLogin trust state n :=
    List.mem_filterMap.2 ⟨s, hs, hd⟩
  rw [heq]
  refine ⟨d.turn, ?_, hrepo, hnumber, habout, hmentions⟩
  rw [turnsOf_append, runReviews_turns hup]
  exact List.mem_append_right _ (List.mem_map_of_mem hmem)

/-- The review-request pass adds pull requests that its search lists. -/
theorem reviewRequestPass_reviewed {mid : PollState} {reviews : List Act}
    {n next : ℕ}
    (hpass : reviewRequestPass forge tick botLogin trust state n =
      (some (mid, reviews), next)) :
    mid.lastPoll = state.lastPoll ∧
      (∀ key ∈ state.reviewed, key ∈ mid.reviewed) ∧
      ∀ key ∈ mid.reviewed, key ∈ state.reviewed ∨
        ∃ pr ∈ forge.search (listReviewRequestedPrs botLogin) (tick.clock n),
          ∃ nwo, pr.nwo = some nwo ∧ key = trackingKey nwo pr.number ∧
            pr.user.login ≠ botLogin := by
  obtain ⟨ds, m, hrun, rfl⟩ := reviewRequestPass_some hpass
  obtain rfl : mid = _ := congrArg Prod.fst hrun
  refine ⟨runReviews_lastPoll _ _ _, fun key => mem_runReviews, ?_⟩
  intro key hmem
  refine (of_mem_runReviews hmem).imp_right fun hmem => ?_
  obtain ⟨d, hd, rfl⟩ := List.mem_map.1 hmem
  obtain ⟨-, pr, hpr, nwo, hnwo, hkey, hlogin⟩ := decideReviewRequests_mem hd
  exact ⟨pr, hpr, nwo, hnwo, hkey, hlogin⟩

/-- The tracked pass adds no keys. -/
theorem trackedPass_reviewed {mid after : PollState} {tracked : List Act}
    {n next : ℕ}
    (hpass : trackedPass forge tick botLogin trust mid n =
      (after, tracked, next)) :
    after.lastPoll = mid.lastPoll ∧
      ∀ key ∈ after.reviewed, key ∈ mid.reviewed := by
  obtain ⟨gone, pruned, m, hpruned, heq⟩ :=
    trackedPass_eq forge tick botLogin trust mid n
  rw [hpass, Prod.mk.injEq] at heq
  obtain ⟨rfl, -⟩ := heq
  constructor
  · rw [runReviews_lastPoll, hpruned]
  · intro key hmem
    rcases of_mem_runReviews hmem with hmem | hmem
    · rw [hpruned, mem_foldl_erase] at hmem
      exact hmem.1
    · obtain ⟨d, hd, rfl⟩ := List.mem_map.1 hmem
      obtain ⟨s, -, hdispatch⟩ := List.mem_filterMap.1 hd
      obtain ⟨-, hkey, hd, -⟩ := trackedDispatch_some hdispatch
      exact hd ▸ hkey

/-- A tick whose requests come after a post appeared dispatches it. -/
theorem pollTick_carries (hup : tick.Succeeds)
    (hcovered : Covered forge tick botLogin state nwo number post.id)
    (hopen : ∀ n, (forge.pull nwo number (tick.clock n)).state = "open")
    (hpath : (checkoutRelPath nwo).isSome = true)
    (hpost : post ∈ forge.posts nwo number)
    (hwanted : post.Wanted botLogin trust)
    (hseen : post.appears ≤ tick.clock 0)
    (hcursor : state.lastPoll < post.appears.stamp) :
    ∃ turn ∈ turnsOf (pollTick forge tick botLogin trust state).acts,
      turn.Carries nwo number post := by
  obtain ⟨acts, n, mid, reviews, n₂, after, tracked, n₃, contributed, n₄, hacts,
    hmid, hafter, hcontributed, hall⟩ :=
      pollOnce_of_succeeds forge botLogin trust hup state
  obtain ⟨hmidPoll, hmore, hadded⟩ := reviewRequestPass_reviewed hmid
  obtain ⟨hafterPoll, hless⟩ := trackedPass_reviewed hafter
  have htracked (hkey : trackingKey nwo number ∈ mid.reviewed)
      (hkind : ∀ review, post.id ≠ .review review) :
      ∃ turn ∈ turnsOf tracked, turn.Carries nwo number post := by
    have hcarries := trackedPass_carries (n := n₂) hup hkey hopen hpath hpost
      hkind hwanted hseen (hmidPoll ▸ hcursor)
    rwa [hafter] at hcarries
  rw [pollTick_turns, hall]
  simp only [turnsOf_append, List.mem_append, or_and_right, exists_or]
  cases hcovered with
  | own hlisted =>
      exact .inl (feedbackPass_carries hup hacts hlisted hpost hwanted hseen
        hcursor)
  | tracked hkey hkind =>
      exact .inr (.inr (.inl (htracked (hmore _ hkey) hkind)))
  | contributed hlisted hkind =>
      by_cases hkey : trackingKey nwo number ∈ mid.reviewed
      · refine .inr (.inr (.inl (htracked hkey (hkind.resolve_right ?_))))
        rintro ⟨hnot, hunlisted⟩
        rcases hadded _ hkey with hkey | ⟨pr, hpr, nwo', hnwo, heq, -⟩
        · exact hnot hkey
        · obtain ⟨rfl, hnumber⟩ := trackingKey_inj heq
          exact hunlisted n pr hpr hnwo hnumber.symm
      · have hcursor' : after.lastPoll < post.appears.stamp := by
          rw [hafterPoll, hmidPoll]
          exact hcursor
        exact .inr (.inr (.inr (contributedPass_carries hup hcontributed hlisted
          (fun hmem => hkey (hless _ hmem)) hpost hwanted hseen hcursor')))

theorem pollStep_lastPoll (hup : tick.Succeeds) (state : PollState) :
    (pollStep forge botLogin trust state tick).lastPoll = tick.start.stamp := by
  rw [pollStep, pollTick, Outcome.advance_lastPoll, pollOnce_ok hup state,
    if_pos rfl]

end Complete

/-- Every wanted post that appears after the initial cursor, on an open pull
request that is covered from then on, is carried by a turn, if no tick starts
in the post's second and sends its first request before the post appears.  A
review counts on own and contributed pull requests only. -/
theorem posts_dispatched (forge : Forge) (botLogin : String) (trust : Trust)
    (nwo : String) (number : UInt32) (post : Post)
    (hpost : post ∈ forge.posts nwo number)
    (hwanted : post.Wanted botLogin trust)
    (start : PollState) (hcursor : start.lastPoll < post.appears.stamp)
    (ticks : List Tick) (hup : ∀ tick ∈ ticks, tick.Succeeds)
    (hpath : (checkoutRelPath nwo).isSome = true)
    (hcovered : Meets (pollStep forge botLogin trust)
      (fun state tick => post.appears ≤ tick.clock 0 →
        Covered forge tick botLogin state nwo number post.id ∧
          ∀ n, (forge.pull nwo number (tick.clock n)).state = "open")
      start ticks)
    (hsecond : ∀ tick ∈ ticks, tick.start.epoch = post.appears.epoch →
      post.appears ≤ tick.clock 0)
    (hlater : ∃ tick ∈ ticks, post.appears ≤ tick.clock 0) :
    Sometime (pollStep forge botLogin trust)
      (fun state tick =>
        ∃ turn ∈ turnsOf (pollTick forge tick botLogin trust state).acts,
          turn.Carries nwo number post)
      start ticks := by
  have hgood : Meets (pollStep forge botLogin trust)
      (fun _ tick => tick.Succeeds ∧ (tick.start.epoch = post.appears.epoch →
        post.appears ≤ tick.clock 0)) start ticks :=
    meets_of_forall (fun tick hmem _ => ⟨hup tick hmem, hsecond tick hmem⟩) start
  refine CursorPoll.sometime_of_sees
    (fun state => state.lastPoll < post.appears.stamp)
    (fun _ tick => post.appears ≤ tick.clock 0)
    ?_ ?_ (hgood.and hcovered) hcursor
      (hlater.imp fun _ hlater => ⟨hlater.1, fun _ => hlater.2⟩)
  · rintro state tick ⟨⟨hsucceeds, -⟩, hcovered⟩ hbehind hsees
    obtain ⟨hcovered, hopen⟩ := hcovered hsees
    exact pollTick_carries hsucceeds hcovered hopen hpath hpost hwanted hsees
      hbehind
  · rintro state tick ⟨⟨hsucceeds, hsecond⟩, -⟩ - hunseen
    show (pollStep forge botLogin trust state tick).lastPoll < post.appears.stamp
    rw [pollStep_lastPoll hsucceeds, Moment.stamp_lt_iff]
    have hbefore : tick.start ≤ post.appears :=
      (tick.start_le 0).trans (not_le.1 hunseen).le
    exact lt_of_le_of_ne (Moment.epoch_mono hbefore) fun heq =>
      hunseen (hsecond heq)

/-! ### Runs -/

/-- A tick whose waits take no time and do not fail. -/
def instantTick (moment : Moment) : Tick where
  start := moment
  clock _ := moment
  succeeds _ := true
  findings _ _ := []
  start_le _ := le_refl moment
  clock_mono := monotone_const

theorem instantTick_succeeds (moment : Moment) :
    (instantTick moment).Succeeds := fun _ => rfl

def aliceTrust : Trust := { owner := "alice", users := [], bots := [] }

/-- `owner/repo#1`, as a search lists it. -/
def sharedPr (author : String) : SearchIssue where
  number := 1
  title := "Fix login"
  body := none
  user := ⟨author⟩
  repositoryUrl := "https://api.github.com/repos/owner/repo"
  updatedAt := ""
  labels := []

/-- A service where everything happens on `owner/repo#1`, which is open and
never pushed to. -/
def smallForge (search : String → List SearchIssue)
    (review : Option ReviewPost) (comment : Option CommentPost) : Forge where
  search query _ := search query
  pull _ _ _ := ⟨"open", "Fix login", ⟨"sha", "topic"⟩, ⟨"sha0", "main"⟩⟩
  commits _ _ _ := []
  files _ _ _ := []
  reviews nwo number := if nwo = "owner/repo" ∧ number = 1 then review.toList else []
  comments nwo number :=
    if nwo = "owner/repo" ∧ number = 1 then comment.toList else []
  diffComments _ _ := []
  reviews_distinct nwo number := by
    split <;> cases review <;> simp
  comments_distinct nwo number := by
    split <;> cases comment <;> simp
  diffComments_distinct _ _ := List.nodup_nil
  drafted_first _ _ post hmem := by cases hmem

def pollStart (reviewed : Reviewed) : PollState where
  lastPoll := (Moment.of2026 0).stamp
  reviewed := reviewed
  inFlight := none

/-- Two seconds in, alice asks for changes. -/
def changesRequested : ReviewPost where
  id := 7
  user := ⟨"alice"⟩
  body := some "please fix"
  state := "CHANGES_REQUESTED"
  submitted := some (Moment.of2026 2000)

/-- On an own pull request the review reaches the agent at the second tick. -/
theorem posts_dispatched_own :
    Sometime (pollStep
        (smallForge (fun query => if query = "is:pr is:open author:kitaebot"
          then [sharedPr "kitaebot"] else []) (some changesRequested) none)
        "kitaebot" aliceTrust)
      (fun state tick => ∃ turn ∈ turnsOf (pollTick
          (smallForge (fun query => if query = "is:pr is:open author:kitaebot"
            then [sharedPr "kitaebot"] else []) (some changesRequested) none)
          tick "kitaebot" aliceTrust state).acts,
        turn.Carries "owner/repo" 1
          ⟨.review 7, "alice", "please fix", true, Moment.of2026 2000⟩)
      (pollStart ∅) [instantTick (Moment.of2026 1000), instantTick (Moment.of2026 3000)] := by
  refine posts_dispatched _ _ _ _ _ _ ?_ ⟨by decide, by decide, rfl⟩ _
    (by decide) _ ?_ (by decide) ?_ (by decide)
    ⟨_, List.mem_cons_of_mem _ List.mem_cons_self, by decide⟩
  · exact List.mem_append_left _ (List.mem_filterMap.2
      ⟨changesRequested, by decide, rfl⟩)
  · intro tick hmem
    simp only [List.mem_cons, List.not_mem_nil, or_false] at hmem
    rcases hmem with rfl | rfl <;> exact instantTick_succeeds _
  · refine meets_of_forall (fun tick _ state _ => ⟨.own fun n => ?_,
      fun _ => rfl⟩) _
    exact ⟨sharedPr "kitaebot", List.mem_singleton_self _, by decide,
      rfl⟩

/-- On a tracked pull request the same review never reaches the agent: the
tracked pass looks at comments and diff comments only. -/
theorem trackedReview_undispatched :
    let forge := smallForge (fun _ => []) (some changesRequested) none
    let post : Post :=
      ⟨.review 7, "alice", "please fix", true, Moment.of2026 2000⟩
    let ticks := [instantTick (Moment.of2026 1000),
      instantTick (Moment.of2026 3000), instantTick (Moment.of2026 5000)]
    let start := pollStart {("owner/repo#1", "sha")}
    post ∈ forge.posts "owner/repo" 1 ∧
      post.Wanted "kitaebot" aliceTrust ∧
      start.lastPoll < post.appears.stamp ∧
      (∀ tick ∈ ticks, tick.Succeeds) ∧
      (checkoutRelPath "owner/repo").isSome = true ∧
      Meets (pollStep forge "kitaebot" aliceTrust)
        (fun state tick => trackingKey "owner/repo" 1 ∈ state.reviewed ∧
          ∀ n, (forge.pull "owner/repo" 1 (tick.clock n)).state = "open")
        start ticks ∧
      ¬ Sometime (pollStep forge "kitaebot" aliceTrust)
        (fun state tick =>
          ∃ turn ∈ turnsOf (pollTick forge tick "kitaebot" aliceTrust state).acts,
            turn.Carries "owner/repo" 1 post)
        start ticks := by
  refine ⟨?_, ⟨by decide, by decide, rfl⟩, by decide, ?_,
    by decide, ?_, ?_⟩
  · exact List.mem_append_left _ (List.mem_filterMap.2
      ⟨changesRequested, by decide, rfl⟩)
  · intro tick hmem
    simp only [List.mem_cons, List.not_mem_nil, or_false] at hmem
    rcases hmem with rfl | rfl | rfl <;> exact instantTick_succeeds _
  · exact ⟨⟨by decide, fun _ => rfl⟩,
      ⟨by decide, fun _ => rfl⟩, ⟨by decide, fun _ => rfl⟩,
      trivial⟩
  · rintro (⟨turn, hmem, -⟩ | ⟨turn, hmem, -⟩ | ⟨turn, hmem, -⟩ | hnone)
    · exact List.ne_nil_of_mem hmem (by decide)
    · exact List.ne_nil_of_mem hmem (by decide)
    · exact List.ne_nil_of_mem hmem (by decide)
    · exact hnone

end Kitaebot.Channel
