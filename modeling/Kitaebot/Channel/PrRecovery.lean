import Kitaebot.Core.UndoLog
import Kitaebot.Channel.PrRepeats

/-!
# Crashes of the pull request channel

A reviewer turn is recorded before it runs, with what the map held before, and
the record goes when the turn returns.  A tick is a journal of such
transactions, so a crash after any of its acts is undone on the next boot, and
the turn that was running is dispatched again by the next tick that finds the
pull request as it was.
-/

namespace Kitaebot.Channel

open Kitaebot.Run
open Kitaebot.Text
open Kitaebot.Time
open Kitaebot.UndoLog

def Act.saved? : Act → Option PollState
  | .send _ => none
  | .save state => some state

/-- No reviewer turn is recorded as running. -/
def PollState.settled (state : PollState) : Bool := state.inFlight.isNone

/-- The state's map has no entry that the other's lacks. -/
def PollState.Within (state closed : PollState) : Prop :=
  ∀ key sha : String, state.reviewed[key]? = some sha →
    closed.reviewed[key]? = some sha

theorem PollState.within_refl (state : PollState) : state.Within state :=
  fun _ _ hentry => hentry

/-- What the passes knew of a reviewer turn when they dispatched it: the pull
request, and that it is new, was pushed to or has new posts. -/
structure Due (forge : Forge) (tick : Tick) (botLogin : String) (trust : Trust)
    (lastPoll : String) (prevSha : Option String) (key headSha : String)
    (turn : Turn) : Prop where
  parsed : parseTrackingKey key = some (turn.repo, turn.prNumber)
  role : turn.role = .reviewer
  session : turn.session = sessionFor .reviewer turn.repo turn.prNumber
  checkout : (checkoutRelPath turn.repo).isSome = true
  posts : ∀ id ∈ turn.about, ∃ post ∈ forge.posts turn.repo turn.prNumber,
    post.id = id ∧ (∀ review, id ≠ .review review) ∧
      post.Wanted botLogin trust ∧ (∃ n, post.appears ≤ tick.clock n) ∧
        lastPoll < post.appears.stamp
  reason : match prevSha with
    | none => key = trackingKey turn.repo turn.prNumber ∧ turn.about = []
    | some prev => headSha ≠ prev ∨ turn.about ≠ []

/-- A reviewer turn opens on a state: its head is recorded first. -/
def Starts (forge : Forge) (tick : Tick) (botLogin : String) (trust : Trust)
    (state running : PollState) (act : Act) : Prop :=
  ∃ key headSha turn, running = state.startTurn key headSha ∧
    act = .send turn ∧
    Due forge tick botLogin trust state.lastPoll state.reviewed[key]? key headSha
      turn

/-- The acts of a tick as transactions on the saved state. -/
abbrev TickJournal (forge : Forge) (tick : Tick) (botLogin : String)
    (trust : Trust) : PollState → List Act → PollState → Prop :=
  Journal Act.saved? PollState.settled (fun state next => next.Within state)
    (Starts forge tick botLogin trust)

/-! ### Undoing a turn -/

theorem PollState.startTurn_settled (state : PollState) (key headSha : String) :
    (state.startTurn key headSha).settled = false := rfl

theorem PollState.rollBackInFlight_settled {state : PollState}
    (hsettled : state.settled = true) : state.rollBackInFlight = state := by
  rw [PollState.settled, Option.isNone_iff_eq_none] at hsettled
  rw [PollState.rollBackInFlight, hsettled]

theorem PollState.settled_rollBackInFlight (state : PollState) :
    state.rollBackInFlight.settled = true := by
  obtain ⟨lastPoll, reviewed, inFlight⟩ := state
  cases inFlight <;> rfl

theorem PollState.endTurn_getElem? (state : PollState) {key other headSha : String}
    (hne : other ≠ key) :
    (state.startTurn key headSha).endTurn.reviewed[other]? =
      state.reviewed[other]? := by
  rw [PollState.endTurn, PollState.startTurn, Std.ExtTreeMap.getElem?_insert,
    if_neg]
  rw [compare_eq_iff_eq]
  exact Ne.symm hne

/-- Rolling a turn back gives the state it was started from. -/
theorem PollState.rollBackInFlight_startTurn {state : PollState}
    (hsettled : state.settled = true) (key headSha : String) :
    (state.startTurn key headSha).rollBackInFlight = state := by
  obtain ⟨lastPoll, reviewed, inFlight⟩ := state
  obtain rfl : inFlight = none := Option.isNone_iff_eq_none.1 hsettled
  simp only [PollState.rollBackInFlight, PollState.startTurn]
  congr 1
  ext1 other
  cases hprev : reviewed[key]? with
  | none =>
      simp only [Std.ExtTreeMap.getElem?_erase, Std.ExtTreeMap.getElem?_insert,
        compare_eq_iff_eq]
      split
      · next heq => rw [← heq, hprev]
      · rfl
  | some sha =>
      simp only [Std.ExtTreeMap.getElem?_insert, compare_eq_iff_eq]
      split
      · next heq => rw [← heq, hprev]
      · rfl

/-! ### A tick is a journal -/

section Journals

variable {forge : Forge} {tick : Tick} {botLogin lastPoll : String}
  {trust : Trust} {state mid after : PollState} {acts : List Act} {n next : ℕ}

/-- The dispatch loop runs the turns that are due, one transaction each. -/
theorem runReviews_journal {ds : List ReviewDispatch}
    (hkeys : ds.Pairwise fun first second => first.key ≠ second.key)
    (hdue : ∀ d ∈ ds, Due forge tick botLogin trust state.lastPoll
      state.reviewed[d.key]? d.key d.headSha d.turn) (n : ℕ) :
    TickJournal forge tick botLogin trust state (runReviews tick state ds n).2.1
      (runReviews tick state ds n).1 := by
  induction ds generalizing state n with
  | nil => exact .done state
  | cons d ds ih =>
      obtain ⟨hfirst, hkeys⟩ := List.pairwise_cons.1 hkeys
      rw [List.forall_mem_cons] at hdue
      simp only [runReviews]
      split
      · exact ih hkeys hdue.2 _
      · refine .transaction rfl rfl ⟨d.key, d.headSha, d.turn, rfl, rfl, hdue.1⟩
          rfl rfl rfl (ih hkeys ?_ _)
        intro other hother
        have hother' := hdue.2 other hother
        rwa [PollState.endTurn_getElem? state (hfirst other hother).symm]

/-- Turns that are not recorded leave no trace. -/
theorem sends_journal (role : GitHubRole) (ds : List FeedbackDispatch) :
    TickJournal forge tick botLogin trust state
      (ds.map fun d => send d.prNumber d.repo role d.message d.about) state := by
  induction ds with
  | nil => exact .done state
  | cons d ds ih => exact .other rfl ih

theorem feedbackPass_journal
    (hpass : feedbackPass forge tick botLogin trust lastPoll n =
      (some acts, next)) :
    TickJournal forge tick botLogin trust state acts state := by
  simp only [feedbackPass] at hpass
  split at hpass
  · cases hpass
  · simp only [Prod.mk.injEq, Option.some.injEq] at hpass
    rw [← hpass.1]
    exact sends_journal .author _

theorem contributedPass_journal
    (hpass : contributedPass forge tick botLogin trust state n =
      (some acts, next)) :
    TickJournal forge tick botLogin trust state acts state := by
  simp only [contributedPass] at hpass
  split at hpass
  · cases hpass
  · simp only [Prod.mk.injEq, Option.some.injEq] at hpass
    rw [← hpass.1]
    exact sends_journal .contributor _

/-- A search for review requests repeats no pull request. -/
def DistinctRequests (forge : Forge) (botLogin : String) : Prop :=
  ∀ now, (forge.search (listReviewRequestedPrs botLogin) now).Pairwise
    fun first second => first.nwo ≠ second.nwo ∨ first.number ≠ second.number

theorem reviewCandidates_sublist (prs : List SearchIssue) (n : ℕ) :
    (((reviewCandidates forge tick prs n).1).map (·.pr)).Sublist prs := by
  induction prs generalizing n with
  | nil => exact List.Sublist.slnil
  | cons pr prs ih =>
      simp only [reviewCandidates]
      split
      · exact (ih _).cons _
      · split
        · exact (ih _).cons _
        · exact (ih _).cons_cons _

theorem requests_keys (hforge : DistinctRequests forge botLogin) (now : Moment)
    (reviewed : Reviewed) (n : ℕ) :
    (decideReviewRequests botLogin trust (reviewCandidates forge tick
      (forge.search (listReviewRequestedPrs botLogin) now) n).1
        reviewed).Pairwise fun first second => first.key ≠ second.key := by
  have hprs : (reviewCandidates forge tick (forge.search
      (listReviewRequestedPrs botLogin) now) n).1.Pairwise fun first second =>
        first.pr.nwo ≠ second.pr.nwo ∨ first.pr.number ≠ second.pr.number :=
    List.pairwise_map.1 ((hforge now).sublist (reviewCandidates_sublist _ n))
  have hcandidates : (reviewCandidates forge tick (forge.search
      (listReviewRequestedPrs botLogin) now) n).1.Pairwise fun first second =>
        first.nwo ≠ second.nwo ∨ first.pr.number ≠ second.pr.number := by
    refine hprs.imp_of_mem ?_
    intro first second hfirst hsecond hne
    rw [(reviewCandidates_mem hfirst).2, (reviewCandidates_mem hsecond).2,
      ne_eq, Option.some.injEq] at hne
    exact hne
  refine hcandidates.filterMap _ ?_
  intro first second hne d hd d' hd' heq
  rw [(reviewRequestDispatch_some hd).1, (reviewRequestDispatch_some hd').1]
    at heq
  obtain ⟨hnwo, hnumber⟩ := trackingKey_inj heq
  exact hne.elim (fun hne => hne hnwo) fun hne => hne hnumber

/-- A review-request dispatch adds a key. -/
theorem reviewRequestDispatch_new {reviewed : Reviewed}
    {candidate : ReviewCandidate} {d : ReviewDispatch}
    (hdispatch : reviewRequestDispatch botLogin trust reviewed candidate =
      some d) : reviewed[d.key]? = none := by
  simp only [reviewRequestDispatch] at hdispatch
  split at hdispatch
  · cases hdispatch
  · rename_i hpassed
    rw [Option.map_eq_some_iff] at hdispatch
    obtain ⟨checkout, -, rfl⟩ := hdispatch
    simp only [Bool.or_eq_true, not_or, Std.ExtTreeMap.contains_iff_mem]
      at hpassed
    exact Std.ExtTreeMap.getElem?_eq_none hpassed.2

theorem reviewRequestDispatch_due {reviewed : Reviewed}
    {candidate : ReviewCandidate} {d : ReviewDispatch}
    (hdispatch : reviewRequestDispatch botLogin trust reviewed candidate =
      some d) :
    Due forge tick botLogin trust lastPoll reviewed[d.key]? d.key d.headSha
      d.turn := by
  have hnone := reviewRequestDispatch_new hdispatch
  simp only [reviewRequestDispatch] at hdispatch
  split at hdispatch
  · cases hdispatch
  · rw [Option.map_eq_some_iff] at hdispatch
    obtain ⟨checkout, hcheckout, rfl⟩ := hdispatch
    refine ⟨parseTrackingKey_trackingKey _ _, rfl, rfl, ?_, ?_, ?_⟩
    · exact Option.isSome_of_eq_some hcheckout
    · intro id hid
      cases hid
    · rw [hnone]
      exact ⟨rfl, rfl⟩

theorem reviewRequestPass_journal (hforge : DistinctRequests forge botLogin)
    (hpass : reviewRequestPass forge tick botLogin trust state n =
      (some (mid, acts), next)) :
    TickJournal forge tick botLogin trust state acts mid := by
  obtain ⟨ds, m, hrun, rfl⟩ := reviewRequestPass_some hpass
  simp only [Prod.ext_iff] at hrun
  obtain ⟨hmid, hacts, -⟩ := hrun
  rw [hmid, hacts]
  refine runReviews_journal (requests_keys hforge _ _ _) ?_ m
  intro d hd
  obtain ⟨candidate, -, hdispatch⟩ := List.mem_filterMap.1 hd
  exact reviewRequestDispatch_due hdispatch

theorem getElem?_foldl_erase (keys : List String) (reviewed : Reviewed)
    (key : String) :
    (keys.foldl (·.erase ·) reviewed)[key]? =
      if key ∈ keys then none else reviewed[key]? := by
  induction keys generalizing reviewed with
  | nil => simp
  | cons first keys ih =>
      rw [List.foldl_cons, ih, Std.ExtTreeMap.getElem?_erase]
      simp only [compare_eq_iff_eq, List.mem_cons, @eq_comm _ first key]
      by_cases hmem : key ∈ keys
      · simp [hmem]
      · simp [hmem]

theorem trackedSnapshots_nodup (state : PollState) (n : ℕ) :
    ((trackedSnapshots forge tick botLogin state.reviewed.toList n).1.map
      (·.key)).Nodup := by
  refine List.Nodup.sublist (trackedSnapshots_sublist _ n) ?_
  rw [Std.ExtTreeMap.map_fst_toList_eq_keys]
  exact Std.ExtTreeMap.nodup_keys

theorem trackedDispatches_keys (state : PollState) (n : ℕ) :
    (trackedDispatches forge tick botLogin trust state n).Pairwise
      fun first second => first.key ≠ second.key := by
  refine (List.pairwise_map.1 (trackedSnapshots_nodup state n)).filterMap _ ?_
  intro first second hne d hd d' hd'
  rw [(trackedDispatch_some hd).2.2.1, (trackedDispatch_some hd').2.2.1]
  exact hne

/-- New posts of a tracked snapshot are wanted posts after the cursor. -/
theorem TrackedSnapshot.wanted {s : TrackedSnapshot} {m : ℕ}
    (hfetched : s.Fetched forge tick botLogin m) {id : PostId}
    (hmem : id ∈ (s.newPosts botLogin trust lastPoll).ids) :
    ∃ post ∈ forge.posts s.nwo s.prNumber, post.id = id ∧
      (∀ review, id ≠ .review review) ∧ post.Wanted botLogin trust ∧
        (∃ n, post.appears ≤ tick.clock n) ∧
          lastPoll < post.appears.stamp := by
  simp only [NewPosts.ids, TrackedSnapshot.newPosts, List.map_nil,
    List.nil_append, List.mem_append, List.mem_map] at hmem
  rw [hfetched.reviews, hfetched.comments, hfetched.diffComments] at hmem
  rcases hmem with ⟨comment, hmem, rfl⟩ | ⟨dc, hmem, rfl⟩
  · obtain ⟨post, hpost, hid, hle, hcursor, hwanted⟩ := wanted_of_comment hmem
    exact ⟨post, hpost, hid, fun _ => PostId.noConfusion, hwanted, ⟨_, hle⟩,
      hcursor⟩
  · obtain ⟨post, hpost, hid, hle, hcursor, hwanted⟩ :=
      wanted_of_diffComment hmem
    exact ⟨post, hpost, hid, fun _ => PostId.noConfusion, hwanted, ⟨_, hle⟩,
      hcursor⟩

theorem NewPosts.render_isEmpty (posts : NewPosts) (review : PrReview → String)
    (comment : IssueComment → String) (diffComment : DiffComment → String) :
    (posts.render review comment diffComment).isEmpty = posts.ids.isEmpty := by
  rw [Bool.eq_iff_iff]
  simp [NewPosts.render, NewPosts.ids]

/-- A tracked pull request is dispatched when it is open and was pushed to or
has new posts. -/
theorem trackedDispatch_iff {reviewed : Reviewed} {s : TrackedSnapshot}
    {prev checkout : String} (hprev : reviewed[s.key]? = some prev)
    (hcheckout : checkoutRelPath s.nwo = some checkout) {d : ReviewDispatch} :
    trackedDispatch botLogin trust lastPoll reviewed s = some d ↔
      s.view.state = "open" ∧
        (s.view.headSha ≠ prev ∨ (s.newPosts botLogin trust lastPoll).ids ≠ []) ∧
          d = { key := s.key, headSha := s.view.headSha, prNumber := s.prNumber
                repo := s.nwo, base := s.view.baseRef
                message := formatTrackedTurn s
                  (if s.view.headSha != prev then some prev else none)
                  (trackedComments botLogin trust lastPoll s) checkout
                  (quietPathEligible botLogin s)
                about := (s.newPosts botLogin trust lastPoll).ids } := by
  have hempty : (trackedComments botLogin trust lastPoll s).isEmpty =
      (s.newPosts botLogin trust lastPoll).ids.isEmpty :=
    NewPosts.render_isEmpty _ _ _ _
  simp only [trackedDispatch, hprev, hcheckout, Option.map_some, hempty]
  by_cases hopen : s.view.state = "open"
  · by_cases hpushed : s.view.headSha = prev
    · by_cases hnew : (s.newPosts botLogin trust lastPoll).ids = []
      · simp [hopen, hpushed, hnew]
      · simpa [hopen, hpushed, hnew] using eq_comm
    · simpa [hopen, hpushed] using eq_comm
  · simp [hopen]

theorem trackedDispatch_due {s : TrackedSnapshot} {d : ReviewDispatch}
    (hs : s ∈ (trackedSnapshots forge tick botLogin state.reviewed.toList n).1)
    (hdispatch : trackedDispatch botLogin trust state.lastPoll state.reviewed s =
      some d) :
    d.key = s.key ∧ s.view.state = "open" ∧
      Due forge tick botLogin trust state.lastPoll state.reviewed[d.key]? d.key
        d.headSha d.turn := by
  obtain ⟨-, hparse, m, hfetched⟩ := trackedSnapshots_fetched hs
  obtain ⟨hopen, hreviewed, -⟩ := trackedDispatch_some hdispatch
  obtain ⟨prev, hprev⟩ := Option.isSome_iff_exists.1
    (Std.ExtTreeMap.mem_iff_isSome_getElem?.1 hreviewed)
  cases hcheckout : checkoutRelPath s.nwo with
  | none =>
      rw [trackedDispatch, hprev, hcheckout] at hdispatch
      simp at hdispatch
  | some checkout =>
      rw [trackedDispatch_iff hprev hcheckout] at hdispatch
      obtain ⟨-, hreason, rfl⟩ := hdispatch
      refine ⟨rfl, hopen, hparse, rfl, rfl, Option.isSome_of_eq_some hcheckout,
        fun id hid => TrackedSnapshot.wanted hfetched hid, ?_⟩
      simp only [hprev]
      exact hreason

theorem trackedPass_journal (hstate : state.settled = true)
    (hpass : trackedPass forge tick botLogin trust state n =
      (after, acts, next)) :
    TickJournal forge tick botLogin trust state acts after := by
  simp only [trackedPass, Prod.mk.injEq] at hpass
  obtain ⟨rfl, rfl, -⟩ := hpass
  generalize hgone : ((state.reviewed.toList.map Prod.fst).filter fun key =>
      (parseTrackingKey key).isNone) ++ _ = gone
  have hkept : ∀ d ∈ trackedDispatches forge tick botLogin trust state n,
      d.key ∉ gone := by
    intro d hd hmem
    obtain ⟨s, hs, hdispatch⟩ := List.mem_filterMap.1 hd
    obtain ⟨hkey, hopen, hdue⟩ := trackedDispatch_due hs hdispatch
    rw [← hgone, List.mem_append, List.mem_filter] at hmem
    rcases hmem with ⟨-, hcorrupt⟩ | hclosed
    · rw [hdue.parsed] at hcorrupt
      cases hcorrupt
    · obtain ⟨closed, hclosed, heq⟩ := List.mem_map.1 hclosed
      rw [List.mem_filter] at hclosed
      obtain rfl := List.inj_on_of_nodup_map (trackedSnapshots_nodup state n)
        hclosed.1 hs (heq.trans hkey)
      simp [hopen] at hclosed
  refine .append (show TickJournal forge tick botLogin trust state _ { state with
    reviewed := gone.foldl (·.erase ·) state.reviewed } from ?_) ?_
  · split
    · next hnil =>
        rw [List.isEmpty_iff.1 hnil]
        exact .done _
    · refine .save rfl hstate ?_ (.done _)
      intro key sha hentry
      rw [getElem?_foldl_erase, Option.ite_none_left_eq_some] at hentry
      exact hentry.2
  · refine runReviews_journal (trackedDispatches_keys state n) ?_ _
    intro d hd
    obtain ⟨s, hs, hdispatch⟩ := List.mem_filterMap.1 hd
    obtain ⟨-, -, hdue⟩ := trackedDispatch_due hs hdispatch
    simp only [getElem?_foldl_erase, if_neg (hkept d hd)]
    exact hdue

/-- Stated for any text: comparing records must not compute a stamp. -/
theorem setLastPoll_journal (hstate : state.settled = true)
    (hjournal : TickJournal forge tick botLogin trust state acts after)
    (cursor : String) :
    TickJournal forge tick botLogin trust state
      (acts ++ [.save { after with lastPoll := cursor }])
      { after with lastPoll := cursor } :=
  hjournal.append (.save rfl (hjournal.settled_final hstate)
    (fun _ _ hentry => hentry) (.done _))

/-- A tick from a settled state is a journal of its turns. -/
theorem pollTick_journal (hforge : DistinctRequests forge botLogin)
    (hstate : state.settled = true) (tick : Tick) :
    TickJournal forge tick botLogin trust state
      (pollTick forge tick botLogin trust state).acts
      (pollTick forge tick botLogin trust state).state := by
  have honce : TickJournal forge tick botLogin trust state
      (pollOnce forge tick botLogin trust state).acts
      (pollOnce forge tick botLogin trust state).state := by
    obtain hfail | ⟨acts, n, hacts, hfail | ⟨mid, reviews, n₂, after, tracked, n₃,
      hmid, hafter, hends⟩⟩ := pollOnce_cases forge tick botLogin trust state
    · rw [hfail]
      exact .done state
    · rw [hfail]
      exact feedbackPass_journal hacts
    · have hrequests := reviewRequestPass_journal hforge hmid
      have hpasses : TickJournal forge tick botLogin trust state
          (acts ++ (reviews ++ tracked)) after :=
        (feedbackPass_journal hacts).append (hrequests.append
          (trackedPass_journal (hrequests.settled_final hstate) hafter))
      obtain hfail | ⟨contributed, n₄, hcontributed, hall⟩ := hends
      · rw [hfail]
        exact hpasses
      · rw [hall]
        simpa only [List.append_assoc] using
          hpasses.append (contributedPass_journal hcontributed)
  obtain ⟨-, heq⟩ | ⟨-, heq⟩ :=
    (pollOnce forge tick botLogin trust state).advance_cases tick.start
  · rw [pollTick, heq]
    exact setLastPoll_journal hstate honce _
  · rw [pollTick, heq]
    exact honce

end Journals

/-! ### The next tick -/

/-- Somewhere in the acts the head is recorded and the turn runs. -/
def Dispatches (acts : List Act) (key headSha : String) (turn : Turn) : Prop :=
  ∃ state : PollState, [.save (state.startTurn key headSha), .send turn] <:+: acts

theorem Dispatches.mono {acts more : List Act} {key headSha : String}
    {turn : Turn} (hdispatches : Dispatches acts key headSha turn)
    (hpair : acts <:+: more) : Dispatches more key headSha turn :=
  hdispatches.imp fun _ hmem => hmem.trans hpair

/-- The same turn at a later tick: it may be about more posts. -/
structure Turn.Again (turn again : Turn) : Prop where
  repo : again.repo = turn.repo
  prNumber : again.prNumber = turn.prNumber
  role : again.role = turn.role
  session : again.session = turn.session
  about : ∀ id ∈ turn.about, id ∈ again.about

/-- The tick finds the pull request open, at that head and, if it was never
reviewed, with its review still requested. -/
structure FindsSame (forge : Forge) (tick : Tick) (botLogin : String)
    (trust : Trust) (prevSha : Option String) (headSha : String) (turn : Turn) :
    Prop where
  opened : ∀ n, (forge.pull turn.repo turn.prNumber (tick.clock n)).state = "open"
  head : ∀ n,
    (forge.pull turn.repo turn.prNumber (tick.clock n)).head.sha = headSha
  requested : prevSha = none → ∀ n,
    ∃ pr ∈ forge.search (listReviewRequestedPrs botLogin) (tick.clock n),
      pr.nwo = some turn.repo ∧ pr.number = turn.prNumber ∧
        pr.user.login ≠ botLogin ∧ trust.allows pr.user.login = true

section Next

variable {forge : Forge} {tick : Tick} {botLogin : String} {trust : Trust}
  {state mid : PollState} {acts : List Act} {key headSha prev : String}
  {n next : ℕ}

theorem runReviews_dispatches (hup : tick.Succeeds) {ds : List ReviewDispatch}
    {d : ReviewDispatch} (hmem : d ∈ ds) (state : PollState) (n : ℕ) :
    Dispatches (runReviews tick state ds n).2.1 d.key d.headSha d.turn := by
  induction ds generalizing state n with
  | nil => cases hmem
  | cons first ds ih =>
      simp only [runReviews, Tick.ask_of_succeeds hup]
      rcases List.mem_cons.1 hmem with rfl | hmem
      · exact ⟨state, (List.prefix_append [_, _] _).isInfix⟩
      · exact (ih hmem _ _).mono (List.infix_cons (List.infix_cons
          (List.infix_cons List.infix_rfl)))

/-- The loop leaves the entries of other pull requests as they are. -/
theorem runReviews_getElem? {ds : List ReviewDispatch}
    (hother : ∀ d ∈ ds, d.key ≠ key) (state : PollState) (n : ℕ) :
    (runReviews tick state ds n).1.reviewed[key]? = state.reviewed[key]? := by
  induction ds generalizing state n with
  | nil => rfl
  | cons d ds ih =>
      rw [List.forall_mem_cons] at hother
      simp only [runReviews]
      split
      · exact ih hother.2 _ _
      · rw [ih hother.2, PollState.endTurn_getElem? state hother.1.symm]

variable (forge) in
/-- Without failures every search hit with a repository is a candidate. -/
theorem reviewCandidates_complete (hup : tick.Succeeds) {prs : List SearchIssue}
    {pr : SearchIssue} {nwo : String} (hmem : pr ∈ prs) (hnwo : pr.nwo = some nwo)
    (n : ℕ) :
    ∃ candidate ∈ (reviewCandidates forge tick prs n).1,
      candidate.pr = pr ∧ candidate.nwo = nwo ∧
        ∃ m, candidate.view.headSha =
          (forge.pull nwo pr.number (tick.clock m)).head.sha := by
  induction prs generalizing n with
  | nil => cases hmem
  | cons first prs ih =>
      simp only [reviewCandidates, fetchReviewView, Tick.ask_of_succeeds hup]
      rcases List.mem_cons.1 hmem with rfl | hmem
      · simp only [hnwo]
        exact ⟨_, List.mem_cons_self, rfl, rfl, n, rfl⟩
      · cases first.nwo with
        | none => exact ih hmem n
        | some other =>
            obtain ⟨candidate, hcandidate, hsame⟩ := ih hmem (n + 1 + 1 + 1)
            exact ⟨candidate, List.mem_cons_of_mem _ hcandidate, hsame⟩

/-- A requested review is dispatched while its key is not in the map. -/
theorem reviewRequestPass_dispatches (hup : tick.Succeeds)
    (hpass : reviewRequestPass forge tick botLogin trust state n =
      (some (mid, acts), next))
    {turn : Turn} (hsame : FindsSame forge tick botLogin trust none headSha turn)
    (hnone : state.reviewed[trackingKey turn.repo turn.prNumber]? = none)
    (hcheckout : (checkoutRelPath turn.repo).isSome = true)
    (hrole : turn.role = .reviewer)
    (hsession : turn.session =
      sessionFor .reviewer turn.repo turn.prNumber) (habout : turn.about = []) :
    ∃ again, turn.Again again ∧
      Dispatches acts (trackingKey turn.repo turn.prNumber) headSha again := by
  obtain ⟨ds, m, hrun, rfl⟩ := reviewRequestPass_some hpass
  obtain ⟨pr, hpr, hnwo, hnumber, hother, htrusted⟩ := hsame.requested rfl n
  obtain ⟨candidate, hcandidate, rfl, hrepo, k, hhead⟩ :=
    reviewCandidates_complete forge hup hpr hnwo (n + 1)
  obtain ⟨checkout, hcheckout⟩ := Option.isSome_iff_exists.1 hcheckout
  rw [hnumber, hsame.head] at hhead
  have hdispatch : reviewRequestDispatch botLogin trust state.reviewed candidate =
      some { key := trackingKey turn.repo turn.prNumber
             headSha := headSha
             prNumber := turn.prNumber
             repo := turn.repo
             base := candidate.view.baseRef
             message := formatReviewRequest candidate.pr turn.repo
               candidate.view checkout
             about := [] } := by
    simp [reviewRequestDispatch, hrepo, hnumber, hhead, hother, htrusted, hnone,
      hcheckout, Std.ExtTreeMap.contains_eq_isSome_getElem?]
  have hdispatches := runReviews_dispatches hup
    (List.mem_filterMap.2 ⟨candidate, hcandidate, hdispatch⟩) state m
  obtain rfl : acts = _ := congrArg (·.2.1) hrun
  refine ⟨_, ?_, hdispatches⟩
  refine ⟨rfl, rfl, hrole.symm, hsession.symm, fun id hid => ?_⟩
  rw [habout] at hid
  cases hid

/-- A tracked pull request that is still pushed or whose new posts are still
after the cursor is dispatched again. -/
theorem trackedPass_dispatches {earlier : Tick} (hbefore : earlier.Before tick)
    (hup : tick.Succeeds) {turn : Turn}
    (hprev : state.reviewed[key]? = some prev)
    (hdue : Due forge earlier botLogin trust state.lastPoll (some prev) key headSha
      turn)
    (hsame : FindsSame forge tick botLogin trust (some prev) headSha turn) (n : ℕ) :
    ∃ again, turn.Again again ∧
      Dispatches (trackedPass forge tick botLogin trust state n).2.1 key headSha
        again := by
  have hentry : key ∈ state.reviewed.toList.map Prod.fst := by
    rw [Std.ExtTreeMap.map_fst_toList_eq_keys, Std.ExtTreeMap.mem_keys,
      Std.ExtTreeMap.mem_iff_isSome_getElem?, hprev]
    rfl
  obtain ⟨s, hs, rfl, hrepo, hnumber⟩ := trackedSnapshots_complete forge botLogin
    hup hentry hdue.parsed n
  obtain ⟨-, -, m, hfetched⟩ := trackedSnapshots_fetched hs
  obtain ⟨checkout, hcheckout⟩ := Option.isSome_iff_exists.1 hdue.checkout
  have hopen : s.view.state = "open" := by
    rw [hfetched.state, hrepo, hnumber, hsame.opened]
  have hhead : s.view.headSha = headSha := by
    rw [hfetched.headSha, hrepo, hnumber, hsame.head]
  have habout : ∀ id ∈ turn.about,
      id ∈ (s.newPosts botLogin trust state.lastPoll).ids := by
    intro id hid
    obtain ⟨post, hpost, rfl, hkind, hwanted, ⟨k, hseen⟩, hcursor⟩ :=
      hdue.posts id hid
    have hlater (i : ℕ) : post.appears ≤ tick.clock i :=
      (hseen.trans (hbefore k)).trans (tick.start_le i)
    rw [← hrepo, ← hnumber] at hpost
    exact (TrackedSnapshot.holds hpost hkind hwanted hcursor hfetched.reviews
      hfetched.comments hfetched.diffComments (hlater _) (hlater _)
        (hlater _)).id_mem
  have hreason : s.view.headSha ≠ prev ∨
      (s.newPosts botLogin trust state.lastPoll).ids ≠ [] := by
    rw [hhead]
    refine hdue.reason.imp_right fun hne => ?_
    obtain ⟨id, hid⟩ := List.exists_mem_of_ne_nil _ hne
    exact List.ne_nil_of_mem (habout id hid)
  have hdispatch := (trackedDispatch_iff hprev (hrepo ▸ hcheckout)).2
    ⟨hopen, hreason, rfl⟩
  obtain ⟨gone, pruned, k, -, heq⟩ :=
    trackedPass_eq forge tick botLogin trust state n
  have hdispatches := runReviews_dispatches hup
    (List.mem_filterMap.2 ⟨s, hs, hdispatch⟩) pruned k
  have hsession : sessionFor .reviewer s.nwo s.prNumber = turn.session := by
    rw [hrepo, hnumber, hdue.session]
  rw [heq]
  refine ⟨_, ?_, (hhead ▸ hdispatches).mono (List.suffix_append _ _).isInfix⟩
  exact ⟨hrepo, hnumber, hdue.role.symm, hsession, habout⟩

/-- A turn that was due is dispatched by a later tick that finds the pull
request as it was, from a state with the same entry and the same cursor. -/
theorem pollTick_dispatches {earlier : Tick} (hbefore : earlier.Before tick)
    (hup : tick.Succeeds) {turn : Turn}
    (hdue : Due forge earlier botLogin trust state.lastPoll state.reviewed[key]?
      key headSha turn)
    (hsame : FindsSame forge tick botLogin trust state.reviewed[key]? headSha
      turn) :
    ∃ again, turn.Again again ∧
      Dispatches (pollTick forge tick botLogin trust state).acts key headSha
        again := by
  obtain ⟨acts, n, mid, reviews, n₂, after, tracked, n₃, contributed, n₄, hacts,
    hmid, hafter, hcontributed, hall⟩ :=
      pollOnce_of_succeeds forge botLogin trust hup state
  have hpasses : (acts ++ (reviews ++ (tracked ++ contributed))) <:+:
      (pollTick forge tick botLogin trust state).acts := by
    rw [pollTick, Outcome.advance, hall, if_pos rfl]
    exact (List.prefix_append _ _).isInfix
  cases hprev : state.reviewed[key]? with
  | none =>
      rw [hprev] at hdue hsame
      obtain ⟨rfl, habout⟩ := hdue.reason
      obtain ⟨again, hagain, hdispatches⟩ := reviewRequestPass_dispatches hup hmid
        hsame hprev hdue.checkout hdue.role hdue.session habout
      exact ⟨again, hagain, (hdispatches.mono
        ⟨acts, tracked ++ contributed, by simp⟩).mono hpasses⟩
  | some prev =>
      rw [hprev] at hdue hsame
      obtain ⟨ds, m, hrun, hds⟩ := reviewRequestPass_some hmid
      obtain rfl : mid = _ := congrArg Prod.fst hrun
      have hother : ∀ d ∈ ds, d.key ≠ key := by
        rw [hds]
        rintro d hd rfl
        obtain ⟨candidate, -, hdispatch⟩ := List.mem_filterMap.1 hd
        have hnew := reviewRequestDispatch_new hdispatch
        rw [hprev] at hnew
        cases hnew
      obtain ⟨again, hagain, hdispatches⟩ := trackedPass_dispatches hbefore hup
        ((runReviews_getElem? hother state m).trans hprev)
        ((runReviews_lastPoll state ds m).symm ▸ hdue) hsame n₂
      rw [hafter] at hdispatches
      exact ⟨again, hagain, (hdispatches.mono
        ⟨acts ++ reviews, contributed, by simp⟩).mono hpasses⟩

end Next

/-! ### Runs with crashes -/

/-- Nothing saved yet is a fresh state. -/
def loadState (saved : Option PollState) (now : Moment) : PollState :=
  saved.getD { lastPoll := now.stamp, reviewed := ∅, inFlight := none }

/-- The channel's state in memory and on disk, and the state it saved when a
reviewer turn last completed, which no operation reads. -/
structure Daemon where
  memory : PollState
  saved : Option PollState
  completed : PollState

/-- A boot loads the state and undoes a turn that never returned. -/
def boot (saved : Option PollState) (now : Moment) (completed : PollState) :
    Daemon where
  memory := (loadState saved now).rollBackInFlight
  saved := if (loadState saved now).inFlight.isSome then
      some (loadState saved now).rollBackInFlight
    else saved
  completed := completed

def firstBoot (saved : Option PollState) (now : Moment) : Daemon :=
  boot saved now (loadState saved now).rollBackInFlight

/-- A tick to its end, or one that a crash ends after some of its acts. -/
inductive Event where
  | tick (tick : Tick)
  | crash (tick : Tick) (acts : ℕ) (reboot : Moment)

def daemonStep (forge : Forge) (botLogin : String) (trust : Trust)
    (daemon : Daemon) : Event → Daemon
  | .tick tick =>
      let outcome := pollTick forge tick botLogin trust daemon.memory
      { memory := outcome.state
        saved := lastSave Act.saved? daemon.saved outcome.acts
        completed := lastClosed Act.saved? PollState.settled daemon.completed false
          outcome.acts }
  | .crash tick k reboot =>
      let acts := (pollTick forge tick botLogin trust daemon.memory).acts.take k
      boot (lastSave Act.saved? daemon.saved acts) reboot
        (lastClosed Act.saved? PollState.settled daemon.completed false acts)

/-- What holds between ticks: no turn is recorded, the disk holds what memory
holds, and entries only went since the last completed turn. -/
structure Consistent (daemon : Daemon) : Prop where
  settled : daemon.memory.settled = true
  saved : ∀ known ∈ daemon.saved, known = daemon.memory
  unsaved : daemon.saved = none → daemon.memory.reviewed = ∅
  completed : daemon.memory.Within daemon.completed

theorem within_of_empty {state : PollState} (hempty : state.reviewed = ∅)
    (closed : PollState) : state.Within closed := by
  intro key sha hentry
  rw [hempty, Std.ExtTreeMap.getElem?_empty] at hentry
  cases hentry

/-- Memory and disk are the same again after a boot. -/
theorem boot_some (state : PollState) (now : Moment) (completed : PollState) :
    boot (some state) now completed =
      ⟨state.rollBackInFlight, some state.rollBackInFlight, completed⟩ := by
  obtain ⟨lastPoll, reviewed, inFlight⟩ := state
  cases inFlight <;> rfl

/-- A loaded state is rolled back to a settled base when it is that base or a
turn started on it. -/
theorem boot_consistent {saved : Option PollState} {base completed : PollState}
    (hbase : base.settled = true) (hwithin : base.Within completed)
    (hsaved : (∀ known ∈ saved, known = base) ∨
      ∃ key headSha, saved = some (base.startTurn key headSha)) (now : Moment) :
    Consistent (boot saved now completed) ∧
      ∀ known ∈ saved, known.rollBackInFlight = base := by
  cases saved with
  | none =>
      exact ⟨⟨rfl, by simp [boot, loadState], fun _ => rfl, within_of_empty rfl _⟩,
        by simp⟩
  | some state =>
      have hback : state.rollBackInFlight = base := by
        rcases hsaved with hclean | ⟨key, headSha, heq⟩
        · rw [hclean state rfl, PollState.rollBackInFlight_settled hbase]
        · rw [Option.some.inj heq, PollState.rollBackInFlight_startTurn hbase]
      have hboot := boot_some state now completed
      rw [hback] at hboot
      rw [hboot]
      refine ⟨⟨hbase, ?_, nofun, hwithin⟩, ?_⟩
      · intro known hmem
        exact (Option.some.inj hmem).symm
      · intro known hmem
        rw [← Option.some.inj hmem, hback]

section Runs

variable {forge : Forge} {botLogin : String} {trust : Trust} {daemon : Daemon}

theorem within_quiet (closed state next : PollState)
    (hwithin : state.Within closed) (hquiet : next.Within state) :
    next.Within closed :=
  fun key sha hentry => hwithin key sha (hquiet key sha hentry)

/-- The state last saved without a running turn, when a tick has got so far. -/
def Daemon.settledAfter (daemon : Daemon) (acts : List Act) : PollState :=
  lastSettled Act.saved? PollState.settled daemon.memory acts

/-- The state last saved by a turn that completed. -/
def Daemon.completedAfter (daemon : Daemon) (acts : List Act) : PollState :=
  lastClosed Act.saved? PollState.settled daemon.completed false acts

variable (trust) in
theorem Consistent.settledAfter (hcons : Consistent daemon)
    (hforge : DistinctRequests forge botLogin) (tick : Tick) (k : ℕ) :
    let acts := (pollTick forge tick botLogin trust daemon.memory).acts.take k
    (daemon.settledAfter acts).settled = true ∧
      (daemon.settledAfter acts).Within (daemon.completedAfter acts) := by
  have hjournal : TickJournal forge tick botLogin trust daemon.memory _ _ :=
    pollTick_journal hforge hcons.settled tick
  exact ⟨settled_lastSettled _ _ hcons.settled _,
    hjournal.lastSettled_within within_quiet PollState.within_refl
      hcons.completed k⟩

variable (trust) in
/-- After any part of a tick the disk holds the settled state, or a due turn
started on it. -/
theorem Consistent.cut (hcons : Consistent daemon)
    (hforge : DistinctRequests forge botLogin) (tick : Tick) (k : ℕ) :
    let all := (pollTick forge tick botLogin trust daemon.memory).acts
    let base := daemon.settledAfter (all.take k)
    (∀ known ∈ lastSave Act.saved? daemon.saved (all.take k), known = base) ∨
      ∃ key headSha turn,
        lastSave Act.saved? daemon.saved (all.take k) =
            some (base.startTurn key headSha) ∧
          [.save (base.startTurn key headSha), .send turn] <:+: all ∧
          Due forge tick botLogin trust base.lastPoll base.reviewed[key]? key
            headSha turn := by
  have hjournal : TickJournal forge tick botLogin trust daemon.memory _ _ :=
    pollTick_journal hforge hcons.settled tick
  refine (hjournal.cut hcons.saved k).imp_right ?_
  rintro ⟨opening, running, act, hopening, -, hsaved,
    ⟨key, headSha, turn, rfl, rfl, hdue⟩, hpair⟩
  refine ⟨key, headSha, turn, hsaved, ?_, hdue⟩
  cases opening with
  | send other => cases hopening
  | save state =>
      obtain rfl := Option.some.inj hopening
      exact hpair

variable (trust) in
/-- What a boot after that loads: the settled map, or a due turn started on the
settled state. -/
theorem Consistent.loaded (hcons : Consistent daemon)
    (hforge : DistinctRequests forge botLogin) (tick : Tick) (k : ℕ)
    (reboot : Moment) :
    let all := (pollTick forge tick botLogin trust daemon.memory).acts
    let base := daemon.settledAfter (all.take k)
    let saved := loadState (lastSave Act.saved? daemon.saved (all.take k)) reboot
    saved.inFlight = none ∧ saved.reviewed = base.reviewed ∨
      ∃ key headSha turn, saved = base.startTurn key headSha ∧
        [.save (base.startTurn key headSha), .send turn] <:+: all ∧
        Due forge tick botLogin trust base.lastPoll base.reviewed[key]? key
          headSha turn := by
  intro all base saved
  obtain ⟨hsettled, -⟩ := hcons.settledAfter trust hforge tick k
  obtain hclean | ⟨key, headSha, turn, hsaved, hpair, hdue⟩ :=
    hcons.cut trust hforge tick k
  · cases hload : lastSave Act.saved? daemon.saved (all.take k) with
    | none =>
        obtain ⟨hunsaved, hsame⟩ := lastSettled_of_lastSave_none
          Act.saved? PollState.settled hload daemon.memory
        have hbase : base = daemon.memory := hsame
        refine .inl ?_
        simp [saved, loadState, hload, hbase, hcons.unsaved hunsaved]
    | some state =>
        have hstate : saved = base := by
          simp only [saved, loadState, hload, Option.getD_some]
          exact hclean state hload
        rw [hstate]
        exact .inl ⟨Option.isNone_iff_eq_none.1 hsettled, rfl⟩
  · refine .inr ⟨key, headSha, turn, ?_, hpair, hdue⟩
    simp only [saved, loadState, all, hsaved, Option.getD_some, base]

theorem daemonStep_consistent (hforge : DistinctRequests forge botLogin)
    (daemon : Daemon) (event : Event) (hcons : Consistent daemon) :
    Consistent (daemonStep forge botLogin trust daemon event) := by
  cases event with
  | tick tick =>
      have hjournal : TickJournal forge tick botLogin trust daemon.memory _ _ :=
        pollTick_journal hforge hcons.settled tick
      refine ⟨hjournal.settled_final hcons.settled,
        hjournal.lastSave_final hcons.saved, ?_, ?_⟩
      · intro hnone
        obtain ⟨hunsaved, hsame⟩ := lastSettled_of_lastSave_none
          Act.saved? PollState.settled hnone daemon.memory
        rw [hjournal.lastSettled_final] at hsame
        show (pollTick forge tick botLogin trust daemon.memory).state.reviewed = ∅
        rw [hsame, hcons.unsaved hunsaved]
      · have hwithin := hjournal.lastSettled_within within_quiet
          PollState.within_refl hcons.completed
          (pollTick forge tick botLogin trust daemon.memory).acts.length
        rwa [List.take_length, hjournal.lastSettled_final] at hwithin
  | crash tick k reboot =>
      obtain ⟨hsettled, hwithin⟩ := hcons.settledAfter trust hforge tick k
      refine (boot_consistent hsettled hwithin ?_ reboot).1
      refine (hcons.cut trust hforge tick k).imp_right ?_
      rintro ⟨key, headSha, turn, hsaved, -⟩
      exact ⟨key, headSha, hsaved⟩

theorem firstBoot_consistent (saved : Option PollState) (now : Moment) :
    Consistent (firstBoot saved now) := by
  cases saved with
  | none =>
      exact ⟨rfl, by simp [firstBoot, boot, loadState], fun _ => rfl,
        PollState.within_refl _⟩
  | some state =>
      rw [firstBoot, boot_some]
      exact ⟨state.settled_rollBackInFlight, fun known hmem =>
        (Option.some.inj hmem).symm, nofun, PollState.within_refl _⟩

/-- A crash after any part of any tick of a run: rolling the saved state back
gives the map of the last save without a running turn, which is that of the
last completed turn less the entries pruned since.  Only the entry of the
running turn differs on disk, its old value is on record, and a later tick
without failures that finds the pull request as it was runs the turn again. -/
theorem crash_recovered (forge : Forge) (botLogin : String) (trust : Trust)
    (hforge : DistinctRequests forge botLogin) (disk : Option PollState)
    (now : Moment) (events : List Event) (tick : Tick) (k : ℕ) (reboot : Moment) :
    let daemon := run (daemonStep forge botLogin trust) (firstBoot disk now) events
    let all := (pollTick forge tick botLogin trust daemon.memory).acts
    let settled := daemon.settledAfter (all.take k)
    let saved := loadState (lastSave Act.saved? daemon.saved (all.take k)) reboot
    let recovered := saved.rollBackInFlight
    recovered.reviewed = settled.reviewed ∧
      settled.Within (daemon.completedAfter (all.take k)) ∧
      match saved.inFlight with
      | none => saved.reviewed = settled.reviewed
      | some ⟨key, prevSha⟩ =>
          (∀ other, other ≠ key →
            saved.reviewed[other]? = settled.reviewed[other]?) ∧
          settled.reviewed[key]? = prevSha ∧
          ∃ headSha turn, saved.reviewed[key]? = some headSha ∧
            parseTrackingKey key = some (turn.repo, turn.prNumber) ∧
            [.save saved, .send turn] <:+: all ∧
            ∀ next : Tick, tick.Before next → next.Succeeds →
              FindsSame forge next botLogin trust prevSha headSha turn →
              ∃ again, turn.Again again ∧
                Dispatches (pollTick forge next botLogin trust recovered).acts key
                  headSha again := by
  intro daemon all settled saved recovered
  have hcons : Consistent daemon :=
    invariant_run (fun daemon event hcons =>
      daemonStep_consistent hforge daemon event hcons)
      (firstBoot_consistent disk now) events
  obtain ⟨hsettled, hwithin⟩ := hcons.settledAfter trust hforge tick k
  obtain ⟨hnone, hmap⟩ | ⟨key, headSha, turn, hstarted, hpair, hdue⟩ :=
    hcons.loaded trust hforge tick k reboot
  · have hback : recovered = saved :=
      PollState.rollBackInFlight_settled (Option.isNone_iff_eq_none.2 hnone)
    rw [hback]
    change saved.inFlight = none at hnone
    rw [hnone]
    exact ⟨hmap, hwithin, hmap⟩
  · change saved = settled.startTurn key headSha at hstarted
    have hback : recovered = settled := by
      show saved.rollBackInFlight = settled
      rw [hstarted, PollState.rollBackInFlight_startTurn hsettled]
    rw [hback, hstarted]
    refine ⟨rfl, hwithin, fun other hne => PollState.endTurn_getElem? settled hne,
      rfl, headSha, turn, ?_, hdue.parsed, hpair, ?_⟩
    · exact Std.ExtTreeMap.getElem?_insert_self
    · intro next hbefore hup hsame
      exact pollTick_dispatches hbefore hup hdue hsame

end Runs

/-- alice's pull request is listed for review for three seconds and is open for
a little longer. -/
def requestedForge : Forge :=
  { smallForge (fun _ => []) none none with
    search := fun query now =>
      if query = "is:pr is:open review-requested:kitaebot" ∧
        now ≤ Moment.of2026 3000 then [sharedPr "alice"] else []
    pull := fun _ _ now =>
      ⟨if now ≤ Moment.of2026 4500 then "open" else "closed", "Fix login",
        ⟨"sha", "topic"⟩, ⟨"sha0", "main"⟩⟩ }

theorem requestedForge_distinct : DistinctRequests requestedForge "kitaebot" := by
  intro now
  simp only [requestedForge]
  split
  · exact List.pairwise_singleton _ _
  · exact .nil

def firstDaemon : Daemon := firstBoot none (Moment.of2026 0)

def reviewTick : Tick := instantTick (Moment.of2026 1000)

/-- What a boot loads after a crash of the tick. -/
def crashed (daemon : Daemon) (tick : Tick) (k : ℕ) : PollState :=
  loadState (lastSave Act.saved? daemon.saved
    ((pollTick requestedForge tick "kitaebot" aliceTrust daemon.memory).acts.take
      k)) (Moment.of2026 6000)

/-- The first tick completes a review, and the next one saves the prune of the
closed pull request before a crash: the entry of the completed turn is gone.
If the first tick crashes in the review instead, and the review request is gone
by the next tick, then nothing is dispatched, though the pull request is open at
the same head. -/
theorem prunedEntry_gone :
    DistinctRequests requestedForge "kitaebot" ∧
      (let daemon := run (daemonStep requestedForge "kitaebot" aliceTrust)
          firstDaemon [.tick reviewTick]
        let acts := (pollTick requestedForge (instantTick (Moment.of2026 5000))
          "kitaebot" aliceTrust daemon.memory).acts.take 1
        (daemon.completedAfter acts).reviewed["owner/repo#1"]? = some "sha" ∧
          (crashed daemon (instantTick (Moment.of2026 5000))
            1).rollBackInFlight.reviewed["owner/repo#1"]? = none) ∧
      let saved := crashed firstDaemon reviewTick 2
      let next := instantTick (Moment.of2026 4000)
      saved.inFlight = some ⟨"owner/repo#1", none⟩ ∧
        next.Succeeds ∧
        (∀ n, requestedForge.pull "owner/repo" 1 (next.clock n) =
          requestedForge.pull "owner/repo" 1 (reviewTick.clock n)) ∧
        turnsOf (pollTick requestedForge next "kitaebot" aliceTrust
          saved.rollBackInFlight).acts = [] := by
  refine ⟨requestedForge_distinct, ⟨by decide, by decide⟩,
    by decide, instantTick_succeeds _, fun n => ?_, by decide⟩
  show requestedForge.pull "owner/repo" 1 (Moment.of2026 4000) =
    requestedForge.pull "owner/repo" 1 (Moment.of2026 1000)
  decide

/-- While the review is still requested, the next tick runs it again. -/
theorem crash_recovered_review :
    ∃ turn again : Turn, turn.repo = "owner/repo" ∧ turn.Again again ∧
      Dispatches (pollTick requestedForge (instantTick (Moment.of2026 2000))
        "kitaebot" aliceTrust
          (crashed firstDaemon reviewTick 2).rollBackInFlight).acts
        "owner/repo#1" "sha" again := by
  have hrecovered := (crash_recovered requestedForge "kitaebot" aliceTrust
    requestedForge_distinct none (Moment.of2026 0) [] reviewTick 2
    (Moment.of2026 6000)).2.2
  have hflight : (crashed firstDaemon reviewTick 2).inFlight =
      some ⟨"owner/repo#1", none⟩ := by decide
  split at hrecovered
  · next hnone => exact absurd (hnone.symm.trans hflight) nofun
  · next key prevSha hsome =>
      obtain ⟨rfl, rfl⟩ : key = "owner/repo#1" ∧ prevSha = none := by
        simpa using Option.some.inj (hsome.symm.trans hflight)
      obtain ⟨-, -, headSha, turn, hhead, hparsed, -, hnext⟩ := hrecovered
      have hsha : (crashed firstDaemon reviewTick 2).reviewed["owner/repo#1"]? =
          some "sha" := by decide
      obtain rfl : headSha = "sha" := Option.some.inj (hhead.symm.trans hsha)
      have hkey : parseTrackingKey "owner/repo#1" = some ("owner/repo", 1) := by
        decide
      rw [hkey, Option.some.injEq, Prod.mk.injEq] at hparsed
      obtain ⟨hrepo, hnumber⟩ := hparsed
      have hlater : Moment.of2026 1000 ≤ Moment.of2026 2000 := by decide
      have hopen : (requestedForge.pull "owner/repo" 1 (Moment.of2026 2000)).state =
          "open" := by decide
      have hlisted : sharedPr "alice" ∈ requestedForge.search
          (listReviewRequestedPrs "kitaebot") (Moment.of2026 2000) := by
        decide
      obtain ⟨again, hagain, hdispatches⟩ := hnext (instantTick (Moment.of2026 2000))
        (fun _ => hlater) (instantTick_succeeds _)
        ⟨fun _ => hopen, fun _ => rfl, fun _ _ => ⟨sharedPr "alice", hlisted,
          hrepo ▸ by decide, hnumber, by decide,
          by decide⟩⟩
      exact ⟨turn, again, hrepo.symm, hagain, hdispatches⟩

end Kitaebot.Channel
