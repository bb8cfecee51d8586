import Mathlib.Data.List.Nodup
import Kitaebot.Channel.Issues
import Kitaebot.Channel.PrRepeats

/-!
# Polling issues

What a run of ticks does with one comment on an assigned issue.  The next
cursor is a clock reading taken after the fetch, so a comment that appears
between the read of its issue and that reading, or later in the reading's
second, is behind the new cursor before any tick has seen it.
-/

namespace Kitaebot.Channel.Issues

open Kitaebot.Run
open Kitaebot.Text
open Kitaebot.Time

/-! ### What a fetch returns -/

section Fetch

variable {forge : Forge} {repos : List String} {tick : Tick}
  {state : PollState} {mode : ViewMode} {asked : Moment} {query : String}

/-- A view of an issue that a search listed at `asked`, in a fetch that has got
to its `n`-th wait. -/
structure IssueView.Fetched (view : IssueView) (forge : Forge)
    (tick : Tick) (state : PollState) (asked : Moment) (n : ℕ) : Prop where
  nwo : view.issue.nwo = some view.nwo
  wanted : wantsComments view.issue view.nwo state view.mode = true →
    view.comments =
      forge.issueComments view.nwo view.issue.number view.readAt
  unwanted : wantsComments view.issue view.nwo state view.mode = false →
    view.comments = [] ∧ view.readAt = asked
  asked_le : asked ≤ view.readAt
  readAt_le : view.readAt ≤ tick.clock n

theorem IssueView.Fetched.later {view : IssueView} {n m : ℕ}
    (hfetched : view.Fetched forge tick state asked n) (hle : n ≤ m) :
    view.Fetched forge tick state asked m :=
  { hfetched with readAt_le := hfetched.readAt_le.trans (tick.clock_mono hle) }

theorem fetchComments_some {issue : SearchIssue} {nwo : String}
    {comments : List IssueComment} {readAt : Moment} {n next : ℕ}
    (hnwo : issue.nwo = some nwo) (hasked : asked ≤ tick.clock n)
    (hfetch : fetchComments forge tick state issue nwo mode asked n =
      (some (comments, readAt), next)) :
    n ≤ next ∧ (⟨issue, nwo, comments, mode, readAt⟩ : IssueView).Fetched forge
      tick state asked next := by
  rw [fetchComments] at hfetch
  split at hfetch
  · rename_i hwants
    obtain ⟨hanswer, rfl⟩ := Tick.ask_some hfetch
    obtain ⟨rfl, rfl⟩ := Prod.mk.inj hanswer
    refine ⟨n.le_succ, hnwo, fun _ => rfl, fun hnot => ?_, hasked,
      tick.clock_mono n.le_succ⟩
    exact absurd hwants (Bool.eq_false_iff.1 hnot)
  · rename_i hwants
    obtain ⟨hanswer, rfl⟩ := Prod.mk.inj hfetch
    obtain ⟨rfl, rfl⟩ := Prod.mk.inj (Option.some.inj hanswer)
    exact ⟨le_rfl, hnwo, fun hwant => absurd hwant hwants,
      fun _ => ⟨rfl, rfl⟩, le_rfl, hasked⟩

/-- The views of one search: one for each listed issue of a watched repository
that has none yet. -/
structure Hits (forge : Forge) (repos : List String) (tick : Tick)
    (state : PollState) (mode : ViewMode) (asked : Moment)
    (issues : List SearchIssue) (seen : List String) (views : List IssueView)
    (next : ℕ) : Prop where
  modes : ∀ view ∈ views, view.mode = mode
  listed : ∀ view ∈ views, view.issue ∈ issues
  fetched : ∀ view ∈ views, view.Fetched forge tick state asked next
  distinct : (views.map (·.key)).Nodup
  unseen : ∀ view ∈ views, view.key ∉ seen
  complete : ∀ issue ∈ issues, ∀ nwo ∈ repos, issue.nwo = some nwo →
    trackingKey nwo issue.number ∈ seen ∨
      ∃ view ∈ views, view.key = trackingKey nwo issue.number

theorem Hits.skip {issue : SearchIssue} {issues : List SearchIssue}
    {seen : List String} {views : List IssueView} {next : ℕ}
    (hhits : Hits forge repos tick state mode asked issues seen views next)
    (hskip : ∀ nwo ∈ repos, issue.nwo = some nwo →
      trackingKey nwo issue.number ∈ seen) :
    Hits forge repos tick state mode asked (issue :: issues) seen views next where
  modes := hhits.modes
  listed view hmem := List.mem_cons_of_mem _ (hhits.listed view hmem)
  fetched := hhits.fetched
  distinct := hhits.distinct
  unseen := hhits.unseen
  complete other hmem nwo hrepo hnwo := by
    rcases List.mem_cons.1 hmem with rfl | hmem
    · exact .inl (hskip nwo hrepo hnwo)
    · exact hhits.complete other hmem nwo hrepo hnwo

theorem Hits.add {view : IssueView} {issues : List SearchIssue}
    {seen : List String} {views : List IssueView} {n next : ℕ}
    (hhits : Hits forge repos tick state mode asked issues (view.key :: seen)
      views next)
    (hle : n ≤ next) (hmode : view.mode = mode)
    (hfetched : view.Fetched forge tick state asked n)
    (hunseen : view.key ∉ seen) :
    Hits forge repos tick state mode asked (view.issue :: issues) seen
      (view :: views) next where
  modes := List.forall_mem_cons.2 ⟨hmode, hhits.modes⟩
  listed := List.forall_mem_cons.2 ⟨List.mem_cons_self, fun other hmem =>
    List.mem_cons_of_mem _ (hhits.listed other hmem)⟩
  fetched := List.forall_mem_cons.2 ⟨hfetched.later hle, hhits.fetched⟩
  distinct := by
    rw [List.map_cons, List.nodup_cons]
    refine ⟨fun hmem => ?_, hhits.distinct⟩
    obtain ⟨other, hother, hkey⟩ := List.mem_map.1 hmem
    exact hhits.unseen other hother (hkey ▸ List.mem_cons_self)
  unseen := List.forall_mem_cons.2 ⟨hunseen, fun other hmem hseen =>
    hhits.unseen other hmem (List.mem_cons_of_mem _ hseen)⟩
  complete issue hmem nwo hrepo hnwo := by
    rcases List.mem_cons.1 hmem with rfl | hmem
    · obtain rfl := Option.some.inj (hfetched.nwo.symm.trans hnwo)
      exact .inr ⟨view, List.mem_cons_self, rfl⟩
    · rcases hhits.complete issue hmem nwo hrepo hnwo with hseen | ⟨other, hother, hkey⟩
      · rcases List.mem_cons.1 hseen with hkey | hseen
        · exact .inr ⟨view, List.mem_cons_self, hkey.symm⟩
        · exact .inl hseen
      · exact .inr ⟨other, List.mem_cons_of_mem _ hother, hkey⟩

theorem viewHits_some {issues : List SearchIssue} {seen : List String}
    {views : List IssueView} {n next : ℕ} {seen' : List String}
    (hasked : asked ≤ tick.clock n)
    (hfetch : viewHits forge repos tick state mode asked issues seen n =
      (some (views, seen'), next)) :
    n ≤ next ∧ Hits forge repos tick state mode asked issues seen views next := by
  induction issues generalizing seen seen' views n with
  | nil =>
      obtain ⟨hviews, rfl⟩ := Prod.mk.inj hfetch
      obtain ⟨rfl, -⟩ := Prod.mk.inj (Option.some.inj hviews)
      exact ⟨le_rfl, by constructor <;> simp⟩
  | cons issue issues ih =>
      rw [viewHits] at hfetch
      split at hfetch
      · rename_i hnone
        obtain ⟨hle, hhits⟩ := ih hasked hfetch
        refine ⟨hle, hhits.skip fun nwo _ hnwo => ?_⟩
        rw [hnone] at hnwo
        cases hnwo
      · rename_i nwo hnwo
        split at hfetch
        · rename_i hskip
          obtain ⟨hle, hhits⟩ := ih hasked hfetch
          refine ⟨hle, hhits.skip fun other hrepo hother => ?_⟩
          obtain rfl := Option.some.inj (hnwo.symm.trans hother)
          simpa [hrepo] using hskip
        · rename_i hkeep
          split at hfetch
          · cases hfetch
          · rename_i comments readAt m hcomments
            split at hfetch
            · cases hfetch
            · rename_i rest seen'' m' hrest
              obtain ⟨hviews, rfl⟩ := Prod.mk.inj hfetch
              obtain ⟨rfl, -⟩ := Prod.mk.inj (Option.some.inj hviews)
              obtain ⟨hle, hfetched⟩ := fetchComments_some hnwo hasked hcomments
              obtain ⟨hle', hhits⟩ :=
                ih (hasked.trans (tick.clock_mono hle)) hrest
              have hunseen : trackingKey nwo issue.number ∉ seen := by
                simp only [Bool.or_eq_true, not_or] at hkeep
                simpa using hkeep.2
              exact ⟨hle.trans hle', Hits.add hhits hle' rfl hfetched hunseen⟩

theorem fetchSearches_some {searches : List (String × ViewMode)}
    {seen : List String} {views : List IssueView} {n next : ℕ}
    (hfetch : fetchSearches forge repos tick state searches seen n =
      (some views, next)) :
    n ≤ next ∧ ∀ view ∈ views, view.mode ∈ searches.map Prod.snd := by
  induction searches generalizing seen views n with
  | nil =>
      obtain ⟨hviews, rfl⟩ := Prod.mk.inj hfetch
      obtain rfl := Option.some.inj hviews
      exact ⟨le_rfl, by simp⟩
  | cons search searches ih =>
      obtain ⟨query, mode⟩ := search
      rw [fetchSearches] at hfetch
      split at hfetch
      · cases hfetch
      · rename_i issues m hasked
        obtain ⟨-, rfl⟩ := Tick.ask_some hasked
        split at hfetch
        · cases hfetch
        · rename_i first seen' m' hfirst
          split at hfetch
          · cases hfetch
          · rename_i rest m'' hrest
            obtain ⟨hviews, rfl⟩ := Prod.mk.inj hfetch
            obtain rfl := Option.some.inj hviews
            obtain ⟨hle, hhits⟩ :=
              viewHits_some (tick.clock_mono n.le_succ) hfirst
            obtain ⟨hle', hmodes⟩ := ih hrest
            refine ⟨(n.le_succ.trans hle).trans hle', fun view hmem => ?_⟩
            rcases List.mem_append.1 hmem with hmem | hmem
            · rw [hhits.modes view hmem]
              exact List.mem_cons_self
            · exact List.mem_cons_of_mem _ (hmodes view hmem)

theorem viewHits_succeeds (hup : tick.toTick.Succeeds)
    (issues : List SearchIssue) (seen : List String) (n : ℕ) :
    ∃ hits next, viewHits forge repos tick state mode asked issues seen n =
      (some hits, next) := by
  induction issues generalizing seen n with
  | nil => exact ⟨_, _, rfl⟩
  | cons issue issues ih =>
      rw [viewHits]
      split
      · exact ih _ _
      · rename_i nwo hnwo
        split
        · exact ih _ _
        · obtain ⟨⟨comments, readAt⟩, m, hanswer⟩ : ∃ answer m,
              fetchComments forge tick state issue nwo mode asked n =
                (some answer, m) := by
            rw [fetchComments, Tick.ask_of_succeeds hup]
            split <;> exact ⟨_, _, rfl⟩
          obtain ⟨⟨views, seen'⟩, next, hhits⟩ :=
            ih (trackingKey nwo issue.number :: seen) m
          simp only [hanswer, hhits]
          exact ⟨_, _, rfl⟩

theorem fetchSearches_succeeds (hup : tick.toTick.Succeeds)
    (searches : List (String × ViewMode)) (seen : List String) (n : ℕ) :
    ∃ views next, fetchSearches forge repos tick state searches seen n =
      (some views, next) := by
  induction searches generalizing seen n with
  | nil => exact ⟨_, _, rfl⟩
  | cons search searches ih =>
      obtain ⟨query, mode⟩ := search
      rw [fetchSearches, Tick.ask_of_succeeds hup]
      obtain ⟨⟨views, seen'⟩, m, hhits⟩ : ∃ hits next,
          viewHits forge repos tick state mode (tick.clock n)
            (forge.search query (tick.clock n)) seen (n + 1) =
              (some hits, next) := viewHits_succeeds hup _ _ _
      obtain ⟨rest, next, hrest⟩ := ih seen' m
      simp only [hhits, hrest]
      exact ⟨_, _, rfl⟩

/-- The work views of a good fetch are the hits of its first search. -/
theorem fetchViews_some {botLogin : String} {views : List IssueView} {n : ℕ}
    (hfetch : fetchViews forge repos tick state botLogin = (some views, n)) :
    Hits forge repos tick state .work (tick.clock 0)
      (forge.search (workQuery botLogin) (tick.clock 0)) []
      (views.filter (·.mode == .work)) n := by
  rw [fetchViews, searches, fetchSearches] at hfetch
  split at hfetch
  · cases hfetch
  · rename_i issues m hasked
    obtain ⟨rfl, rfl⟩ := Tick.ask_some hasked
    split at hfetch
    · cases hfetch
    · rename_i first seen' m' hfirst
      split at hfetch
      · cases hfetch
      · rename_i rest m'' hrest
        obtain ⟨hviews, rfl⟩ := Prod.mk.inj hfetch
        obtain rfl := Option.some.inj hviews
        obtain ⟨-, hhits⟩ := viewHits_some (tick.clock_mono (Nat.zero_le 1)) hfirst
        obtain ⟨hle, hmodes⟩ := fetchSearches_some hrest
        have hwork : first.filter (·.mode == .work) = first :=
          List.filter_eq_self.2 fun view hmem => by
            simp [hhits.modes view hmem]
        have hothers : rest.filter (·.mode == .work) = [] :=
          List.filter_eq_nil_iff.2 fun view hmem => by
            have hmode := hmodes view hmem
            simp only [List.map_cons, List.map_nil, List.mem_cons,
              List.not_mem_nil, or_false] at hmode
            rcases hmode with hmode | hmode | hmode <;> simp [hmode]
        rw [List.filter_append, hwork, hothers, List.append_nil]
        exact { hhits with
          fetched := fun view hmem => (hhits.fetched view hmem).later hle }

end Fetch

/-! ### What a tick dispatches -/

/-- The turn works on the issue and was made from the comment. -/
def Dispatch.handles (key : String) (id : ℕ) (d : Dispatch) : Bool :=
  d.key == key && (d.kind != .discussion && d.about.contains id)

theorem mem_keysOf {views : List IssueView} {key : String} :
    key ∈ keysOf views ↔ key ∈ views.map (·.key) := by
  rw [keysOf, mem_foldl_insert]
  exact or_iff_right Std.ExtTreeSet.not_mem_empty

section Dispatches

variable {forge : Forge} {state : PollState} {botLogin planLabel : String}
  {trust : Trust} {view : IssueView} {id : ℕ} {nwo : String} {number : UInt32}
  {post : CommentPost} {now : Moment}

theorem workDispatches_other {key : String} (hne : view.key ≠ key) :
    (workDispatches state botLogin trust planLabel view).countP
      (·.handles key id) = 0 := by
  rw [List.countP_eq_zero]
  intro d hmem
  have hkey : d.key = view.key := by
    rw [workDispatches] at hmem
    split at hmem
    · obtain ⟨comment, -, rfl⟩ := List.mem_map.1 hmem
      rfl
    · rw [List.mem_singleton.1 hmem]
      rfl
  simp [Dispatch.handles, hkey, hne]

theorem discussionDispatches_kind {closed : Bool} {d : Dispatch}
    (hmem : d ∈ discussionDispatches state botLogin trust view closed) :
    d.kind = .discussion := by
  simp only [discussionDispatches] at hmem
  split at hmem
  · cases hmem
  · split at hmem
    · obtain ⟨comment, -, rfl⟩ := List.mem_map.1 hmem
      rfl
    · rw [List.mem_singleton.1 hmem]

/-- Only the view of an issue counts for its comments. -/
theorem countP_decideEvents {views : List IssueView} (now : String)
    (hdistinct : ((views.filter (·.mode == .work)).map (·.key)).Nodup)
    (hmem : view ∈ views.filter (·.mode == .work)) :
    (decideEvents state botLogin trust planLabel views now).1.countP
        (·.handles view.key id) =
      (workDispatches state botLogin trust planLabel view).countP
        (·.handles view.key id) := by
  have hdiscussion (d : Dispatch) (hkind : d.kind = .discussion) :
      ¬ d.handles view.key id = true := by
    simp [Dispatch.handles, hkind]
  simp only [decideEvents, List.countP_append]
  rw [countP_flatMap_eq hdistinct hmem fun other _ hne =>
    workDispatches_other hne]
  refine Nat.add_eq_left.2 (List.countP_eq_zero.2 fun d hd => ?_)
  obtain ⟨other, -, hd⟩ := List.mem_flatMap.1 hd
  exact hdiscussion d (discussionDispatches_kind hd)

theorem workDispatches_announced (hannounced : view.key ∈ state.announcedIssues) :
    (workDispatches state botLogin trust planLabel view).countP
        (·.handles view.key id) =
      (newTrustedComments state botLogin trust view).countP (·.id == id) := by
  have hcontains : state.announcedIssues.contains view.key = true := hannounced
  rw [workDispatches, if_pos hcontains, List.countP_map]
  have hexecution : (TurnKind.execution != .discussion) = true := by decide
  congr 1
  funext comment
  rw [Bool.eq_iff_iff]
  simp only [Function.comp_apply, Dispatch.handles, commentDispatch,
    beq_self_eq_true, List.contains_cons, List.contains_nil, Bool.or_false,
    Bool.true_and, beq_iff_eq, hexecution]
  exact eq_comm

theorem workDispatches_unannounced
    (hannounced : view.key ∉ state.announcedIssues) :
    (workDispatches state botLogin trust planLabel view).countP
        (·.handles view.key id) =
      if id ∈ (trustedComments trust botLogin view.comments).map (·.id) then 1
      else 0 := by
  have hcontains : ¬ state.announcedIssues.contains view.key = true := hannounced
  rw [workDispatches, if_neg hcontains, List.countP_singleton]
  by_cases hplan : view.issue.hasLabel planLabel = true
  · simp [Dispatch.handles, announcement, hplan]
  · simp [Dispatch.handles, announcement, hplan]

/-! ### One comment -/

def CommentPost.asComment (post : CommentPost) : IssueComment :=
  ⟨post.id, post.user, post.body, post.created.stamp⟩

theorem comment_id_of_seen {comment : IssueComment}
    (hseen : post.seen now = some comment) : comment.id = post.id := by
  rw [CommentPost.seen, Option.ite_none_right_eq_some] at hseen
  rw [← Option.some.inj hseen.2]

theorem mem_issueComments {comment : IssueComment} :
    comment ∈ forge.issueComments nwo number now ↔
      ∃ post ∈ forge.comments nwo number,
        post.created ≤ now ∧ CommentPost.asComment post = comment := by
  simp [Forge.issueComments, CommentPost.seen, CommentPost.asComment]

theorem issueComments_distinct (forge : Forge) (nwo : String)
    (number : UInt32) (now : Moment) :
    ((forge.issueComments nwo number now).map (·.id)).Nodup := by
  have hsublist : ((forge.issueComments nwo number now).map (·.id)).Sublist
      ((forge.comments nwo number).map (·.id)) := by
    rw [Forge.issueComments]
    generalize forge.comments nwo number = posts
    induction posts with
    | nil => exact .slnil
    | cons post posts ih =>
        cases hseen : post.seen now with
        | none =>
            rw [List.filterMap_cons_none hseen]
            exact ih.cons _
        | some comment =>
            rw [List.filterMap_cons_some hseen, List.map_cons, List.map_cons,
              comment_id_of_seen hseen]
            exact ih.cons_cons _
  exact hsublist.nodup (forge.comments_distinct nwo number)

/-- A fetched comment is the only one with its id. -/
theorem id_mem_issueComments (hpost : post ∈ forge.comments nwo number)
    {comment : IssueComment}
    (hmem : comment ∈ forge.issueComments nwo number now)
    (hid : comment.id = post.id) :
    post.created ≤ now ∧ CommentPost.asComment post = comment := by
  obtain ⟨other, hother, hle, rfl⟩ := mem_issueComments.1 hmem
  obtain rfl := List.inj_on_of_nodup_map (forge.comments_distinct nwo number)
    hother hpost hid
  exact ⟨hle, rfl⟩

/-- A fetch holds a comment as new iff the comment is there and past the
cursor. -/
theorem countP_newTrusted (hpost : post ∈ forge.comments nwo number)
    (hnotOwn : post.user.login ≠ botLogin)
    (htrusted : trust.allows post.user.login = true)
    (hcomments : view.comments = forge.issueComments nwo number now) :
    (newTrustedComments state botLogin trust view).countP (·.id == post.id) =
      if post.created ≤ now ∧ state.lastPoll < post.created.stamp then 1
      else 0 := by
  have hdistinct : ((newTrustedComments state botLogin trust view).map
      (·.id)).Nodup := by
    refine List.Nodup.sublist (List.Sublist.map _ List.filter_sublist) ?_
    rw [hcomments]
    exact issueComments_distinct forge nwo number now
  rw [countP_distinct hdistinct fun comment _ hid => beq_iff_eq.1 hid]
  congr 1
  rw [eq_iff_iff, List.any_eq_true]
  constructor
  · rintro ⟨comment, hmem, hid⟩
    rw [beq_iff_eq] at hid
    obtain ⟨hmem, hnew⟩ := List.mem_filter.1 hmem
    rw [hcomments] at hmem
    obtain ⟨hle, rfl⟩ := id_mem_issueComments hpost hmem hid
    simp only [Bool.and_eq_true, decide_eq_true_eq] at hnew
    exact ⟨hle, hnew.1⟩
  · rintro ⟨hle, hnew⟩
    refine ⟨CommentPost.asComment post, List.mem_filter.2 ⟨?_, ?_⟩,
      beq_self_eq_true _⟩
    · rw [hcomments]
      exact mem_issueComments.2 ⟨post, hpost, hle, rfl⟩
    · simp [CommentPost.asComment, hnew, hnotOwn, htrusted]

/-- An announced issue's view counts for a comment of its own iff that comment
is past the cursor. -/
theorem countP_announced (hpost : post ∈ forge.comments nwo number)
    (hannounced : view.key ∈ state.announcedIssues)
    (hnotOwn : post.user.login ≠ botLogin)
    (htrusted : trust.allows post.user.login = true)
    (hcomments : view.comments = forge.issueComments nwo number now) :
    (workDispatches state botLogin trust planLabel view).countP
        (·.handles view.key post.id) =
      if post.created ≤ now ∧ state.lastPoll < post.created.stamp then 1
      else 0 := by
  rw [workDispatches_announced hannounced,
    countP_newTrusted hpost hnotOwn htrusted hcomments]

/-- The announcement counts for the comments that it was fetched with. -/
theorem countP_unannounced (hpost : post ∈ forge.comments nwo number)
    (hannounced : view.key ∉ state.announcedIssues)
    (htrusted : trust.allows post.user.login = true)
    (hcomments : view.comments = forge.issueComments nwo number now) :
    (workDispatches state botLogin trust planLabel view).countP
        (·.handles view.key post.id) =
      if post.created ≤ now then 1 else 0 := by
  rw [workDispatches_unannounced hannounced]
  congr 1
  rw [eq_iff_iff, List.mem_map]
  constructor
  · rintro ⟨comment, hmem, hid⟩
    obtain ⟨hmem, -⟩ := List.mem_filter.1 hmem
    rw [hcomments] at hmem
    exact (id_mem_issueComments hpost hmem hid).1
  · intro hle
    refine ⟨CommentPost.asComment post, List.mem_filter.2 ⟨?_, ?_⟩, rfl⟩
    · rw [hcomments]
      exact mem_issueComments.2 ⟨post, hpost, hle, rfl⟩
    · simp [CommentPost.asComment, htrusted]

end Dispatches

/-! ### The messages -/

theorem formatThread_mentions (heading : String) {comments : List IssueComment}
    {comment : IssueComment} (hmem : comment ∈ comments) :
    Mentions (formatThread heading comments) comment.user.login comment.body := by
  have hne : ¬ comments.isEmpty = true := by
    rw [List.isEmpty_iff]
    exact List.ne_nil_of_mem hmem
  rw [formatThread, if_neg hne]
  refine Mentions.of_includes ?_ ((includes_join
    (List.mem_map_of_mem hmem)).append_left _)
  exact ⟨((((Includes.last "[" comment.user.login).append_right _).append_right
    _).append_right _), (Includes.last _ comment.body).append_right _⟩

theorem announcement_mentions {botLogin planLabel : String} {trust : Trust}
    {view : IssueView} {comment : IssueComment}
    (hmem : comment ∈ trustedComments trust botLogin view.comments) :
    Mentions (announcement botLogin trust planLabel view).message
      comment.user.login comment.body := by
  have hthread := formatThread_mentions "Existing comments" hmem
  show Mentions (if _ then _ else _) _ _
  split
  · refine hthread.of_includes ?_
    unfold formatNewIssue
    iterate 3 apply Includes.append_right
    exact Includes.last _ _
  · refine hthread.of_includes ?_
    unfold formatNewIssueExecute
    iterate 12 apply Includes.append_right
    exact Includes.last _ _

theorem formatComment_mentions (view : IssueView) (author body : String)
    (planComment : Option ℕ) :
    Mentions (formatComment view author body planComment) author body := by
  unfold formatComment
  constructor
  · iterate 16 apply Includes.append_right
    exact Includes.last _ _
  · iterate 13 apply Includes.append_right
    exact Includes.last _ _

/-! ### One tick -/

section OneTick

variable {forge : Forge} {repos : List String} {tick : Tick}
  {state : PollState} {botLogin planLabel : String} {trust : Trust}
  {nwo : String} {number : UInt32} {post : CommentPost}

/-- The work search of the tick lists the issue. -/
def Assigned (forge : Forge) (botLogin nwo : String) (number : UInt32)
    (tick : Tick) : Prop :=
  ∃ issue ∈ forge.search (workQuery botLogin) (tick.clock 0),
    issue.nwo = some nwo ∧ issue.number = number

/-- A search shows an issue as updated no earlier than its comments. -/
def Touched (forge : Forge) (botLogin : String) : Prop :=
  ∀ now, ∀ issue ∈ forge.search (workQuery botLogin) now, ∀ nwo,
    issue.nwo = some nwo → ∀ post ∈ forge.comments nwo issue.number,
      post.created ≤ now → post.created.stamp ≤ issue.updatedAt

/-- The tick's fetch succeeds and reads the issue at `readAt`; its clock
reading comes after `n` waits. -/
def Reads (forge : Forge) (repos : List String) (botLogin key : String)
    (state : PollState) (tick : Tick) (readAt : Moment) (n : ℕ) : Prop :=
  ∃ views, fetchViews forge repos tick state botLogin = (some views, n) ∧
    ∃ view ∈ views, view.mode = .work ∧ view.key = key ∧ view.readAt = readAt

/-- The comment is not handled by the announcement, nor behind the cursor. -/
def Behind (key : String) (created : Moment) (state : PollState) : Prop :=
  key ∉ state.announcedIssues ∨ state.lastPoll < created.stamp

/-- The tick reads the issue too early for the comment and leaves a cursor in
the comment's second or a later one. -/
def Misses (forge : Forge) (repos : List String) (botLogin key : String)
    (created : Moment) (state : PollState) (tick : Tick) : Prop :=
  ∃ readAt n, Reads forge repos botLogin key state tick readAt n ∧
    readAt < created ∧ created.epoch ≤ (tick.clock n).epoch

def pollStep (forge : Forge) (repos : List String) (botLogin : String)
    (trust : Trust) (planLabel : String) (state : PollState) (tick : Tick) :
    PollState :=
  (pollTick forge repos tick state botLogin trust planLabel).2

/-- How many turns of the tick work on the issue and were made from the
comment. -/
def handled (forge : Forge) (repos : List String) (botLogin : String)
    (trust : Trust) (planLabel key : String) (id : ℕ) (state : PollState)
    (tick : Tick) : ℕ :=
  (pollTick forge repos tick state botLogin trust planLabel).1.countP
    (·.handles key id)

theorem pollTick_none {n : ℕ}
    (hfetch : fetchViews forge repos tick state botLogin = (none, n)) :
    pollTick forge repos tick state botLogin trust planLabel = ([], state) := by
  rw [pollTick, hfetch]

theorem pollTick_turns {views : List IssueView} {n : ℕ}
    (hfetch : fetchViews forge repos tick state botLogin = (some views, n)) :
    (pollTick forge repos tick state botLogin trust planLabel).1 =
      (decideEvents state botLogin trust planLabel views
        (tick.clock n).stamp).1 := by
  rw [pollTick, hfetch]

theorem pollTick_state {views : List IssueView} {n : ℕ}
    (hfetch : fetchViews forge repos tick state botLogin = (some views, n)) :
    (pollTick forge repos tick state botLogin trust planLabel).2 =
      (decideEvents state botLogin trust planLabel views
        (tick.clock n).stamp).2.recordPlans tick
        (decideEvents state botLogin trust planLabel views
          (tick.clock n).stamp).1 := by
  rw [pollTick, hfetch]

theorem recordPlans_lastPoll (next : PollState) (ds : List Dispatch) :
    (next.recordPlans tick ds).lastPoll = next.lastPoll := rfl

theorem recordPlans_announced (next : PollState) (ds : List Dispatch) :
    (next.recordPlans tick ds).announcedIssues = next.announcedIssues := rfl

theorem decideEvents_lastPoll (views : List IssueView) (now : String) :
    (decideEvents state botLogin trust planLabel views now).2.lastPoll = now :=
  rfl

theorem decideEvents_announced (views : List IssueView) (now : String) :
    (decideEvents state botLogin trust planLabel views now).2.announcedIssues =
      keysOf (views.filter (·.mode == .work)) := rfl

instance (key : String) (created : Moment) (state : PollState) :
    Decidable (Behind key created state) :=
  inferInstanceAs (Decidable (_ ∨ _))

/-- A tick fails, or it reads the assigned issue. -/
theorem reads_or_fails (state : PollState) (hrepo : nwo ∈ repos)
    (hassigned : Assigned forge botLogin nwo number tick) :
    (∃ n, fetchViews forge repos tick state botLogin = (none, n)) ∨
      ∃ readAt n, Reads forge repos botLogin (trackingKey nwo number) state tick
        readAt n := by
  cases hfetch : fetchViews forge repos tick state botLogin with
  | mk views n =>
      cases views with
      | none => exact .inl ⟨n, rfl⟩
      | some views =>
          obtain ⟨issue, hmem, hnwo, rfl⟩ := hassigned
          have hhits := fetchViews_some hfetch
          obtain hseen | ⟨view, hview, hkey⟩ :=
            hhits.complete issue hmem nwo hrepo hnwo
          · cases hseen
          · exact .inr ⟨view.readAt, n, views, hfetch, view,
              (List.mem_filter.1 hview).1, hhits.modes view hview, hkey, rfl⟩

/-- The one work view of an issue that a tick reads. -/
theorem Reads.view {readAt : Moment} {n : ℕ}
    (hreads : Reads forge repos botLogin (trackingKey nwo number) state tick
      readAt n) :
    ∃ views view, fetchViews forge repos tick state botLogin =
        (some views, n) ∧
      view ∈ views.filter (·.mode == .work) ∧
      ((views.filter (·.mode == .work)).map (·.key)).Nodup ∧
      view.key = trackingKey nwo number ∧ view.nwo = nwo ∧
      view.issue.number = number ∧ view.readAt = readAt ∧
      view.issue ∈ forge.search (workQuery botLogin) (tick.clock 0) ∧
      view.mode = .work ∧
      view.Fetched forge tick state (tick.clock 0) n := by
  obtain ⟨views, hfetch, view, hmem, hmode, hkey, hreadAt⟩ := hreads
  have hhits := fetchViews_some hfetch
  have hview : view ∈ views.filter (·.mode == .work) :=
    List.mem_filter.2 ⟨hmem, by simp [hmode]⟩
  obtain ⟨hnwo, hnumber⟩ := trackingKey_inj hkey
  exact ⟨views, view, hfetch, hview, hhits.distinct, hkey, hnwo, hnumber,
    hreadAt, hhits.listed view hview, hmode, hhits.fetched view hview⟩

theorem Reads.unique {readAt readAt' : Moment} {n n' : ℕ}
    (hreads : Reads forge repos botLogin (trackingKey nwo number) state tick
      readAt n)
    (hreads' : Reads forge repos botLogin (trackingKey nwo number) state tick
      readAt' n') :
    readAt = readAt' ∧ n = n' := by
  obtain ⟨views, view, hfetch, hview, hdistinct, hkey, -, -, rfl, -⟩ := hreads.view
  obtain ⟨views', view', hfetch', hview', -, hkey', -, -, rfl, -⟩ := hreads'.view
  rw [hfetch] at hfetch'
  obtain ⟨hviews, rfl⟩ := Prod.mk.inj hfetch'
  obtain rfl := Option.some.inj hviews
  obtain rfl := List.inj_on_of_nodup_map hdistinct hview hview'
    (hkey.trans hkey'.symm)
  exact ⟨rfl, rfl⟩

theorem Reads.bounds {readAt : Moment} {n : ℕ}
    (hreads : Reads forge repos botLogin (trackingKey nwo number) state tick
      readAt n) :
    tick.start ≤ readAt ∧ readAt ≤ tick.clock n := by
  obtain ⟨views, view, -, -, -, -, -, -, rfl, -, -, hfetched⟩ := hreads.view
  exact ⟨(tick.start_le 0).trans hfetched.asked_le, hfetched.readAt_le⟩

/-- A tick that reads the issue handles a comment once if the comment is there
and still to be handled, and not at all otherwise. -/
theorem Reads.handled {readAt : Moment} {n : ℕ}
    (hreads : Reads forge repos botLogin (trackingKey nwo number) state tick
      readAt n)
    (htouched : Touched forge botLogin)
    (hpost : post ∈ forge.comments nwo number)
    (hnotOwn : post.user.login ≠ botLogin)
    (htrusted : trust.allows post.user.login = true) :
    handled forge repos botLogin trust planLabel (trackingKey nwo number)
        post.id state tick =
      if post.created ≤ readAt ∧
          Behind (trackingKey nwo number) post.created state then 1 else 0 := by
  obtain ⟨views, view, hfetch, hview, hdistinct, hkey, rfl, rfl, rfl, hlisted,
    hmode, hfetched⟩ := hreads.view
  rw [Issues.handled, pollTick_turns hfetch, ← hkey,
    countP_decideEvents _ hdistinct hview]
  by_cases hwants : wantsComments view.issue view.nwo state view.mode = true
  · have hcomments := hfetched.wanted hwants
    by_cases hannounced : view.key ∈ state.announcedIssues
    · rw [countP_announced hpost hannounced hnotOwn htrusted hcomments]
      simp [Behind, hannounced]
    · rw [countP_unannounced hpost hannounced htrusted hcomments]
      simp [Behind, hannounced]
  · -- The issue is announced and has not changed since the cursor.
    obtain ⟨hnone, hreadAt⟩ := hfetched.unwanted (Bool.eq_false_iff.2 hwants)
    simp only [wantsComments, hmode, Bool.or_eq_true, decide_eq_true_eq,
      Bool.not_eq_true', not_or, Bool.not_eq_false] at hwants
    obtain ⟨hunchanged, hannounced⟩ := hwants
    have hannounced : view.key ∈ state.announcedIssues := hannounced
    rw [workDispatches_announced hannounced, if_neg]
    · simp [newTrustedComments, hnone]
    · rintro ⟨hle, hbehind⟩
      rw [hreadAt] at hle
      have hupdated :=
        htouched _ _ hlisted _ hfetched.nwo post hpost hle
      rcases hbehind with hnot | hlt
      · exact hnot hannounced
      · exact hunchanged (lt_of_lt_of_le hlt hupdated)

/-- The turns made from a comment mention it. -/
theorem pollTick_mentions (hpost : post ∈ forge.comments nwo number)
    {d : Dispatch}
    (hmem : d ∈ (pollTick forge repos tick state botLogin trust planLabel).1)
    (hhandles : d.handles (trackingKey nwo number) post.id = true) :
    Mentions d.message post.user.login post.body := by
  simp only [Dispatch.handles, Bool.and_eq_true, beq_iff_eq, bne_iff_ne,
    List.contains_iff_mem] at hhandles
  obtain ⟨hkey, hkind, habout⟩ := hhandles
  cases hfetch : fetchViews forge repos tick state botLogin with
  | mk views n =>
      cases views with
      | none =>
          rw [pollTick_none hfetch] at hmem
          cases hmem
      | some views =>
          rw [pollTick_turns hfetch] at hmem
          rcases List.mem_append.1 hmem with hmem | hmem
          · obtain ⟨view, hview, hmem⟩ := List.mem_flatMap.1 hmem
            have hcomments (comment : IssueComment)
                (hviewKey : view.key = trackingKey nwo number)
                (hcomment : comment ∈ view.comments)
                (hid : comment.id = post.id) :
                comment = CommentPost.asComment post := by
              obtain ⟨rfl, rfl⟩ := trackingKey_inj hviewKey
              have hfetched := (fetchViews_some hfetch).fetched view hview
              cases hwants :
                  wantsComments view.issue view.nwo state view.mode with
              | false =>
                  rw [(hfetched.unwanted hwants).1] at hcomment
                  cases hcomment
              | true =>
                  rw [hfetched.wanted hwants] at hcomment
                  exact (id_mem_issueComments hpost hcomment hid).2.symm
            rw [workDispatches] at hmem
            split at hmem
            · obtain ⟨comment, hcomment, rfl⟩ := List.mem_map.1 hmem
              have hid : comment.id = post.id :=
                (List.mem_singleton.1 habout).symm
              rw [hcomments comment hkey (List.mem_filter.1 hcomment).1 hid]
              exact formatComment_mentions _ _ _ _
            · obtain rfl := List.mem_singleton.1 hmem
              obtain ⟨comment, hcomment, hid⟩ := List.mem_map.1 habout
              rw [hcomments comment hkey (List.mem_filter.1 hcomment).1 hid]
                at hcomment
              exact announcement_mentions hcomment
          · obtain ⟨view, -, hmem⟩ := List.mem_flatMap.1 hmem
            exact absurd (discussionDispatches_kind hmem) hkind

/-- After a tick that reads the issue, the clock reading decides. -/
theorem Reads.behind {readAt : Moment} {n : ℕ} {created : Moment}
    (hreads : Reads forge repos botLogin (trackingKey nwo number) state tick
      readAt n) :
    Behind (trackingKey nwo number) created
        (pollStep forge repos botLogin trust planLabel state tick) ↔
      (tick.clock n).epoch < created.epoch := by
  obtain ⟨views, view, hfetch, hview, -, hkey, -⟩ := hreads.view
  have hannounced : trackingKey nwo number ∈
      keysOf (views.filter (·.mode == .work)) :=
    mem_keysOf.2 (hkey ▸ List.mem_map_of_mem hview)
  rw [Behind, pollStep, pollTick_state hfetch, recordPlans_announced,
    decideEvents_announced, recordPlans_lastPoll, decideEvents_lastPoll,
    Moment.stamp_lt_iff]
  exact or_iff_right (not_not.2 hannounced)

end OneTick

/-! ### Runs -/

theorem misses_iff {forge : Forge} {repos : List String} {botLogin : String}
    {nwo : String} {number : UInt32} {created : Moment} {state : PollState}
    {tick : Tick} :
    Misses forge repos botLogin (trackingKey nwo number) created state tick ↔
      (¬ ∃ readAt n, Reads forge repos botLogin (trackingKey nwo number) state
          tick readAt n ∧ created ≤ readAt) ∧
        ∃ readAt n, Reads forge repos botLogin (trackingKey nwo number) state
          tick readAt n ∧ created.epoch ≤ (tick.clock n).epoch := by
  constructor
  · rintro ⟨readAt, n, hreads, hlt, hle⟩
    refine ⟨?_, readAt, n, hreads, hle⟩
    rintro ⟨readAt', n', hreads', hle'⟩
    obtain ⟨rfl, -⟩ := hreads.unique hreads'
    exact absurd hlt (not_lt.2 hle')
  · rintro ⟨hunseen, readAt, n, hreads, hle⟩
    exact ⟨readAt, n, hreads, not_le.1 fun hseen =>
      hunseen ⟨readAt, n, hreads, hseen⟩, hle⟩

/-- Ticks that follow each other leave a comment behind them no cursor past a
comment of a later second. -/
theorem meets_cursor {forge : Forge} {repos : List String} {botLogin : String}
    {trust : Trust} {planLabel nwo : String} {number : UInt32}
    {created : Moment} (hrepo : nwo ∈ repos) {ticks : List Tick}
    (hassigned : ∀ tick ∈ ticks, Assigned forge botLogin nwo number tick)
    (hserial : ticks.Pairwise fun earlier later =>
      earlier.toTick.Before later.toTick)
    {start : PollState}
    (hstart : ¬ Behind (trackingKey nwo number) created start →
      ∀ tick ∈ ticks, created.epoch ≤ tick.start.epoch) :
    Meets (pollStep forge repos botLogin trust planLabel)
      (fun state tick => Assigned forge botLogin nwo number tick ∧
        (¬ Behind (trackingKey nwo number) created state →
          created.epoch ≤ tick.start.epoch))
      start ticks := by
  induction ticks generalizing start with
  | nil => trivial
  | cons tick ticks ih =>
      rw [List.forall_mem_cons] at hassigned
      obtain ⟨hlater, hserial⟩ := List.pairwise_cons.1 hserial
      refine ⟨⟨hassigned.1, fun hpast => hstart hpast tick List.mem_cons_self⟩,
        ih hassigned.2 hserial fun hpast later hmem => ?_⟩
      obtain ⟨n, hfetch⟩ | ⟨readAt, n, hreads⟩ :=
        reads_or_fails start hrepo hassigned.1
      · rw [pollStep, pollTick_none hfetch] at hpast
        exact hstart hpast later (List.mem_cons_of_mem _ hmem)
      · rw [hreads.behind, not_lt] at hpast
        exact hpast.trans (Moment.epoch_mono (hlater later hmem n))

def firstBoot : PollState where
  lastPoll := (Moment.of2026 0).stamp
  announcedIssues := ∅
  planComments := ∅
  discussionAnnounced := ∅

def assignedIssue (updatedAt : String) : SearchIssue :=
  { sharedPr "alice" with updatedAt }

theorem assignedIssue_nwo (updatedAt : String) :
    (assignedIssue updatedAt).nwo = some "owner/repo" :=
  calc (assignedIssue updatedAt).nwo = (sharedPr "alice").nwo := by
        rw [SearchIssue.nwo, SearchIssue.nwo, assignedIssue]
    _ = some "owner/repo" := by decide

/-- `owner/repo#1` is assigned to the bot and holds one comment, two seconds
in. -/
def assignedForge : Forge :=
  { smallForge (fun _ => []) none (some midTickComment) with
    search := fun query now =>
      if query = workQuery "kitaebot" then
        [assignedIssue (if midTickComment.created ≤ now then
          midTickComment.created.stamp else "")]
      else [] }

theorem mem_assignedSearch {query : String} {now : Moment} {issue : SearchIssue}
    (hmem : issue ∈ assignedForge.search query now) :
    issue = assignedIssue (if midTickComment.created ≤ now then
      midTickComment.created.stamp else "") := by
  replace hmem : issue ∈ ite (query = workQuery "kitaebot") _ _ := hmem
  split at hmem
  · exact List.mem_singleton.1 hmem
  · cases hmem

theorem assignedForge_touched : Touched assignedForge "kitaebot" := by
  intro now issue hmem nwo hnwo post hpost hle
  obtain rfl := mem_assignedSearch hmem
  replace hpost : post ∈ ite (nwo = "owner/repo" ∧ (1 : UInt32) = 1)
    [midTickComment] [] := hpost
  split at hpost
  · obtain rfl := List.mem_singleton.1 hpost
    exact le_of_eq (if_pos hle).symm
  · cases hpost

theorem assignedForge_assigned (tick : Tick) :
    Assigned assignedForge "kitaebot" "owner/repo" 1 tick :=
  ⟨_, List.mem_of_mem_head? rfl, assignedIssue_nwo _, rfl⟩

/-- A tick whose last answer comes at `read`, and whose clock reading after the
fetch is `later`. -/
def fetchTick (read later : Moment) (hle : read ≤ later) : Tick where
  start := read
  clock n := if n < 5 then read else later
  succeeds _ := true
  findings _ _ := []
  start_le n := by
    split
    · exact le_rfl
    · exact hle
  clock_mono n m hnm := by
    dsimp only
    split <;> split
    · exact le_rfl
    · exact hle
    · omega
    · exact le_rfl
  posted _ := none

theorem of2026_refl : Moment.of2026 5000 ≤ Moment.of2026 5000 := le_rfl

theorem of2026_le : Moment.of2026 1000 ≤ Moment.of2026 3000 := by decide

def twoTicks (later : Moment) (hle : Moment.of2026 1000 ≤ later) : List Tick :=
  [fetchTick (Moment.of2026 1000) later hle,
    fetchTick (Moment.of2026 5000) (Moment.of2026 5000) of2026_refl]

theorem twoTicks_serial {later : Moment} (hle : Moment.of2026 1000 ≤ later)
    (hbefore : later ≤ Moment.of2026 5000) :
    (twoTicks later hle).Pairwise fun earlier later =>
      earlier.toTick.Before later.toTick := by
  rw [twoTicks, List.pairwise_pair]
  intro n
  show ite (n < 5) (Moment.of2026 1000) later ≤ Moment.of2026 5000
  split
  · exact hle.trans hbefore
  · exact hbefore

/-- Three seconds in, a second after the comment. -/
def clockedLate : List Tick := twoTicks (Moment.of2026 3000) of2026_le

end Kitaebot.Channel.Issues
