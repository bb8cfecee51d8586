import Kitaebot.Channel.IssuePolling

/-!
# Discussions on issues

An issue that is not assigned to the bot is discussed: the first turn embeds the
whole thread, and every later comment starts a turn of its own.  Which issues
have had their first turn is rebuilt at every tick from the issues that the tick
fetched, and the discussion searches list only what was updated since the
cursor.  So a tick that does not find the issue forgets it, and the next comment
embeds the thread again.
-/

namespace Kitaebot.Channel.Issues

open Kitaebot.Run
open Kitaebot.Text
open Kitaebot.Time

/-! ### What all searches return -/

section Fetch

variable {forge : Forge} {repos : List String} {tick : Tick}
  {state : PollState} {mode : ViewMode} {asked : Moment}

theorem viewHits_seen {issues : List SearchIssue} {seen : List String}
    {views : List IssueView} {n next : ℕ} {seen' : List String}
    (hfetch : viewHits forge repos tick state mode asked issues seen n =
      (some (views, seen'), next)) (key : String) :
    key ∈ seen' ↔ key ∈ seen ∨ key ∈ views.map (·.key) := by
  induction issues generalizing seen seen' views n with
  | nil =>
      obtain ⟨hviews, rfl⟩ := Prod.mk.inj hfetch
      obtain ⟨rfl, rfl⟩ := Prod.mk.inj (Option.some.inj hviews)
      simp
  | cons issue issues ih =>
      rw [viewHits] at hfetch
      split at hfetch
      · exact ih hfetch
      · rename_i nwo hnwo
        split at hfetch
        · exact ih hfetch
        · split at hfetch
          · cases hfetch
          · rename_i comments readAt m hcomments
            split at hfetch
            · cases hfetch
            · rename_i rest seen'' m' hrest
              obtain ⟨hviews, rfl⟩ := Prod.mk.inj hfetch
              obtain ⟨rfl, rfl⟩ := Prod.mk.inj (Option.some.inj hviews)
              rw [ih hrest, List.mem_cons, List.map_cons, List.mem_cons, or_assoc]
              exact or_left_comm

/-- The search found the issue of the view at `asked`. -/
structure IssueView.FoundBy (view : IssueView) (forge : Forge) (tick : Tick)
    (state : PollState) (search : String × ViewMode) (asked : Moment) (n : ℕ) :
    Prop where
  start_le : tick.start ≤ asked
  listed : view.issue ∈ forge.search search.1 asked
  fetched : view.Fetched forge tick state asked n

/-- What a list of searches gives: the issues have one view each, and none of
those listed by a search is left out. -/
structure Answers (forge : Forge) (repos : List String) (tick : Tick)
    (state : PollState) (searches : List (String × ViewMode))
    (seen : List String) (views : List IssueView) (next : ℕ) : Prop where
  distinct : (views.map (·.key)).Nodup
  unseen : ∀ view ∈ views, view.key ∉ seen
  found : ∀ view ∈ views, ∃ search ∈ searches, ∃ asked,
    view.FoundBy forge tick state search asked next
  complete : ∀ search ∈ searches, ∃ m, ∀ issue ∈
    forge.search search.1 (tick.clock m), ∀ nwo ∈ repos, issue.nwo = some nwo →
      trackingKey nwo issue.number ∈ seen ∨
        trackingKey nwo issue.number ∈ views.map (·.key)

theorem fetchSearches_answers {searches : List (String × ViewMode)}
    {seen : List String} {views : List IssueView} {n next : ℕ}
    (hfetch : fetchSearches forge repos tick state searches seen n =
      (some views, next)) :
    n ≤ next ∧ Answers forge repos tick state searches seen views next := by
  induction searches generalizing seen views n with
  | nil =>
      obtain ⟨hviews, rfl⟩ := Prod.mk.inj hfetch
      obtain rfl := Option.some.inj hviews
      exact ⟨le_rfl, by constructor <;> simp⟩
  | cons search searches ih =>
      obtain ⟨query, mode⟩ := search
      rw [fetchSearches] at hfetch
      split at hfetch
      · cases hfetch
      · rename_i issues m hasked
        obtain ⟨rfl, rfl⟩ := Tick.ask_some hasked
        split at hfetch
        · cases hfetch
        · rename_i first seen' m' hfirst
          split at hfetch
          · cases hfetch
          · rename_i rest m'' hrest
            obtain ⟨hviews, rfl⟩ := Prod.mk.inj hfetch
            obtain rfl := Option.some.inj hviews
            obtain ⟨hle, hhits⟩ := viewHits_some (tick.clock_mono n.le_succ) hfirst
            have hseen := viewHits_seen hfirst
            obtain ⟨hle', hanswers⟩ := ih hrest
            refine ⟨(n.le_succ.trans hle).trans hle', ?_, ?_, ?_, ?_⟩
            · rw [List.map_append]
              refine hhits.distinct.append hanswers.distinct fun key hfirst hlater => ?_
              obtain ⟨view, hmem, rfl⟩ := List.mem_map.1 hlater
              exact hanswers.unseen view hmem ((hseen _).2 (.inr hfirst))
            · intro view hmem
              rcases List.mem_append.1 hmem with hmem | hmem
              · exact hhits.unseen view hmem
              · exact fun hkey => hanswers.unseen view hmem ((hseen _).2 (.inl hkey))
            · intro view hmem
              rcases List.mem_append.1 hmem with hmem | hmem
              · exact ⟨_, List.mem_cons_self, tick.clock n, tick.start_le n,
                  hhits.listed view hmem, (hhits.fetched view hmem).later hle'⟩
              · obtain ⟨search, hsearch, hfound⟩ := hanswers.found view hmem
                exact ⟨search, List.mem_cons_of_mem _ hsearch, hfound⟩
            · intro search hsearch
              rcases List.mem_cons.1 hsearch with rfl | hsearch
              · refine ⟨n, fun issue hmem nwo hrepo hnwo => ?_⟩
                refine (hhits.complete issue hmem nwo hrepo hnwo).imp_right ?_
                rintro ⟨view, hview, hkey⟩
                rw [List.map_append, ← hkey]
                exact List.mem_append_left _ (List.mem_map_of_mem hview)
              · obtain ⟨m, hcomplete⟩ := hanswers.complete search hsearch
                refine ⟨m, fun issue hmem nwo hrepo hnwo => ?_⟩
                rw [List.map_append, List.mem_append]
                rcases hcomplete issue hmem nwo hrepo hnwo with hkey | hkey
                · exact ((hseen _).1 hkey).imp_right .inl
                · exact .inr (.inr hkey)

end Fetch

/-! ### What a tick dispatches -/

/-- The turn embeds the thread of the issue. -/
def Dispatch.embedsThread (key : String) (d : Dispatch) : Bool :=
  d.key == key && (d.kind == .discussion && opens "New discussion on " d.message)

/-- The turn is about one later comment on the issue. -/
def Dispatch.follows (key : String) (id : ℕ) (d : Dispatch) : Bool :=
  d.key == key && (d.kind == .discussion &&
    (opens "Comment on " d.message && d.about == [id]))

section Dispatches

variable {forge : Forge} {state : PollState} {botLogin planLabel : String}
  {trust : Trust} {view : IssueView} {id : ℕ} {closed : Bool}

theorem formatDiscussion_opens :
    opens "New discussion on " (formatDiscussion trust botLogin view closed) =
      true := by
  unfold formatDiscussion
  iterate 11 apply opens_append
  exact opens_refl _

theorem formatDiscussionComment_opens (author body : String) :
    opens "Comment on " (formatDiscussionComment view author body closed) =
      true := by
  unfold formatDiscussionComment
  iterate 14 apply opens_append
  exact opens_refl _

theorem workDispatches_key {d : Dispatch}
    (hmem : d ∈ workDispatches state botLogin trust planLabel view) :
    d.key = view.key := by
  rw [workDispatches] at hmem
  split at hmem
  · obtain ⟨comment, -, rfl⟩ := List.mem_map.1 hmem
    rfl
  · rw [List.mem_singleton.1 hmem]
    rfl

theorem discussionDispatches_key {d : Dispatch}
    (hmem : d ∈ discussionDispatches state botLogin trust view closed) :
    d.key = view.key := by
  simp only [discussionDispatches] at hmem
  split at hmem
  · cases hmem
  · split at hmem
    · obtain ⟨comment, -, rfl⟩ := List.mem_map.1 hmem
      rfl
    · rw [List.mem_singleton.1 hmem]

theorem workDispatches_kind {d : Dispatch}
    (hmem : d ∈ workDispatches state botLogin trust planLabel view) :
    d.kind ≠ .discussion := by
  rw [workDispatches] at hmem
  split at hmem
  · obtain ⟨comment, -, rfl⟩ := List.mem_map.1 hmem
    intro hkind
    cases hkind
  · obtain rfl := List.mem_singleton.1 hmem
    simp only [announcement]
    split
    · intro hkind
      cases hkind
    · intro hkind
      cases hkind

/-- A discussion turn is the thread's, or one for a new comment. -/
theorem mem_discussionDispatches {d : Dispatch}
    (hmem : d ∈ discussionDispatches state botLogin trust view closed) :
    d = { key := view.key
          nwo := view.nwo
          number := view.issue.number
          message := formatDiscussion trust botLogin view closed
          kind := .discussion
          about := (trustedComments trust botLogin view.comments).map (·.id) } ∨
      ∃ comment ∈ newTrustedComments state botLogin trust view,
        d = { key := view.key
              nwo := view.nwo
              number := view.issue.number
              message := formatDiscussionComment view comment.user.login
                comment.body closed
              kind := .discussion
              about := [comment.id] } := by
  simp only [discussionDispatches] at hmem
  split at hmem
  · cases hmem
  · split at hmem
    · obtain ⟨comment, hcomment, rfl⟩ := List.mem_map.1 hmem
      exact .inr ⟨comment, hcomment, rfl⟩
    · exact .inl (List.mem_singleton.1 hmem)

theorem formatDiscussionComment_mentions (author body : String) :
    Mentions (formatDiscussionComment view author body closed) author body := by
  unfold formatDiscussionComment
  constructor
  · iterate 7 apply Includes.append_right
    exact Includes.last _ _
  · iterate 4 apply Includes.append_right
    exact Includes.last _ _

/-- The thread is embedded at the first new comments. -/
theorem countP_embedsThread :
    (discussionDispatches state botLogin trust view closed).countP
        (·.embedsThread view.key) =
      if newTrustedComments state botLogin trust view ≠ [] ∧
          view.key ∉ state.discussionAnnounced then 1 else 0 := by
  simp only [discussionDispatches]
  split
  · rename_i hnone
    rw [List.isEmpty_iff] at hnone
    rw [if_neg fun hnew => hnew.1 hnone]
    rfl
  · rename_i hsome
    rw [List.isEmpty_iff] at hsome
    split
    · rename_i hknown
      rw [if_neg fun hnew => hnew.2 hknown, List.countP_eq_zero]
      intro d hmem
      obtain ⟨comment, -, rfl⟩ := List.mem_map.1 hmem
      have hnot : opens "New discussion on " (formatDiscussionComment view
          comment.user.login comment.body closed) = false :=
        not_opens rfl rfl (by decide)
          (formatDiscussionComment_opens comment.user.login comment.body)
      simp [Dispatch.embedsThread, hnot]
    · rename_i hunknown
      rw [if_pos ⟨hsome, hunknown⟩, List.countP_singleton]
      simp [Dispatch.embedsThread, formatDiscussion_opens]

/-- A comment has a turn of its own once the thread is known. -/
theorem countP_follows :
    (discussionDispatches state botLogin trust view closed).countP
        (·.follows view.key id) =
      if view.key ∈ state.discussionAnnounced then
        (newTrustedComments state botLogin trust view).countP (·.id == id)
      else 0 := by
  simp only [discussionDispatches]
  split
  · rename_i hnone
    rw [List.isEmpty_iff.1 hnone]
    simp
  · split
    · rename_i hknown
      have hknown : view.key ∈ state.discussionAnnounced := hknown
      rw [if_pos hknown, List.countP_map]
      congr 1
      funext comment
      simp [Dispatch.follows, formatDiscussionComment_opens]
    · rename_i hunknown
      have hunknown : view.key ∉ state.discussionAnnounced := hunknown
      rw [if_neg hunknown, List.countP_eq_zero]
      intro d hmem
      obtain rfl := List.mem_singleton.1 hmem
      have hnot : opens "Comment on " (formatDiscussion trust botLogin view
          closed) = false :=
        not_opens rfl rfl (by decide) formatDiscussion_opens
      simp [Dispatch.follows, hnot]

/-- Only the view of a discussed issue counts for its turns. -/
theorem countP_discussion {views : List IssueView} (now : String)
    (hdistinct : (views.map (·.key)).Nodup) (hmem : view ∈ views)
    (hmode : view.mode ≠ .work) {counted : Dispatch → Bool}
    (hkey : ∀ d, counted d = true → d.key = view.key) :
    (decideEvents state botLogin trust planLabel views now).1.countP counted =
      (discussionDispatches state botLogin trust view (isClosed view)).countP
        counted := by
  have hwork (other : IssueView)
      (hother : other ∈ views.filter (·.mode == .work)) : other.key ≠ view.key := by
    intro hsame
    obtain ⟨hother, hiswork⟩ := List.mem_filter.1 hother
    obtain rfl := List.inj_on_of_nodup_map hdistinct hother hmem hsame
    exact hmode (beq_iff_eq.1 hiswork)
  have hnot : (keysOf (views.filter (·.mode == .work))).contains view.key =
      false := by
    rw [Bool.eq_false_iff]
    intro hcontains
    obtain ⟨other, hother, hsame⟩ := List.mem_map.1 (mem_keysOf.1 hcontains)
    exact hwork other hother hsame
  have hview : view ∈ views.filter (fun other => other.mode != .work &&
      !(keysOf (views.filter (·.mode == .work))).contains other.key) :=
    List.mem_filter.2 ⟨hmem, by simp [hmode, hnot]⟩
  have hzero : ((views.filter (·.mode == .work)).flatMap
      (workDispatches state botLogin trust planLabel)).countP counted = 0 := by
    refine List.countP_eq_zero.2 fun d hd hcounted => ?_
    obtain ⟨other, hother, hd⟩ := List.mem_flatMap.1 hd
    exact hwork other hother ((workDispatches_key hd).symm.trans (hkey d hcounted))
  have hrest := countP_flatMap_eq (p := counted)
    (f := fun other => discussionDispatches state botLogin trust other
      (isClosed other))
    (hdistinct.sublist (List.Sublist.map _ List.filter_sublist)) hview
    fun other _ hne => List.countP_eq_zero.2 fun d hd hcounted =>
      hne ((discussionDispatches_key hd).symm.trans (hkey d hcounted))
  rw [decideEvents, List.countP_append, hzero, Nat.zero_add]
  exact hrest

/-- An issue without a view has no turns. -/
theorem countP_unlisted {views : List IssueView} {key : String} (now : String)
    (hunlisted : key ∉ views.map (·.key)) {counted : Dispatch → Bool}
    (hkey : ∀ d, counted d = true → d.key = key) :
    (decideEvents state botLogin trust planLabel views now).1.countP counted =
      0 := by
  refine List.countP_eq_zero.2 fun d hd hcounted => hunlisted ?_
  rw [← hkey d hcounted]
  rcases List.mem_append.1 hd with hd | hd
  · obtain ⟨view, hview, hd⟩ := List.mem_flatMap.1 hd
    rw [workDispatches_key hd]
    exact List.mem_map_of_mem (List.mem_filter.1 hview).1
  · obtain ⟨view, hview, hd⟩ := List.mem_flatMap.1 hd
    rw [discussionDispatches_key hd]
    exact List.mem_map_of_mem (List.mem_filter.1 hview).1

/-- The next state knows the discussed issues that have new comments or were
known. -/
theorem mem_discussionAnnounced {views : List IssueView} {key now : String} :
    key ∈ (decideEvents state botLogin trust planLabel views
        now).2.discussionAnnounced ↔
      ∃ view ∈ views, view.key = key ∧ view.mode ≠ .work ∧
        key ∉ (views.filter (·.mode == .work)).map (·.key) ∧
        (newTrustedComments state botLogin trust view ≠ [] ∨
          key ∈ state.discussionAnnounced) := by
  have hannounced (wanted : String) :
      (!(keysOf (views.filter (·.mode == .work))).contains wanted) = true ↔
        wanted ∉ (views.filter (·.mode == .work)).map (·.key) := by
    rw [Bool.not_eq_true', Bool.eq_false_iff, ← mem_keysOf]
    exact Iff.rfl
  rw [decideEvents, mem_keysOf, List.mem_map]
  constructor
  · rintro ⟨view, hmem, rfl⟩
    obtain ⟨hmem, hnew⟩ := List.mem_filter.1 hmem
    obtain ⟨hmem, hmode⟩ := List.mem_filter.1 hmem
    rw [Bool.and_eq_true, bne_iff_ne, hannounced] at hmode
    rw [Bool.or_eq_true, Bool.not_eq_true', List.isEmpty_eq_false_iff] at hnew
    exact ⟨view, hmem, rfl, hmode.1, hmode.2, hnew⟩
  · rintro ⟨view, hmem, rfl, hmode, hunassigned, hnew⟩
    refine ⟨view, List.mem_filter.2 ⟨List.mem_filter.2 ⟨hmem, ?_⟩, ?_⟩, rfl⟩
    · rw [Bool.and_eq_true, bne_iff_ne, hannounced]
      exact ⟨hmode, hunassigned⟩
    · rw [Bool.or_eq_true, Bool.not_eq_true', List.isEmpty_eq_false_iff]
      exact hnew

end Dispatches

/-! ### One tick -/

/-- Every search shows an issue as updated no earlier than its comments. -/
def AlwaysTouched (forge : Forge) : Prop :=
  ∀ query now, ∀ issue ∈ forge.search query now, ∀ nwo, issue.nwo = some nwo →
    ∀ post ∈ forge.comments nwo issue.number,
      post.created ≤ now → post.created.stamp ≤ issue.updatedAt

/-- The issue is not assigned, and one of the discussion searches of the tick
lists it once it has a comment past the cursor. -/
structure Discussed (forge : Forge) (botLogin nwo : String) (number : UInt32)
    (tick : Tick) : Prop where
  unassigned : ∀ issue ∈ forge.search (workQuery botLogin) (tick.clock 0),
    ¬ (issue.nwo = some nwo ∧ issue.number = number)
  searched : ∀ cursor, ∃ search ∈ (searches botLogin cursor).tail, ∀ n,
    (∃ post ∈ forge.comments nwo number,
      post.created ≤ tick.clock n ∧ cursor < post.created.stamp) →
    ∃ issue ∈ forge.search search.1 (tick.clock n),
      issue.nwo = some nwo ∧ issue.number = number

section OneTick

variable (forge : Forge) (repos : List String) (botLogin : String)
  (trust : Trust) (planLabel key : String)

/-- The fetch of the tick succeeds with this view of the issue, and the clock is
read after `n` waits. -/
def Shows (state : PollState) (tick : Tick) (view : IssueView) (n : ℕ) : Prop :=
  ∃ views, fetchViews forge repos tick state botLogin = (some views, n) ∧
    view ∈ views ∧ view.key = key

/-- The fetch succeeds and does not find the issue. -/
def Lapses (state : PollState) (tick : Tick) : Prop :=
  ∃ views n, fetchViews forge repos tick state botLogin = (some views, n) ∧
    key ∉ views.map (·.key)

/-- The tick finds new trusted comments on the issue. -/
def Active (state : PollState) (tick : Tick) : Prop :=
  ∃ view n, Shows forge repos botLogin key state tick view n ∧
    newTrustedComments state botLogin trust view ≠ []

/-- A cursor before the comment is carried over it by a tick that does not read
the issue after it. -/
def PassesOver (created : Moment) (state : PollState) (tick : Tick) : Prop :=
  state.lastPoll < created.stamp ∧
    ∃ views n, fetchViews forge repos tick state botLogin = (some views, n) ∧
      (∀ view ∈ views, view.key = key → view.readAt < created) ∧
      created.epoch ≤ (tick.clock n).epoch

/-- How many turns of the tick are counted. -/
def turns (counted : Dispatch → Bool) (state : PollState) (tick : Tick) : ℕ :=
  (pollTick forge repos tick state botLogin trust planLabel).1.countP counted

variable {forge repos botLogin trust planLabel key} {state : PollState}
  {tick : Tick} {view : IssueView} {n : ℕ} {nwo : String} {number : UInt32}
  {post : CommentPost} {counted : Dispatch → Bool}

theorem fetch_cases (forge : Forge) (repos : List String) (botLogin key : String)
    (state : PollState) (tick : Tick) :
    (∃ n, fetchViews forge repos tick state botLogin = (none, n)) ∨
      Lapses forge repos botLogin key state tick ∨
      ∃ view n, Shows forge repos botLogin key state tick view n := by
  cases hfetch : fetchViews forge repos tick state botLogin with
  | mk views n =>
      cases views with
      | none => exact .inl ⟨n, rfl⟩
      | some views =>
          by_cases hmem : key ∈ views.map (·.key)
          · obtain ⟨view, hview, hkey⟩ := List.mem_map.1 hmem
            exact .inr (.inr ⟨view, n, views, hfetch, hview, hkey⟩)
          · exact .inr (.inl ⟨views, n, hfetch, hmem⟩)

theorem fetchViews_answers {views : List IssueView}
    (hfetch : fetchViews forge repos tick state botLogin = (some views, n)) :
    Answers forge repos tick state (searches botLogin state.lastPoll) [] views n :=
  (fetchSearches_answers hfetch).2

theorem Shows.unique {view' : IssueView} {n' : ℕ}
    (hshows : Shows forge repos botLogin key state tick view n)
    (hshows' : Shows forge repos botLogin key state tick view' n') :
    view = view' ∧ n = n' := by
  obtain ⟨views, hfetch, hview, hkey⟩ := hshows
  obtain ⟨views', hfetch', hview', hkey'⟩ := hshows'
  rw [hfetch] at hfetch'
  obtain ⟨hviews, rfl⟩ := Prod.mk.inj hfetch'
  obtain rfl := Option.some.inj hviews
  exact ⟨List.inj_on_of_nodup_map (fetchViews_answers hfetch).distinct hview hview'
    (hkey.trans hkey'.symm), rfl⟩

theorem Shows.key_eq (hshows : Shows forge repos botLogin key state tick view n) :
    view.key = key := by
  obtain ⟨views, -, -, hkey⟩ := hshows
  exact hkey

theorem Lapses.not_shows (hlapses : Lapses forge repos botLogin key state tick) :
    ¬ Shows forge repos botLogin key state tick view n := by
  obtain ⟨views, m, hfetch, hnone⟩ := hlapses
  rintro ⟨views', hfetch', hview, hkey⟩
  rw [hfetch] at hfetch'
  obtain rfl := Option.some.inj (Prod.mk.inj hfetch').1
  exact hnone (hkey ▸ List.mem_map_of_mem hview)

theorem Shows.active (hshows : Shows forge repos botLogin key state tick view n) :
    Active forge repos botLogin trust key state tick ↔
      newTrustedComments state botLogin trust view ≠ [] := by
  constructor
  · rintro ⟨view', n', hshows', hnew⟩
    obtain ⟨rfl, -⟩ := hshows.unique hshows'
    exact hnew
  · exact fun hnew => ⟨view, n, hshows, hnew⟩

/-- An issue that is not assigned is shown by a discussion search. -/
theorem Shows.mode_ne
    (hshows : Shows forge repos botLogin (trackingKey nwo number) state tick view n)
    (hdiscussed : Discussed forge botLogin nwo number tick) :
    view.mode ≠ .work := by
  intro hmode
  obtain ⟨views, hfetch, hview, hkey⟩ := hshows
  have hhits := fetchViews_some hfetch
  have hwork : view ∈ views.filter (·.mode == .work) :=
    List.mem_filter.2 ⟨hview, by simp [hmode]⟩
  obtain ⟨hnwo, hnumber⟩ := trackingKey_inj hkey
  exact hdiscussed.unassigned _ (hhits.listed view hwork)
    ⟨hnwo ▸ (hhits.fetched view hwork).nwo, hnumber⟩

/-- The turns about an issue that a tick shows are those of its view. -/
theorem Shows.turns_eq
    (hshows : Shows forge repos botLogin (trackingKey nwo number) state tick view n)
    (hdiscussed : Discussed forge botLogin nwo number tick)
    (hkey : ∀ d, counted d = true → d.key = trackingKey nwo number) :
    turns forge repos botLogin trust planLabel counted state tick =
      (discussionDispatches state botLogin trust view (isClosed view)).countP
        counted := by
  have hmode := hshows.mode_ne hdiscussed
  obtain ⟨views, hfetch, hview, hsame⟩ := hshows
  rw [turns, pollTick_turns hfetch,
    countP_discussion _ (fetchViews_answers hfetch).distinct hview hmode
      fun d hcounted => (hkey d hcounted).trans hsame.symm]

theorem turns_eq_zero
    (hunseen : ∀ view n, ¬ Shows forge repos botLogin key state tick view n)
    (hkey : ∀ d, counted d = true → d.key = key) :
    turns forge repos botLogin trust planLabel counted state tick = 0 := by
  obtain ⟨n, hfetch⟩ | ⟨views, n, hfetch, hnone⟩ | ⟨view, n, hshows⟩ :=
    fetch_cases forge repos botLogin key state tick
  · rw [turns, pollTick_none hfetch]
    rfl
  · rw [turns, pollTick_turns hfetch, countP_unlisted _ hnone hkey]
  · exact absurd hshows (hunseen view n)

theorem embedsThread_key (key : String) (d : Dispatch)
    (hcounted : d.embedsThread key = true) : d.key = key := by
  rw [Dispatch.embedsThread, Bool.and_eq_true] at hcounted
  exact beq_iff_eq.1 hcounted.1

theorem follows_key (key : String) (id : ℕ) (d : Dispatch)
    (hcounted : d.follows key id = true) : d.key = key := by
  rw [Dispatch.follows, Bool.and_eq_true] at hcounted
  exact beq_iff_eq.1 hcounted.1

theorem pollStep_discussed {views : List IssueView} {n : ℕ}
    (hfetch : fetchViews forge repos tick state botLogin = (some views, n)) :
    (pollStep forge repos botLogin trust planLabel state tick).discussionAnnounced =
      (decideEvents state botLogin trust planLabel views
        (tick.clock n).stamp).2.discussionAnnounced := by
  rw [pollStep, pollTick_state hfetch]
  rfl

theorem pollStep_lastPoll {views : List IssueView} {n : ℕ}
    (hfetch : fetchViews forge repos tick state botLogin = (some views, n)) :
    (pollStep forge repos botLogin trust planLabel state tick).lastPoll =
      (tick.clock n).stamp := by
  rw [pollStep, pollTick_state hfetch]
  rfl

theorem Shows.knows
    (hshows : Shows forge repos botLogin (trackingKey nwo number) state tick view n)
    (hdiscussed : Discussed forge botLogin nwo number tick) :
    trackingKey nwo number ∈ (pollStep forge repos botLogin trust planLabel state
        tick).discussionAnnounced ↔
      newTrustedComments state botLogin trust view ≠ [] ∨
        trackingKey nwo number ∈ state.discussionAnnounced := by
  have hmode := hshows.mode_ne hdiscussed
  obtain ⟨views, hfetch, hview, hkey⟩ := hshows
  have hdistinct := (fetchViews_answers hfetch).distinct
  rw [pollStep_discussed hfetch, mem_discussionAnnounced]
  constructor
  · rintro ⟨other, hother, hsame, -, -, hnew⟩
    obtain rfl := List.inj_on_of_nodup_map hdistinct hother hview
      (hsame.trans hkey.symm)
    exact hnew
  · intro hnew
    refine ⟨view, hview, hkey, hmode, fun hmem => ?_, hnew⟩
    obtain ⟨other, hother, hsame⟩ := List.mem_map.1 hmem
    obtain ⟨hother, hwork⟩ := List.mem_filter.1 hother
    obtain rfl := List.inj_on_of_nodup_map hdistinct hother hview
      (hsame.trans hkey.symm)
    exact hmode (beq_iff_eq.1 hwork)

/-- What the channel remembers of a discussed issue. -/
theorem remembers_discussion (forge : Forge) (repos : List String)
    (botLogin : String) (trust : Trust) (planLabel nwo : String)
    (number : UInt32) :
    CursorPoll.Remembers (pollStep forge repos botLogin trust planLabel)
      (fun _ tick => Discussed forge botLogin nwo number tick)
      (fun state => trackingKey nwo number ∈ state.discussionAnnounced)
      (Active forge repos botLogin trust (trackingKey nwo number))
      (Lapses forge repos botLogin (trackingKey nwo number))
      (turns forge repos botLogin trust planLabel
        (·.embedsThread (trackingKey nwo number))) where
  learns state tick hdiscussed := by
    rintro ⟨view, n, hshows, hnew⟩
    exact (hshows.knows hdiscussed).2 (.inl hnew)
  forgets state tick hdiscussed hlapses := by
    refine ⟨fun ⟨view, n, hshows, _⟩ => hlapses.not_shows hshows, fun hknown => ?_⟩
    obtain ⟨views, n, hfetch, hnone⟩ := hlapses
    rw [pollStep_discussed hfetch, mem_discussionAnnounced] at hknown
    obtain ⟨view, hview, hkey, -⟩ := hknown
    exact hnone (hkey ▸ List.mem_map_of_mem hview)
  keeps state tick hdiscussed hidle hkept := by
    obtain ⟨n, hfetch⟩ | hlapses | ⟨view, n, hshows⟩ :=
      fetch_cases forge repos botLogin (trackingKey nwo number) state tick
    · rw [pollStep, pollTick_none hfetch]
    · exact absurd hlapses hkept
    · rw [hshows.knows hdiscussed, ← hshows.active]
      exact or_iff_right hidle
  counts state tick hdiscussed := by
    rintro ⟨view, n, hshows, hnew⟩ hunknown
    rw [hshows.turns_eq hdiscussed (embedsThread_key _), ← hshows.key_eq,
      countP_embedsThread, hshows.key_eq, if_pos ⟨hnew, hunknown⟩]
  passes state tick hdiscussed hold := by
    obtain ⟨n, hfetch⟩ | hlapses | ⟨view, n, hshows⟩ :=
      fetch_cases forge repos botLogin (trackingKey nwo number) state tick
    · rw [turns, pollTick_none hfetch]
      rfl
    · exact turns_eq_zero (fun _ _ => hlapses.not_shows) (embedsThread_key _)
    · rw [hshows.turns_eq hdiscussed (embedsThread_key _), ← hshows.key_eq,
        countP_embedsThread, hshows.key_eq, if_neg fun hnew =>
          hold ⟨hshows.active.2 hnew.1, hnew.2⟩]

/-- A view holds a comment as new iff the issue was read after it and it is past
the cursor. -/
theorem Shows.countP_new
    (hshows : Shows forge repos botLogin (trackingKey nwo number) state tick view n)
    (htouched : AlwaysTouched forge) (hpost : post ∈ forge.comments nwo number)
    (hnotOwn : post.user.login ≠ botLogin)
    (htrusted : trust.allows post.user.login = true) :
    (newTrustedComments state botLogin trust view).countP (·.id == post.id) =
      if post.created ≤ view.readAt ∧ state.lastPoll < post.created.stamp then 1
      else 0 := by
  obtain ⟨views, hfetch, hview, hkey⟩ := hshows
  obtain ⟨search, -, asked, hfound⟩ := (fetchViews_answers hfetch).found view hview
  obtain ⟨rfl, rfl⟩ := trackingKey_inj hkey
  by_cases hwants : wantsComments view.issue view.nwo state view.mode = true
  · exact countP_newTrusted hpost hnotOwn htrusted (hfound.fetched.wanted hwants)
  · -- The issue has not changed since the cursor, as far as the search shows.
    obtain ⟨hnone, hreadAt⟩ :=
      hfound.fetched.unwanted (Bool.eq_false_iff.2 hwants)
    rw [if_neg, newTrustedComments, hnone]
    · rfl
    · rintro ⟨hle, hpast⟩
      rw [hreadAt] at hle
      have hupdated := htouched _ _ _ hfound.listed _ hfound.fetched.nwo post hpost
        hle
      refine hwants ?_
      have hchanged : state.lastPoll < view.issue.updatedAt :=
        lt_of_lt_of_le hpast hupdated
      rw [wantsComments.eq_def]
      split <;> simp [hchanged]

/-- A comment gets its turn when it is new and the thread is known. -/
theorem Shows.follows_eq
    (hshows : Shows forge repos botLogin (trackingKey nwo number) state tick view n)
    (hdiscussed : Discussed forge botLogin nwo number tick)
    (htouched : AlwaysTouched forge) (hpost : post ∈ forge.comments nwo number)
    (hnotOwn : post.user.login ≠ botLogin)
    (htrusted : trust.allows post.user.login = true) :
    turns forge repos botLogin trust planLabel
        (·.follows (trackingKey nwo number) post.id) state tick =
      if trackingKey nwo number ∈ state.discussionAnnounced ∧
          post.created ≤ view.readAt ∧ state.lastPoll < post.created.stamp then 1
      else 0 := by
  rw [hshows.turns_eq hdiscussed (follows_key _ _), ← hshows.key_eq,
    countP_follows, hshows.key_eq,
    hshows.countP_new htouched hpost hnotOwn htrusted]
  exact (ite_and ..).symm

/-- A tick that succeeds after the comment, with its cursor before it, reads the
issue after it. -/
theorem Discussed.sees {views : List IssueView}
    (hdiscussed : Discussed forge botLogin nwo number tick)
    (hrepo : nwo ∈ repos) (hpost : post ∈ forge.comments nwo number)
    (happears : post.created ≤ tick.start)
    (hbehind : state.lastPoll < post.created.stamp)
    (hfetch : fetchViews forge repos tick state botLogin = (some views, n)) :
    ∃ view n, Shows forge repos botLogin (trackingKey nwo number) state tick view n ∧
      post.created ≤ view.readAt := by
  have hanswers := fetchViews_answers hfetch
  obtain ⟨search, hsearch, hlists⟩ := hdiscussed.searched state.lastPoll
  obtain ⟨m, hcomplete⟩ := hanswers.complete search (List.mem_of_mem_tail hsearch)
  obtain ⟨issue, hissue, hnwo, rfl⟩ :=
    hlists m ⟨post, hpost, happears.trans (tick.start_le m), hbehind⟩
  rcases hcomplete issue hissue nwo hrepo hnwo with hnone | hmem
  · cases hnone
  · obtain ⟨view, hview, hkey⟩ := List.mem_map.1 hmem
    obtain ⟨search', -, asked, hfound⟩ := hanswers.found view hview
    exact ⟨view, n, ⟨views, hfetch, hview, hkey⟩,
      happears.trans (hfound.start_le.trans hfound.fetched.asked_le)⟩

/-- A tick that reads the issue after a comment reads its clock after it. -/
theorem Shows.readAt_le
    (hshows : Shows forge repos botLogin key state tick view n) :
    view.readAt ≤ tick.clock n := by
  obtain ⟨views, hfetch, hview, -⟩ := hshows
  obtain ⟨search, -, asked, hfound⟩ := (fetchViews_answers hfetch).found view hview
  exact hfound.fetched.readAt_le

theorem passesOver_iff {created : Moment} :
    PassesOver forge repos botLogin key created state tick ↔
      (¬ ∃ view n, Shows forge repos botLogin key state tick view n ∧
          created ≤ view.readAt) ∧
        (state.lastPoll < created.stamp ∧
          ∃ views n, fetchViews forge repos tick state botLogin = (some views, n) ∧
            created.epoch ≤ (tick.clock n).epoch) := by
  constructor
  · rintro ⟨hbehind, views, n, hfetch, hearly, hle⟩
    refine ⟨?_, hbehind, views, n, hfetch, hle⟩
    rintro ⟨view, m, ⟨views', hfetch', hview, hkey⟩, hseen⟩
    rw [hfetch] at hfetch'
    obtain rfl := Option.some.inj (Prod.mk.inj hfetch').1
    exact absurd hseen (not_le.2 (hearly view hview hkey))
  · rintro ⟨hunseen, hbehind, views, n, hfetch, hle⟩
    refine ⟨hbehind, views, n, hfetch, fun view hview hkey => ?_, hle⟩
    exact not_le.1 fun hseen => hunseen ⟨view, n, ⟨views, hfetch, hview, hkey⟩, hseen⟩

/-- After a tick that succeeds, the clock reading decides. -/
theorem pollStep_behind {views : List IssueView} {created : Moment}
    (hfetch : fetchViews forge repos tick state botLogin = (some views, n)) :
    (pollStep forge repos botLogin trust planLabel state tick).lastPoll <
        created.stamp ↔ (tick.clock n).epoch < created.epoch := by
  rw [pollStep_lastPoll hfetch, Moment.stamp_lt_iff]

end OneTick

/-! ### Runs -/

section Runs

variable (forge : Forge) (repos : List String) (botLogin : String)
  (trust : Trust) (planLabel nwo : String) (number : UInt32)

/-- The first tick dispatches the thread turn, and was too early for the
comment; a later tick succeeds once the comment is there. -/
structure Follows (before : PollState) (first : Tick) (later : List Tick)
    (post : CommentPost) : Prop where
  posted : post ∈ forge.comments nwo number
  notOwn : post.user.login ≠ botLogin
  trusted : trust.allows post.user.login = true
  after : ∀ view n, Shows forge repos botLogin (trackingKey nwo number) before first
    view n → view.readAt < post.created
  polled : ∃ tick ∈ later, tick.toTick.Succeeds ∧ post.created ≤ tick.start

/-- The thread is embedded once at most, and each trusted comment that comes
later has one turn of its own. -/
structure Incremental (start : PollState) (ticks : List Tick) : Prop where
  once : total (pollStep forge repos botLogin trust planLabel)
    (turns forge repos botLogin trust planLabel
      (·.embedsThread (trackingKey nwo number))) start ticks ≤ 1
  follows : ∀ before first later, ticks = before ++ first :: later →
    turns forge repos botLogin trust planLabel
      (·.embedsThread (trackingKey nwo number))
      (run (pollStep forge repos botLogin trust planLabel) start before) first ≠ 0 →
    ∀ post, Follows forge repos botLogin trust nwo number
      (run (pollStep forge repos botLogin trust planLabel) start before) first later
        post →
      total (pollStep forge repos botLogin trust planLabel)
        (turns forge repos botLogin trust planLabel
          (·.follows (trackingKey nwo number) post.id))
        (run (pollStep forge repos botLogin trust planLabel) start before)
        (first :: later) = 1

/-- No tick that does not find the issue stands between two that find new
comments on it, and no cursor passes over a comment that comes after the first
of these. -/
structure Undisturbed (start : PollState) (ticks : List Tick) : Prop where
  unbroken : ∀ before lapse later, ticks = before ++ lapse :: later →
    Lapses forge repos botLogin (trackingKey nwo number)
      (run (pollStep forge repos botLogin trust planLabel) start before) lapse →
    ¬ (Sometime (pollStep forge repos botLogin trust planLabel)
          (Active forge repos botLogin trust (trackingKey nwo number)) start before ∧
        Sometime (pollStep forge repos botLogin trust planLabel)
          (Active forge repos botLogin trust (trackingKey nwo number))
          (pollStep forge repos botLogin trust planLabel
            (run (pollStep forge repos botLogin trust planLabel) start before) lapse)
          later)
  reached : ∀ before first later, ticks = before ++ first :: later →
    ¬ Sometime (pollStep forge repos botLogin trust planLabel)
      (Active forge repos botLogin trust (trackingKey nwo number)) start before →
    Active forge repos botLogin trust (trackingKey nwo number)
      (run (pollStep forge repos botLogin trust planLabel) start before) first →
    ∀ post, Follows forge repos botLogin trust nwo number
      (run (pollStep forge repos botLogin trust planLabel) start before) first later
        post →
      Meets (pollStep forge repos botLogin trust planLabel)
        (fun state tick => ¬ PassesOver forge repos botLogin (trackingKey nwo number)
          post.created state tick)
        (run (pollStep forge repos botLogin trust planLabel) start before)
        (first :: later)

variable {forge repos botLogin trust planLabel nwo number}

/-- Ticks that follow each other leave a comment behind them no cursor past a
comment of a later second. -/
theorem meets_past {created : Moment} {ticks : List Tick}
    (hserial : ticks.Pairwise fun earlier later =>
      earlier.toTick.Before later.toTick)
    {start : PollState}
    (hstart : ¬ start.lastPoll < created.stamp →
      ∀ tick ∈ ticks, created.epoch ≤ tick.start.epoch) :
    Meets (pollStep forge repos botLogin trust planLabel)
      (fun state tick => ¬ state.lastPoll < created.stamp →
        created.epoch ≤ tick.start.epoch) start ticks := by
  induction ticks generalizing start with
  | nil => trivial
  | cons tick ticks ih =>
      obtain ⟨hlater, hserial⟩ := List.pairwise_cons.1 hserial
      refine ⟨fun hpast => hstart hpast tick List.mem_cons_self,
        ih hserial fun hpast later hmem => ?_⟩
      cases hfetch : fetchViews forge repos tick start botLogin with
      | mk views n =>
          cases views with
          | none =>
              rw [pollStep, pollTick_none hfetch] at hpast
              exact hstart hpast later (List.mem_cons_of_mem _ hmem)
          | some views =>
              rw [pollStep_behind hfetch, not_lt] at hpast
              exact hpast.trans (Moment.epoch_mono (hlater later hmem n))

/-- A comment that an active tick is too early for is past its cursor. -/
theorem Active.behind {state : PollState} {tick : Tick} {created : Moment}
    (hactive : Active forge repos botLogin trust (trackingKey nwo number) state tick)
    (hafter : ∀ view n, Shows forge repos botLogin (trackingKey nwo number) state tick
      view n → view.readAt < created) :
    state.lastPoll < created.stamp := by
  obtain ⟨view, n, hshows, hnew⟩ := hactive
  have hearly := hafter view n hshows
  obtain ⟨comment, hcomment⟩ := List.exists_mem_of_ne_nil _ hnew
  obtain ⟨hcomment, hpast⟩ := List.mem_filter.1 hcomment
  rw [Bool.and_eq_true, decide_eq_true_eq] at hpast
  obtain ⟨views, hfetch, hview, -⟩ := hshows
  obtain ⟨search, -, asked, hfound⟩ := (fetchViews_answers hfetch).found view hview
  cases hwants : wantsComments view.issue view.nwo state view.mode with
  | false =>
      rw [(hfound.fetched.unwanted hwants).1] at hcomment
      cases hcomment
  | true =>
      rw [hfound.fetched.wanted hwants] at hcomment
      obtain ⟨other, -, hle, rfl⟩ := mem_issueComments.1 hcomment
      have hle' : other.created.stamp ≤ created.stamp :=
        Moment.stamp_le_iff.2 (Moment.epoch_mono (hle.trans hearly.le))
      exact lt_of_lt_of_le hpast.1 hle'

/-- A tick that does not find the comment new has no turn for it. -/
theorem turns_follows_eq_zero {state : PollState} {tick : Tick} {post : CommentPost}
    (hdiscussed : Discussed forge botLogin nwo number tick)
    (htouched : AlwaysTouched forge) (hpost : post ∈ forge.comments nwo number)
    (hnotOwn : post.user.login ≠ botLogin)
    (htrusted : trust.allows post.user.login = true)
    (hold : ∀ view n, Shows forge repos botLogin (trackingKey nwo number) state tick
      view n → post.created ≤ view.readAt → ¬ state.lastPoll < post.created.stamp) :
    turns forge repos botLogin trust planLabel
      (·.follows (trackingKey nwo number) post.id) state tick = 0 := by
  by_cases hshown : ∃ view n,
      Shows forge repos botLogin (trackingKey nwo number) state tick view n
  · obtain ⟨view, n, hshows⟩ := hshown
    rw [hshows.follows_eq hdiscussed htouched hpost hnotOwn htrusted,
      if_neg fun hnew => hold view n hshows hnew.2.1 hnew.2.2]
  · exact turns_eq_zero (fun view n hshows => hshown ⟨view, n, hshows⟩)
      (follows_key _ _)

/-- While the thread stays known, a later comment has one turn exactly when no
cursor passes over it. -/
theorem follows_once_iff (hrepo : nwo ∈ repos) (htouched : AlwaysTouched forge)
    {before : PollState} {first : Tick} {later : List Tick} {post : CommentPost}
    (hserial : (first :: later).Pairwise fun earlier later =>
      earlier.toTick.Before later.toTick)
    (hdiscussed : ∀ tick ∈ first :: later, Discussed forge botLogin nwo number tick)
    (hactive : Active forge repos botLogin trust (trackingKey nwo number) before first)
    (hknown : total (pollStep forge repos botLogin trust planLabel)
      (turns forge repos botLogin trust planLabel
        (·.embedsThread (trackingKey nwo number)))
      (pollStep forge repos botLogin trust planLabel before first) later = 0)
    (hfollows : Follows forge repos botLogin trust nwo number before first later post) :
    total (pollStep forge repos botLogin trust planLabel)
        (turns forge repos botLogin trust planLabel
          (·.follows (trackingKey nwo number) post.id)) before (first :: later) = 1 ↔
      Meets (pollStep forge repos botLogin trust planLabel)
        (fun state tick => ¬ PassesOver forge repos botLogin (trackingKey nwo number)
          post.created state tick) before (first :: later) := by
  obtain ⟨hpost, hnotOwn, htrusted, hafter, hpolled⟩ := hfollows
  have hbehind := hactive.behind hafter
  have hmemory := remembers_discussion forge repos botLogin trust planLabel nwo number
  have hdiscussedAll : Meets (pollStep forge repos botLogin trust planLabel)
      (fun _ tick => Discussed forge botLogin nwo number tick) before
      (first :: later) := meets_iff_forall.2 hdiscussed
  have hknows : Meets (pollStep forge repos botLogin trust planLabel)
      (fun state tick => ∀ view n, Shows forge repos botLogin (trackingKey nwo number)
        state tick view n → post.created ≤ view.readAt →
        state.lastPoll < post.created.stamp →
        trackingKey nwo number ∈ state.discussionAnnounced) before
      (first :: later) := by
    refine ⟨fun view n hshows hseen => absurd hseen (not_le.2 (hafter view n hshows)),
      ((total_eq_zero_iff.1 hknown).and hdiscussedAll.2).mono ?_⟩
    rintro state tick ⟨hzero, hdiscussed⟩ view n hshows hseen hbehind
    by_contra hunknown
    have hcount := hshows.countP_new htouched hpost hnotOwn htrusted
    rw [if_pos ⟨hseen, hbehind⟩] at hcount
    have hactive : Active forge repos botLogin trust (trackingKey nwo number) state
        tick := by
      refine hshows.active.2 fun hnone => ?_
      rw [hnone] at hcount
      cases hcount
    have hone := hmemory.counts state tick hdiscussed hactive hunknown
    omega
  simp only [passesOver_iff]
  refine CursorPoll.total_eq_one_iff
    (fun state => state.lastPoll < post.created.stamp)
    (fun state tick => ∃ view n, Shows forge repos botLogin (trackingKey nwo number)
      state tick view n ∧ post.created ≤ view.readAt)
    ?_ ?_ ?_
    (hdiscussedAll.and ((meets_past hserial fun hpast => absurd hbehind hpast).and
      hknows))
    ?_ hbehind ?_
  · rintro state tick ⟨hdiscussed, hcursor, -⟩ hpast
    refine ⟨turns_follows_eq_zero hdiscussed htouched hpost hnotOwn htrusted
      fun _ _ _ _ => hpast, ?_⟩
    cases hfetch : fetchViews forge repos tick state botLogin with
    | mk views n =>
        cases views with
        | none => rwa [pollStep, pollTick_none hfetch]
        | some views =>
            rw [pollStep_behind hfetch, not_lt]
            exact (hcursor hpast).trans (Moment.epoch_mono (tick.start_le n))
  · rintro state tick ⟨hdiscussed, -, hknows⟩ hbehind ⟨view, n, hshows, hseen⟩
    rw [hshows.follows_eq hdiscussed htouched hpost hnotOwn htrusted,
      if_pos ⟨hknows view n hshows hseen hbehind, hseen, hbehind⟩]
    have hle := hshows.readAt_le
    obtain ⟨views, hfetch, -⟩ := hshows
    rw [pollStep_behind hfetch, not_lt]
    exact ⟨rfl, Moment.epoch_mono (hseen.trans hle)⟩
  · rintro state tick ⟨hdiscussed, -⟩ hbehind hunseen
    refine ⟨turns_follows_eq_zero hdiscussed htouched hpost hnotOwn htrusted
      fun view n hshows hseen => absurd ⟨view, n, hshows, hseen⟩ hunseen, ?_⟩
    cases hfetch : fetchViews forge repos tick state botLogin with
    | mk views n =>
        cases views with
        | none =>
            rw [pollStep, pollTick_none hfetch]
            refine iff_of_true hbehind ?_
            rintro ⟨-, views, m, hviews, -⟩
            cases hviews
        | some views =>
            rw [pollStep_behind hfetch]
            constructor
            · rintro hlt ⟨-, views', m, hviews, hle⟩
              obtain ⟨-, rfl⟩ := Prod.mk.inj hviews
              exact absurd hlt (not_lt.2 hle)
            · intro hcarries
              exact not_le.1 fun hle => hcarries ⟨hbehind, views, n, rfl, hle⟩
  · refine hserial.imp_of_mem fun {earlier later} _ hmem hbefore => ?_
    rintro state state' - ⟨view, n, hshows, hseen⟩
      ⟨hunseen, hbehind, views, m, hfetch, -⟩
    exact hunseen ((hdiscussed later hmem).sees hrepo hpost
      (hseen.trans (hshows.readAt_le.trans (hbefore n))) hbehind hfetch)
  · obtain ⟨tick, hmem, hup, happears⟩ := hpolled
    refine ⟨tick, List.mem_cons_of_mem _ hmem, fun state hbehind => ?_⟩
    obtain ⟨views, m, hfetch⟩ := fetchSearches_succeeds hup
      (searches botLogin state.lastPoll) [] 0
    exact (hdiscussed tick (List.mem_cons_of_mem _ hmem)).sees hrepo hpost happears
      hbehind hfetch

/-- The turn for a comment mentions it. -/
theorem pollTick_follows_mentions {state : PollState} {tick : Tick}
    {post : CommentPost} (hpost : post ∈ forge.comments nwo number) {d : Dispatch}
    (hmem : d ∈ (pollTick forge repos tick state botLogin trust planLabel).1)
    (hfollows : d.follows (trackingKey nwo number) post.id = true) :
    Mentions d.message post.user.login post.body := by
  simp only [Dispatch.follows, Bool.and_eq_true, beq_iff_eq] at hfollows
  obtain ⟨hkey, hkind, hopens, habout⟩ := hfollows
  cases hfetch : fetchViews forge repos tick state botLogin with
  | mk views n =>
      cases views with
      | none =>
          rw [pollTick_none hfetch] at hmem
          cases hmem
      | some views =>
          rw [pollTick_turns hfetch] at hmem
          rcases List.mem_append.1 hmem with hmem | hmem
          · obtain ⟨view, -, hmem⟩ := List.mem_flatMap.1 hmem
            exact absurd hkind (workDispatches_kind hmem)
          · obtain ⟨view, hview, hmem⟩ := List.mem_flatMap.1 hmem
            have hview := (List.mem_filter.1 hview).1
            have hsame := (discussionDispatches_key hmem).symm.trans hkey
            obtain ⟨rfl, rfl⟩ := trackingKey_inj hsame
            obtain ⟨search, -, asked, hfound⟩ :=
              (fetchViews_answers hfetch).found view hview
            rcases mem_discussionDispatches hmem with rfl | ⟨comment, hnew, rfl⟩
            · rw [not_opens rfl rfl (by decide) formatDiscussion_opens] at hopens
              cases hopens
            · have hid : comment.id = post.id := List.head_eq_of_cons_eq habout
              have hcomment := (List.mem_filter.1 hnew).1
              cases hwants : wantsComments view.issue view.nwo state view.mode with
              | false =>
                  rw [(hfound.fetched.unwanted hwants).1] at hcomment
                  cases hcomment
              | true =>
                  rw [hfound.fetched.wanted hwants] at hcomment
                  obtain ⟨-, rfl⟩ := id_mem_issueComments hpost hcomment hid
                  exact formatDiscussionComment_mentions _ _

end Runs

/-! ### A thread embedded twice -/

def laterComment : CommentPost where
  id := 8
  user := ⟨"alice"⟩
  body := "and this too"
  created := Moment.of2026 8000

/-- What the search shows of the issue: when it was commented on last. -/
def lastComment (now : Moment) : String :=
  if laterComment.created ≤ now then laterComment.created.stamp
  else if midTickComment.created ≤ now then midTickComment.created.stamp
  else ""

def mentionsQuery : String :=
  "is:issue is:open mentions:" ++ "kitaebot" ++ " -assignee:" ++ "kitaebot" ++
    " -author:" ++ "kitaebot" ++ " updated:>"

/-- Alice's `owner/repo#1` mentions the bot and gets two comments, six seconds
apart. -/
def discussedForge : Forge :=
  { smallForge (fun _ => []) none none with
    search := fun query now =>
      if opens mentionsQuery query = true ∧
          String.ofList (query.toList.drop mentionsQuery.length) <
            lastComment now then
        [assignedIssue (lastComment now)]
      else []
    comments := fun nwo number =>
      if nwo = "owner/repo" ∧ number = 1 then [midTickComment, laterComment] else []
    comments_distinct := fun nwo number => by
      split
      · decide
      · exact List.nodup_nil }

theorem mem_discussedSearch {query : String} {now : Moment} {issue : SearchIssue}
    (hmem : issue ∈ discussedForge.search query now) :
    opens mentionsQuery query = true ∧ issue = assignedIssue (lastComment now) := by
  replace hmem : issue ∈ ite _ _ _ := hmem
  split at hmem
  · rename_i hlisted
    exact ⟨hlisted.1, List.mem_singleton.1 hmem⟩
  · cases hmem

theorem mem_discussedComments {nwo : String} {post : CommentPost}
    (hmem : post ∈ discussedForge.comments nwo 1) :
    post = midTickComment ∨ post = laterComment := by
  replace hmem : post ∈ ite (nwo = "owner/repo" ∧ (1 : UInt32) = 1)
    [midTickComment, laterComment] [] := hmem
  split at hmem
  · simpa using hmem
  · cases hmem

/-- The issue shows as updated no earlier than its comments. -/
theorem stamp_le_lastComment {nwo : String} {post : CommentPost} {now : Moment}
    (hmem : post ∈ discussedForge.comments nwo 1) (hle : post.created ≤ now) :
    post.created.stamp ≤ lastComment now := by
  have horder : midTickComment.created.stamp ≤ laterComment.created.stamp := by
    decide
  rw [lastComment]
  obtain rfl | rfl := mem_discussedComments hmem
  · split
    · exact horder
    · exact le_rfl
  · rw [if_pos hle]

theorem discussedForge_touched : AlwaysTouched discussedForge := by
  intro query now issue hmem nwo hnwo post hpost hle
  obtain ⟨-, rfl⟩ := mem_discussedSearch hmem
  exact stamp_le_lastComment hpost hle

theorem discussedForge_discussed (tick : Tick) :
    Discussed discussedForge "kitaebot" "owner/repo" 1 tick where
  unassigned issue hmem := by
    obtain ⟨hopens, -⟩ := mem_discussedSearch hmem
    have hnot : ¬ opens mentionsQuery (workQuery "kitaebot") = true := by
      decide
    exact absurd hopens hnot
  searched cursor := by
    refine ⟨(mentionsQuery ++ cursor, .discussion false), List.mem_cons_of_mem _
      (List.mem_cons_of_mem _ (List.mem_singleton.2 rfl)), fun n => ?_⟩
    rintro ⟨post, hpost, hle, hpast⟩
    refine ⟨assignedIssue (lastComment (tick.clock n)), ?_, assignedIssue_nwo _, rfl⟩
    have hdrop : String.ofList ((mentionsQuery ++ cursor).toList.drop
        mentionsQuery.length) = cursor := by
      rw [String.toList_append, ← String.length_toList, List.drop_left,
        String.ofList_toList]
    have hlisted : opens mentionsQuery (mentionsQuery ++ cursor) = true ∧
        String.ofList ((mentionsQuery ++ cursor).toList.drop mentionsQuery.length) <
          lastComment (tick.clock n) := by
      rw [hdrop]
      exact ⟨opens_append _ (opens_refl _),
        lt_of_lt_of_le hpast (stamp_le_lastComment hpost hle)⟩
    show _ ∈ ite _ _ _
    rw [if_pos hlisted]
    exact List.mem_singleton_self _

/-- A tick whose reads and clock readings all happen at one moment. -/
def tickAt (millis : Fin 31536000000) : Tick :=
  fetchTick (Moment.of2026 millis) (Moment.of2026 millis) le_rfl

theorem tickAt_serial {earlier later : Fin 31536000000}
    (hle : Moment.of2026 earlier ≤ Moment.of2026 later) :
    (tickAt earlier).toTick.Before (tickAt later).toTick := by
  intro n
  show ite (n < 5) (Moment.of2026 earlier) (Moment.of2026 earlier) ≤
    Moment.of2026 later
  rwa [ite_self]

/-- One tick after each of the two comments, and one between them. -/
def quietBetween : List Tick := [tickAt 3000, tickAt 5000, tickAt 9000]

/-- An evaluated fetch finds new comments on the issue. -/
theorem active_of_any {forge : Forge} {repos : List String} {botLogin key : String}
    {trust : Trust} {state : PollState} {tick : Tick}
    (hany : (fetchViews forge repos tick state botLogin).1.any (fun views =>
      views.any fun view => view.key == key &&
        !(newTrustedComments state botLogin trust view).isEmpty) = true) :
    Active forge repos botLogin trust key state tick := by
  obtain ⟨views, hfetch, hany⟩ := (Option.any_eq_true _ _).1 hany
  obtain ⟨view, hview, hnew⟩ := List.any_eq_true.1 hany
  rw [Bool.and_eq_true, beq_iff_eq, Bool.not_eq_true', List.isEmpty_eq_false_iff]
    at hnew
  exact ⟨view, _, ⟨views, Prod.ext hfetch rfl, hview, hnew.1⟩, hnew.2⟩

/-- An evaluated fetch does not find the issue. -/
theorem lapses_of_any {forge : Forge} {repos : List String} {botLogin key : String}
    {state : PollState} {tick : Tick}
    (hany : (fetchViews forge repos tick state botLogin).1.any (fun views =>
      !(views.map (·.key)).contains key) = true) :
    Lapses forge repos botLogin key state tick := by
  obtain ⟨views, hfetch, hnone⟩ := (Option.any_eq_true _ _).1 hany
  refine ⟨views, _, Prod.ext hfetch rfl, fun hmem => ?_⟩
  rw [Bool.not_eq_true', ← Bool.not_eq_true, List.contains_iff_mem] at hnone
  exact hnone hmem

/-- The state after some ticks from first boot. -/
def afterTick (ticks : List Tick) : PollState :=
  run (pollStep discussedForge ["owner/repo"] "kitaebot" aliceTrust "needs-plan")
    firstBoot ticks

end Kitaebot.Channel.Issues
