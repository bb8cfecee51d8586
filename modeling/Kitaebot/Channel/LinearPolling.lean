import Kitaebot.Channel.Linear
import Kitaebot.Core.CursorPoll

/-!
# Polling Linear

What a run of ticks does with one comment on an assigned issue.  A stamp with a
fraction is below the cursor of its own second, so the cursor is past everything
of its second; and it is a clock reading taken after the fetch.
-/

namespace Kitaebot.Channel.Linear

open Kitaebot.Run
open Kitaebot.Text
open Kitaebot.Time

/-! ### What a tick dispatches -/

/-- The turn works on the issue and was made from the comment. -/
def Dispatch.handles (identifier id : String) (d : Dispatch) : Bool :=
  d.identifier == identifier && d.about.contains id

theorem mem_keysOf {issues : List Issue} {key : String} :
    key ∈ keysOf issues ↔ key ∈ issues.map (·.identifier) := by
  rw [keysOf, mem_foldl_insert]
  exact or_iff_right Std.ExtTreeSet.not_mem_empty

section Dispatches

variable {service : Service} {state : PollState} {viewerId planLabel : String}
  {trustedUsers : List String} {issue : Issue} {identifier id : String}
  {post : CommentPost} {now : Moment}

theorem commentDispatch_some {repo : String} {comment : Comment} {d : Dispatch}
    (hdispatch : commentDispatch state viewerId trustedUsers issue repo comment =
      some d) :
    state.lastPoll < comment.createdAt ∧ d.identifier = issue.identifier ∧
      d.about = [comment.id] ∧ ∃ user plan, comment.user = some user ∧
        d.message = formatComment issue repo user.name user.email comment.body
          plan := by
  simp only [commentDispatch] at hdispatch
  split at hdispatch
  · cases hdispatch
  · rename_i hnew
    split at hdispatch
    · cases hdispatch
    · rename_i user huser
      split at hdispatch
      · cases hdispatch
      · split at hdispatch
        · cases hdispatch
        · rw [← Option.some.inj hdispatch]
          exact ⟨not_le.1 hnew, rfl, rfl, user, _, huser, rfl⟩

theorem commentDispatch_of_new (issue : Issue) (repo : String)
    {comment : Comment} {user : CommentUser} (hnew : state.lastPoll < comment.createdAt)
    (huser : comment.user = some user) (hviewer : user.id ≠ viewerId)
    (htrusted : isTrusted user.email trustedUsers = true) :
    ∃ d, commentDispatch state viewerId trustedUsers issue repo comment =
      some d := by
  rw [commentDispatch, if_neg (not_le.2 hnew), huser]
  simp only [if_neg hviewer, htrusted, Bool.not_true, Bool.false_eq_true,
    if_false]
  exact ⟨_, rfl⟩

theorem issueDispatches_identifier {d : Dispatch}
    (hmem : d ∈ issueDispatches state viewerId trustedUsers planLabel issue) :
    d.identifier = issue.identifier := by
  rw [issueDispatches] at hmem
  split at hmem
  · cases hmem
  · split at hmem
    · obtain ⟨comment, -, hdispatch⟩ := List.mem_filterMap.1 hmem
      exact (commentDispatch_some hdispatch).2.1
    · rw [List.mem_singleton.1 hmem]
      rfl

/-- Only the view of an issue counts for its comments. -/
theorem countP_decideEvents {issues : List Issue} (now : String)
    (hdistinct : (issues.map (·.identifier)).Nodup) (hmem : issue ∈ issues) :
    (decideEvents state viewerId trustedUsers planLabel issues now).1.countP
        (·.handles issue.identifier id) =
      (issueDispatches state viewerId trustedUsers planLabel issue).countP
        (·.handles issue.identifier id) := by
  refine countP_flatMap_eq hdistinct hmem fun other _ hne => ?_
  rw [List.countP_eq_zero]
  intro d hd
  simp [Dispatch.handles, issueDispatches_identifier hd, hne]

theorem mem_commentsAt {comment : Comment} :
    comment ∈ service.commentsAt now identifier ↔
      ∃ post ∈ service.comments identifier,
        post.created ≤ now ∧ post.asComment = comment := by
  simp [Service.commentsAt, and_assoc]

theorem commentsAt_distinct (service : Service) (now : Moment)
    (identifier : String) :
    ((service.commentsAt now identifier).map (·.id)).Nodup := by
  have hsublist : ((service.commentsAt now identifier).map (·.id)).Sublist
      ((service.comments identifier).map (·.id)) := by
    rw [Service.commentsAt, List.map_map]
    exact List.filter_sublist.map _
  exact hsublist.nodup (service.comments_distinct identifier)

/-- A fetched comment is the only one with its id. -/
theorem id_mem_commentsAt (hpost : post ∈ service.comments identifier)
    {comment : Comment} (hmem : comment ∈ service.commentsAt now identifier)
    (hid : comment.id = post.id) :
    post.created ≤ now ∧ post.asComment = comment := by
  obtain ⟨other, hother, hle, rfl⟩ := mem_commentsAt.1 hmem
  obtain rfl := List.inj_on_of_nodup_map (service.comments_distinct identifier)
    hother hpost hid
  exact ⟨hle, rfl⟩

/-- A comment's author, as the comment pass asks for it. -/
def CommentPost.TrustedBy (post : CommentPost) (viewerId : String)
    (trustedUsers : List String) : Prop :=
  ∃ user, post.user = some user ∧ user.id ≠ viewerId ∧
    isTrusted user.email trustedUsers = true

/-- An announced issue counts for a comment iff that is past the cursor. -/
theorem countP_announced {repo : String}
    (hpost : post ∈ service.comments issue.identifier)
    (htrusted : post.TrustedBy viewerId trustedUsers)
    (hrepo : repoLabel issue = some repo)
    (hannounced : issue.identifier ∈ state.announcedIssues)
    (hcomments : issue.comments = service.commentsAt now issue.identifier) :
    (issueDispatches state viewerId trustedUsers planLabel issue).countP
        (·.handles issue.identifier post.id) =
      if post.created ≤ now ∧ state.lastPoll < post.asComment.createdAt then 1
      else 0 := by
  have hcontains : state.announcedIssues.contains issue.identifier = true :=
    hannounced
  have hdistinct : (issue.comments.map (·.id)).Nodup := by
    rw [hcomments]
    exact commentsAt_distinct service now issue.identifier
  have hid (comment : Comment) (hhandles :
      ((commentDispatch state viewerId trustedUsers issue repo comment).map
        (·.handles issue.identifier post.id)).getD false = true) :
      comment.id = post.id ∧ state.lastPoll < comment.createdAt := by
    rw [Option.getD_eq_iff] at hhandles
    obtain ⟨d, hdispatch, hhandles⟩ :=
      Option.map_eq_some_iff.1 (hhandles.resolve_right (by simp))
    obtain ⟨hnew, -, habout, -⟩ := commentDispatch_some hdispatch
    simp only [Dispatch.handles, habout, Bool.and_eq_true,
      List.contains_iff_mem, List.mem_singleton] at hhandles
    exact ⟨hhandles.2.symm, hnew⟩
  rw [issueDispatches, hrepo]
  simp only [hcontains, if_true]
  rw [List.countP_filterMap,
    countP_distinct hdistinct fun comment _ hhandles => (hid comment hhandles).1]
  congr 1
  rw [eq_iff_iff, List.any_eq_true, hcomments]
  constructor
  · rintro ⟨comment, hmem, hhandles⟩
    obtain ⟨hsame, hnew⟩ := hid comment hhandles
    obtain ⟨hle, rfl⟩ := id_mem_commentsAt hpost hmem hsame
    exact ⟨hle, hnew⟩
  · rintro ⟨hle, hnew⟩
    obtain ⟨user, huser, hviewer, hemail⟩ := htrusted
    obtain ⟨d, hdispatch⟩ := commentDispatch_of_new issue repo hnew huser hviewer hemail
    refine ⟨post.asComment, mem_commentsAt.2 ⟨post, hpost, hle, rfl⟩, ?_⟩
    obtain ⟨-, hidentifier, habout, -⟩ := commentDispatch_some hdispatch
    rw [hdispatch]
    simp [Dispatch.handles, hidentifier, habout, CommentPost.asComment]

/-- The announcement counts for the comments that it was fetched with. -/
theorem countP_unannounced {repo : String}
    (hpost : post ∈ service.comments issue.identifier)
    (hrepo : repoLabel issue = some repo)
    (hannounced : issue.identifier ∉ state.announcedIssues)
    (hcomments : issue.comments = service.commentsAt now issue.identifier) :
    (issueDispatches state viewerId trustedUsers planLabel issue).countP
        (·.handles issue.identifier post.id) =
      if post.created ≤ now then 1 else 0 := by
  have hcontains : ¬ state.announcedIssues.contains issue.identifier = true :=
    hannounced
  have hhandles :
      (announcement planLabel issue repo).handles issue.identifier post.id =
        (issue.comments.map (·.id)).contains post.id := by
    simp [Dispatch.handles, announcement]
  rw [issueDispatches, hrepo]
  simp only [hcontains, Bool.false_eq_true, if_false]
  rw [List.countP_singleton, hhandles]
  congr 1
  rw [eq_iff_iff, List.contains_iff_mem, List.mem_map, hcomments]
  constructor
  · rintro ⟨comment, hmem, hid⟩
    exact (id_mem_commentsAt hpost hmem hid).1
  · intro hle
    exact ⟨post.asComment, mem_commentsAt.2 ⟨post, hpost, hle, rfl⟩, rfl⟩

end Dispatches

/-! ### The messages -/

theorem formatThread_mentions {comments : List Comment} {comment : Comment}
    (hmem : comment ∈ comments) :
    Mentions (formatThread comments) (commentAuthor comment) comment.body := by
  have hne : ¬ comments.isEmpty = true := by
    rw [List.isEmpty_iff]
    exact List.ne_nil_of_mem hmem
  rw [formatThread, if_neg hne]
  refine Mentions.of_includes ?_ ((includes_join
    (List.mem_map_of_mem hmem)).append_left _)
  exact ⟨((((Includes.last "[" (commentAuthor comment)).append_right
    _).append_right _).append_right _), (Includes.last _ comment.body).append_right _⟩

theorem announcement_mentions {planLabel repo : String} {issue : Issue}
    {comment : Comment} (hmem : comment ∈ issue.comments) :
    Mentions (announcement planLabel issue repo).message
      (commentAuthor comment) comment.body := by
  have hthread := formatThread_mentions hmem
  show Mentions (if _ then _ else _) _ _
  split
  · refine hthread.of_includes ?_
    unfold formatNewIssue
    iterate 5 apply Includes.append_right
    exact Includes.last _ _
  · refine hthread.of_includes ?_
    unfold formatNewIssueExecute
    iterate 12 apply Includes.append_right
    exact Includes.last _ _

theorem formatComment_mentions (issue : Issue)
    (repo author email body : String) (planComment : Option String) :
    Mentions (formatComment issue repo author email body planComment) author
      body := by
  unfold formatComment
  constructor
  · iterate 17 apply Includes.append_right
    exact Includes.last _ _
  · iterate 12 apply Includes.append_right
    exact Includes.last _ _

/-! ### One tick -/

section OneTick

variable {service : Service} {tick : Tick} {state : PollState}
  {viewerId planLabel identifier : String} {trustedUsers : List String}
  {post : CommentPost}

/-- The answer lists the issue, with one label that names a repository. -/
def Assigned (service : Service) (identifier : String) (tick : Tick) : Prop :=
  ∃ issue ∈ service.assignedIssues tick.fetched,
    issue.identifier = identifier ∧ (repoLabel issue).isSome = true

/-- The comment is not handled by the announcement, nor behind the cursor. -/
def Behind (identifier : String) (post : CommentPost) (state : PollState) :
    Prop :=
  identifier ∉ state.announcedIssues ∨
    state.lastPoll < post.asComment.createdAt

/-- The tick's answer is too early for the comment, and its clock reading is in
the comment's second or a later one. -/
def Misses (post : CommentPost) (tick : Tick) : Prop :=
  tick.succeeds = true ∧ tick.fetched < post.created ∧
    post.created.epoch ≤ tick.clock.epoch

def pollStep (service : Service) (viewerId : String)
    (trustedUsers : List String) (planLabel : String) (state : PollState)
    (tick : Tick) : PollState :=
  (pollTick service tick state viewerId trustedUsers planLabel).2

/-- How many turns of the tick work on the issue and were made from the
comment. -/
def handled (service : Service) (viewerId : String)
    (trustedUsers : List String) (planLabel identifier id : String)
    (state : PollState) (tick : Tick) : ℕ :=
  (pollTick service tick state viewerId trustedUsers planLabel).1.countP
    (·.handles identifier id)

instance (identifier : String) (post : CommentPost) (state : PollState) :
    Decidable (Behind identifier post state) :=
  inferInstanceAs (Decidable (_ ∨ _))

theorem CommentPost.lt_createdAt_iff (post : CommentPost) (cursor : Moment) :
    cursor.stamp < post.asComment.createdAt ↔
      cursor.epoch < post.created.epoch :=
  lt_fractionalStamp_iff post.fraction cursor.fourDigitYear
    post.created.fourDigitYear

theorem pollTick_failed (hdown : tick.succeeds = false) :
    pollTick service tick state viewerId trustedUsers planLabel =
      ([], state) := by
  rw [pollTick, hdown]
  rfl

theorem pollTick_turns (hup : tick.succeeds = true) :
    (pollTick service tick state viewerId trustedUsers planLabel).1 =
      (decideEvents state viewerId trustedUsers planLabel
        (service.assignedIssues tick.fetched) tick.clock.stamp).1 := by
  rw [pollTick, if_pos hup]

theorem pollTick_state (hup : tick.succeeds = true) :
    (pollTick service tick state viewerId trustedUsers planLabel).2 =
      (decideEvents state viewerId trustedUsers planLabel
        (service.assignedIssues tick.fetched)
          tick.clock.stamp).2.recordPlans tick
        (decideEvents state viewerId trustedUsers planLabel
          (service.assignedIssues tick.fetched) tick.clock.stamp).1 := by
  rw [pollTick, if_pos hup]

theorem recordPlans_lastPoll (next : PollState) (ds : List Dispatch) :
    (next.recordPlans tick ds).lastPoll = next.lastPoll := rfl

theorem recordPlans_announced (next : PollState) (ds : List Dispatch) :
    (next.recordPlans tick ds).announcedIssues = next.announcedIssues := rfl

theorem decideEvents_lastPoll (issues : List Issue) (now : String) :
    (decideEvents state viewerId trustedUsers planLabel issues now).2.lastPoll =
      now := rfl

theorem decideEvents_announced (issues : List Issue) (now : String) :
    (decideEvents state viewerId trustedUsers planLabel issues
        now).2.announcedIssues =
      keysOf (issues.filter fun issue => (repoLabel issue).isSome) := rfl

theorem mem_assignedIssues {issue : Issue} {now : Moment}
    (hmem : issue ∈ service.assignedIssues now) :
    issue.comments = service.commentsAt now issue.identifier := by
  obtain ⟨info, -, rfl⟩ := List.mem_map.1 hmem
  rfl

theorem assignedIssues_distinct (service : Service) (now : Moment) :
    ((service.assignedIssues now).map (·.identifier)).Nodup := by
  rw [Service.assignedIssues, List.map_map]
  exact service.assigned_distinct now

/-- A tick handles a comment once if it succeeds, the comment is there and
still to be handled, and not at all otherwise. -/
theorem handled_eq (hassigned : Assigned service identifier tick)
    (hpost : post ∈ service.comments identifier)
    (htrusted : post.TrustedBy viewerId trustedUsers) :
    handled service viewerId trustedUsers planLabel identifier post.id state
        tick =
      if tick.succeeds = true ∧ post.created ≤ tick.fetched ∧
          Behind identifier post state then 1 else 0 := by
  obtain ⟨issue, hmem, rfl, hlabel⟩ := hassigned
  obtain ⟨repo, hrepo⟩ := Option.isSome_iff_exists.1 hlabel
  have hcomments := mem_assignedIssues hmem
  cases hup : tick.succeeds with
  | false =>
      rw [handled, pollTick_failed hup]
      simp
  | true =>
      rw [handled, pollTick_turns hup,
        countP_decideEvents _ (assignedIssues_distinct service _) hmem]
      by_cases hannounced : issue.identifier ∈ state.announcedIssues
      · rw [countP_announced hpost htrusted hrepo hannounced hcomments]
        simp [Behind, hannounced]
      · rw [countP_unannounced hpost hrepo hannounced hcomments]
        simp [Behind, hannounced]

/-- After a good tick the clock reading decides. -/
theorem behind_step (hassigned : Assigned service identifier tick)
    (hup : tick.succeeds = true) :
    Behind identifier post
        (pollStep service viewerId trustedUsers planLabel state tick) ↔
      tick.clock.epoch < post.created.epoch := by
  obtain ⟨issue, hmem, rfl, hlabel⟩ := hassigned
  have hannounced : issue.identifier ∈ keysOf
      ((service.assignedIssues tick.fetched).filter fun issue =>
        (repoLabel issue).isSome) :=
    mem_keysOf.2 (List.mem_map_of_mem (List.mem_filter.2 ⟨hmem, hlabel⟩))
  rw [Behind, pollStep, pollTick_state hup, recordPlans_announced,
    decideEvents_announced, recordPlans_lastPoll, decideEvents_lastPoll,
    post.lt_createdAt_iff]
  exact or_iff_right (not_not.2 hannounced)

/-- The turns made from a comment mention it. -/
theorem pollTick_mentions (hpost : post ∈ service.comments identifier)
    {d : Dispatch}
    (hmem : d ∈ (pollTick service tick state viewerId trustedUsers planLabel).1)
    (hhandles : d.handles identifier post.id = true) :
    Mentions d.message (commentAuthor post.asComment) post.body := by
  simp only [Dispatch.handles, Bool.and_eq_true, beq_iff_eq,
    List.contains_iff_mem] at hhandles
  obtain ⟨hidentifier, habout⟩ := hhandles
  cases hup : tick.succeeds with
  | false =>
      rw [pollTick_failed hup] at hmem
      cases hmem
  | true =>
      rw [pollTick_turns hup] at hmem
      obtain ⟨issue, hissue, hmem⟩ := List.mem_flatMap.1 hmem
      obtain rfl := (issueDispatches_identifier hmem).symm.trans hidentifier
      have hcomments (comment : Comment) (hcomment : comment ∈ issue.comments)
          (hid : comment.id = post.id) : comment = post.asComment := by
        rw [mem_assignedIssues hissue] at hcomment
        exact (id_mem_commentsAt hpost hcomment hid).2.symm
      rw [issueDispatches] at hmem
      split at hmem
      · cases hmem
      · split at hmem
        · obtain ⟨comment, hcomment, hdispatch⟩ := List.mem_filterMap.1 hmem
          obtain ⟨-, -, hids, user, plan, huser, hmessage⟩ :=
            commentDispatch_some hdispatch
          rw [hids, List.mem_singleton] at habout
          obtain rfl := hcomments comment hcomment habout.symm
          rw [hmessage, commentAuthor, huser]
          exact formatComment_mentions _ _ _ _ _ _
        · obtain rfl := List.mem_singleton.1 hmem
          obtain ⟨comment, hcomment, hid⟩ := List.mem_map.1 habout
          rw [hcomments comment hcomment hid] at hcomment
          exact announcement_mentions hcomment

end OneTick

/-! ### Runs -/

theorem meets_cursor {service : Service} {viewerId planLabel identifier : String}
    {trustedUsers : List String} {post : CommentPost} {ticks : List Tick}
    (hassigned : ∀ tick ∈ ticks, Assigned service identifier tick)
    (hserial : ticks.Pairwise fun earlier later => earlier.clock ≤ later.fetched)
    {start : PollState}
    (hstart : ¬ Behind identifier post start →
      ∀ tick ∈ ticks, post.created.epoch ≤ tick.fetched.epoch) :
    Meets (pollStep service viewerId trustedUsers planLabel)
      (fun state tick => Assigned service identifier tick ∧
        (¬ Behind identifier post state →
          post.created.epoch ≤ tick.fetched.epoch))
      start ticks := by
  induction ticks generalizing start with
  | nil => trivial
  | cons tick ticks ih =>
      rw [List.forall_mem_cons] at hassigned
      obtain ⟨hlater, hserial⟩ := List.pairwise_cons.1 hserial
      refine ⟨⟨hassigned.1, fun hpast => hstart hpast tick List.mem_cons_self⟩,
        ih hassigned.2 hserial fun hpast later hmem => ?_⟩
      cases hup : tick.succeeds with
      | false =>
          rw [pollStep, pollTick_failed hup] at hpast
          exact hstart hpast later (List.mem_cons_of_mem _ hmem)
      | true =>
          rw [behind_step hassigned.1 hup, not_lt] at hpast
          exact hpast.trans (Moment.epoch_mono (hlater later hmem))

def firstBoot : PollState where
  lastPoll := (Moment.of2026 0).stamp
  announcedIssues := ∅
  planComments := ∅

/-- Stamped `2026-01-01T00:00:01.500Z`. -/
def sameSecond : CommentPost where
  id := "c1"
  body := "go ahead"
  created := Moment.of2026 1500
  fraction := ['5', '0', '0']
  user := some ⟨"u2", "Alice", "alice@example.com"⟩

/-- One assigned issue with that comment. -/
def smallService : Service where
  assigned _ := [⟨"i1", "MDK-1", "Fix login", none, [⟨"owner/repo"⟩]⟩]
  comments identifier := if identifier = "MDK-1" then [sameSecond] else []
  assigned_distinct _ := List.nodup_singleton _
  comments_distinct identifier := by
    split
    · exact List.nodup_singleton _
    · exact List.nodup_nil

def goodTick (fetched clock : Moment) (hle : fetched ≤ clock) : Tick where
  succeeds := true
  fetched := fetched
  clock := clock
  posted _ := none
  fetched_le := hle

/-- The first tick reads the clock just before the comment appears. -/
def withinSecond : List Tick :=
  [goodTick (Moment.of2026 1200) (Moment.of2026 1300) (by decide),
    goodTick (Moment.of2026 5000) (Moment.of2026 5000) le_rfl]

theorem smallService_assigned (tick : Tick) :
    Assigned smallService "MDK-1" tick := by
  have hlabel : [Label.mk "owner/repo"].filter (fun label =>
      label.name.toList.count '/' == 1) = [⟨"owner/repo"⟩] := by decide
  refine ⟨_, List.mem_singleton_self _, rfl, ?_⟩
  rw [repoLabel]
  simp only [hlabel, Option.isSome_some]

theorem sameSecond_trusted :
    sameSecond.TrustedBy "bot" ["alice@example.com"] :=
  ⟨_, rfl, by decide, by decide⟩

end Kitaebot.Channel.Linear
