import Kitaebot.Channel.Prs

/-!
# Posts and turn messages

What the service shows of a post, when a snapshot finds it new, and that a
turn's message names the author and holds the body of every post it is about.
-/

namespace Kitaebot.Channel

open Kitaebot.Text
open Kitaebot.Time

/-- A post that everyone can see from some moment on. -/
structure Post where
  id : PostId
  login : String
  body : String
  actionable : Bool
  appears : Moment

def ReviewPost.asReview (post : ReviewPost) (submitted : Option Moment) :
    PrReview :=
  ⟨post.id, post.user, post.body, post.state, submitted.map Moment.stamp⟩

def ReviewPost.post? (post : ReviewPost) : Option Post :=
  post.submitted.map fun submitted =>
    ⟨.review post.id, post.user.login, post.body.getD "",
      reviewIsActionable (post.asReview post.submitted), submitted⟩

def CommentPost.post (post : CommentPost) : Post :=
  ⟨.comment post.id, post.user.login, post.body, true, post.created⟩

/-- A diff comment appears with its review, one without a review at once. -/
def DiffPost.post? (reviews : List ReviewPost) (post : DiffPost) : Option Post :=
  (match post.parent reviews with
    | none => some post.created
    | some review => review.submitted).map fun appears =>
      ⟨.diffComment post.id, post.user.login, post.body, true, appears⟩

/-- The posts on a pull request. -/
def Forge.posts (forge : Forge) (nwo : String) (number : UInt32) : List Post :=
  (forge.reviews nwo number).filterMap ReviewPost.post? ++
    ((forge.comments nwo number).map CommentPost.post ++
      (forge.diffComments nwo number).filterMap
        (DiffPost.post? (forge.reviews nwo number)))

/-- What the passes ask of a post before they look at the cursor. -/
structure Post.Wanted (botLogin : String) (trust : Trust) (post : Post) :
    Prop where
  notOwn : post.login ≠ botLogin
  trusted : trust.allows post.login = true
  actionable : post.actionable = true

/-! ### New posts of a snapshot -/

section Snapshots

variable {forge : Forge} {botLogin nwo lastPoll : String} {trust : Trust}
  {number : UInt32} {now later : Moment}

theorem isNew_iff {login posted : String} :
    isNew botLogin trust lastPoll login posted = true ↔
      login ≠ botLogin ∧ lastPoll < posted ∧ trust.allows login = true := by
  simp [isNew, and_assoc]

theorem ReviewPost.seen_of_submitted {post : ReviewPost} {submitted : Moment}
    (hsubmitted : post.submitted = some submitted) (hle : submitted ≤ now) :
    post.seen botLogin now = some (post.asReview post.submitted) := by
  simp [ReviewPost.seen, ReviewPost.asReview, hsubmitted, hle]

/-- Only a submitted review has a date. -/
theorem ReviewPost.submitted_of_seen {post : ReviewPost} {review : PrReview}
    {posted : String} (hseen : post.seen botLogin now = some review)
    (hposted : review.submittedAt = some posted) :
    ∃ submitted, post.submitted = some submitted ∧ submitted ≤ now ∧
      posted = submitted.stamp ∧ review = post.asReview post.submitted := by
  simp only [ReviewPost.seen] at hseen
  split at hseen
  case isTrue hany =>
    obtain ⟨submitted, hsubmitted, hle⟩ := (Option.any_eq_true _ _).1 hany
    obtain rfl := Option.some.inj hseen
    simp only [hsubmitted, Option.map_some, Option.some.injEq] at hposted
    exact ⟨submitted, hsubmitted, of_decide_eq_true hle, hposted.symm, rfl⟩
  case isFalse =>
    split at hseen
    · obtain rfl := Option.some.inj hseen
      cases hposted
    · cases hseen

theorem review_new {post : ReviewPost} {shown : Post}
    (hmem : post ∈ forge.reviews nwo number) (hpost : post.post? = some shown)
    (hwanted : shown.Wanted botLogin trust) (hseen : shown.appears ≤ now)
    (hcursor : lastPoll < shown.appears.stamp) :
    post.asReview post.submitted ∈
      (forge.pullReviews botLogin nwo number now).filter
        (reviewIsNew botLogin trust lastPoll) := by
  simp only [ReviewPost.post?, Option.map_eq_some_iff] at hpost
  obtain ⟨submitted, hsubmitted, rfl⟩ := hpost
  rw [List.mem_filter, Forge.pullReviews, List.mem_filterMap]
  refine ⟨⟨post, hmem, ReviewPost.seen_of_submitted hsubmitted hseen⟩, ?_⟩
  simp only [reviewIsNew, ReviewPost.asReview, hsubmitted, Option.map_some,
    Bool.and_eq_true, isNew_iff]
  refine ⟨⟨hwanted.notOwn, hcursor, hwanted.trusted⟩, ?_⟩
  have hactionable := hwanted.actionable
  rw [ReviewPost.asReview, hsubmitted] at hactionable
  exact hactionable

theorem comment_new {post : CommentPost} (hmem : post ∈ forge.comments nwo number)
    (hwanted : post.post.Wanted botLogin trust) (hseen : post.created ≤ now)
    (hcursor : lastPoll < post.created.stamp) :
    ⟨post.id, post.user, post.body, post.created.stamp⟩ ∈
      (forge.issueComments nwo number now).filter
        (commentIsNew botLogin trust lastPoll) := by
  rw [List.mem_filter, Forge.issueComments, List.mem_filterMap]
  refine ⟨⟨post, hmem, if_pos hseen⟩, ?_⟩
  exact isNew_iff.2 ⟨hwanted.notOwn, hcursor, hwanted.trusted⟩

/-- The date of a diff comment whose review is out is the review's, if the
snapshot's reviews were fetched after that. -/
theorem diffCommentAt_of_appears {post : DiffPost} {shown : Post}
    (hpost : post.post? (forge.reviews nwo number) = some shown)
    (hseen : shown.appears ≤ now) {dc : DiffComment}
    (hreview : dc.pullRequestReviewId = post.reviewId)
    (hcreated : dc.createdAt = post.created.stamp) :
    diffCommentAt dc (forge.pullReviews botLogin nwo number now) =
      some shown.appears.stamp := by
  rw [diffCommentAt, hreview, hcreated]
  simp only [DiffPost.post?, Option.map_eq_some_iff, DiffPost.parent] at hpost
  obtain ⟨appears, happears, rfl⟩ := hpost
  cases hid : post.reviewId with
  | none =>
      rw [hid] at happears
      rw [Option.bind_none, ← Option.some.inj happears]
  | some id =>
      rw [hid, Option.bind_some] at happears
      rw [Option.bind_some, Forge.find_pullReviews]
      cases hfind : (forge.reviews nwo number).find? (·.id == id) with
      | none =>
          rw [hfind] at happears
          rw [Option.bind_none, ← Option.some.inj happears]
      | some review =>
          rw [hfind] at happears
          rw [Option.bind_some, ReviewPost.seen_of_submitted happears hseen]
          simp [ReviewPost.asReview, happears]

/-- A diff comment is drafted no later than it appears. -/
theorem DiffPost.created_le {post : DiffPost} {shown : Post}
    (hmem : post ∈ forge.diffComments nwo number)
    (hpost : post.post? (forge.reviews nwo number) = some shown) :
    post.created ≤ shown.appears := by
  simp only [DiffPost.post?, Option.map_eq_some_iff] at hpost
  obtain ⟨appears, happears, rfl⟩ := hpost
  cases hparent : post.parent (forge.reviews nwo number) with
  | none =>
      rw [hparent] at happears
      exact (Option.some.inj happears).le
  | some review =>
      rw [hparent] at happears
      simp only [DiffPost.parent, Option.bind_eq_some_iff] at hparent
      obtain ⟨id, hid, hfind⟩ := hparent
      have hreview : review.id = id := by simpa using List.find?_some hfind
      exact forge.drafted_first nwo number post hmem review
        (List.mem_of_find?_eq_some hfind) (hreview ▸ hid) appears happears

theorem DiffPost.seen_of_appears {post : DiffPost} {shown : Post}
    (hmem : post ∈ forge.diffComments nwo number)
    (hpost : post.post? (forge.reviews nwo number) = some shown)
    (hseen : shown.appears ≤ now) :
    post.seen (forge.reviews nwo number) botLogin now =
      some ⟨post.id, post.reviewId, post.path, post.line, post.body, post.user,
        post.created.stamp⟩ := by
  have hpublished : post.published (forge.reviews nwo number) now = true := by
    simp only [DiffPost.post?, Option.map_eq_some_iff] at hpost
    obtain ⟨appears, happears, rfl⟩ := hpost
    rw [DiffPost.published]
    cases hparent : post.parent (forge.reviews nwo number) with
    | none => rfl
    | some review =>
        rw [hparent] at happears
        simpa [happears] using hseen
  rw [DiffPost.seen, if_pos ⟨(DiffPost.created_le hmem hpost).trans hseen,
    .inl hpublished⟩]

theorem diffComment_new {post : DiffPost} {shown : Post}
    (hmem : post ∈ forge.diffComments nwo number)
    (hpost : post.post? (forge.reviews nwo number) = some shown)
    (hwanted : shown.Wanted botLogin trust) (hreviews : shown.appears ≤ now)
    (hcomments : shown.appears ≤ later)
    (hcursor : lastPoll < shown.appears.stamp) :
    ⟨post.id, post.reviewId, post.path, post.line, post.body, post.user,
        post.created.stamp⟩ ∈
      (forge.pullComments botLogin nwo number later).filter
        (diffCommentIsNew botLogin trust lastPoll
          (forge.pullReviews botLogin nwo number now)) := by
  rw [List.mem_filter, Forge.pullComments, List.mem_filterMap]
  refine ⟨⟨post, hmem, DiffPost.seen_of_appears hmem hpost hcomments⟩, ?_⟩
  rw [diffCommentIsNew, diffCommentAt_of_appears hpost hreviews rfl rfl]
  have hlogin : shown.login = post.user.login := by
    simp only [DiffPost.post?, Option.map_eq_some_iff] at hpost
    obtain ⟨appears, -, rfl⟩ := hpost
    rfl
  exact isNew_iff.2 ⟨hlogin ▸ hwanted.notOwn, hcursor, hlogin ▸ hwanted.trusted⟩

theorem posted_of_review {review : PrReview}
    (hmem : review ∈ (forge.pullReviews botLogin nwo number now).filter
      (reviewIsNew botLogin trust lastPoll)) :
    ∃ post ∈ forge.posts nwo number, post.id = .review review.id ∧
      post.appears ≤ now ∧ lastPoll < post.appears.stamp := by
  rw [List.mem_filter, Forge.pullReviews, List.mem_filterMap] at hmem
  obtain ⟨⟨post, hpost, hseen⟩, hnew⟩ := hmem
  cases hposted : review.submittedAt with
  | none =>
      rw [reviewIsNew, hposted] at hnew
      cases hnew
  | some posted =>
      simp only [reviewIsNew, hposted, Bool.and_eq_true, isNew_iff] at hnew
      obtain ⟨submitted, hsubmitted, hle, rfl, rfl⟩ :=
        ReviewPost.submitted_of_seen hseen hposted
      refine ⟨⟨.review post.id, post.user.login, post.body.getD "",
        reviewIsActionable (post.asReview post.submitted), submitted⟩,
        List.mem_append_left _ (List.mem_filterMap.2 ⟨post, hpost, ?_⟩), rfl,
        hle, hnew.1.2.1⟩
      rw [ReviewPost.post?, hsubmitted]
      rfl

theorem wanted_of_comment {comment : IssueComment}
    (hmem : comment ∈ (forge.issueComments nwo number now).filter
      (commentIsNew botLogin trust lastPoll)) :
    ∃ post ∈ forge.posts nwo number, post.id = .comment comment.id ∧
      post.appears ≤ now ∧ lastPoll < post.appears.stamp ∧
        post.Wanted botLogin trust := by
  rw [List.mem_filter, Forge.issueComments, List.mem_filterMap] at hmem
  obtain ⟨⟨post, hpost, hseen⟩, hnew⟩ := hmem
  simp only [CommentPost.seen, Option.ite_none_right_eq_some,
    Option.some.injEq] at hseen
  obtain ⟨hle, rfl⟩ := hseen
  obtain ⟨hnotOwn, hcursor, htrusted⟩ := isNew_iff.1 hnew
  exact ⟨post.post, List.mem_append_right _ (List.mem_append_left _
    (List.mem_map_of_mem hpost)), rfl, hle, hcursor, hnotOwn, htrusted, rfl⟩

theorem posted_of_comment {comment : IssueComment}
    (hmem : comment ∈ (forge.issueComments nwo number now).filter
      (commentIsNew botLogin trust lastPoll)) :
    ∃ post ∈ forge.posts nwo number, post.id = .comment comment.id ∧
      post.appears ≤ now ∧ lastPoll < post.appears.stamp := by
  obtain ⟨post, hpost, hid, hle, hcursor, -⟩ := wanted_of_comment hmem
  exact ⟨post, hpost, hid, hle, hcursor⟩

/-- A diff comment shown to the bot as someone else's has appeared, and its
date is not after that. -/
theorem wanted_of_diffComment {dc : DiffComment}
    (hmem : dc ∈ (forge.pullComments botLogin nwo number later).filter
      (diffCommentIsNew botLogin trust lastPoll
        (forge.pullReviews botLogin nwo number now))) :
    ∃ post ∈ forge.posts nwo number, post.id = .diffComment dc.id ∧
      post.appears ≤ later ∧ lastPoll < post.appears.stamp ∧
        post.Wanted botLogin trust := by
  rw [List.mem_filter, Forge.pullComments, List.mem_filterMap] at hmem
  obtain ⟨⟨post, hpost, hseen⟩, hnew⟩ := hmem
  simp only [DiffPost.seen, Option.ite_none_right_eq_some,
    Option.some.injEq] at hseen
  obtain ⟨⟨hcreated, hshown⟩, rfl⟩ := hseen
  have hposted (appears : Moment)
      (happears : (match post.parent (forge.reviews nwo number) with
        | none => some post.created
        | some review => review.submitted) = some appears) :
      ⟨.diffComment post.id, post.user.login, post.body, true, appears⟩ ∈
        forge.posts nwo number := by
    refine List.mem_append_right _ (List.mem_append_right _
      (List.mem_filterMap.2 ⟨post, hpost, ?_⟩))
    rw [DiffPost.post?, happears]
    rfl
  have hallowed : post.user.login ≠ botLogin ∧
      trust.allows post.user.login = true := by
    simp only [diffCommentIsNew] at hnew
    split at hnew
    · cases hnew
    · obtain ⟨hnotOwn, -, htrusted⟩ := isNew_iff.1 hnew
      exact ⟨hnotOwn, htrusted⟩
  have hwanted (appears : Moment) : Post.Wanted botLogin trust
      ⟨.diffComment post.id, post.user.login, post.body, true, appears⟩ :=
    ⟨hallowed.1, hallowed.2, rfl⟩
  have hpublished : post.published (forge.reviews nwo number) later = true :=
    hshown.resolve_right hallowed.1
  simp only [diffCommentIsNew, diffCommentAt] at hnew
  cases hid : post.reviewId with
  | none =>
      simp only [hid, Option.bind_none] at hnew
      refine ⟨_, hposted post.created ?_, rfl, hcreated, (isNew_iff.1 hnew).2.1,
        hwanted _⟩
      rw [DiffPost.parent, hid]
      rfl
  | some id =>
      simp only [hid, Option.bind_some, Forge.find_pullReviews] at hnew
      have hparent : post.parent (forge.reviews nwo number) =
          (forge.reviews nwo number).find? (·.id == id) := by
        rw [DiffPost.parent, hid, Option.bind_some]
      rw [DiffPost.published, hparent] at hpublished
      rw [hparent] at hposted
      cases hfind : (forge.reviews nwo number).find? (·.id == id) with
      | none =>
          rw [hfind] at hnew hposted
          exact ⟨_, hposted post.created rfl, rfl, hcreated,
            (isNew_iff.1 hnew).2.1, hwanted _⟩
      | some review =>
          rw [hfind] at hnew hpublished hposted
          obtain ⟨submitted, hsubmitted, hout⟩ :=
            (Option.any_eq_true _ _).1 hpublished
          refine ⟨_, hposted submitted hsubmitted, rfl,
            of_decide_eq_true hout, ?_, hwanted _⟩
          have hreview : review.id = id := by simpa using List.find?_some hfind
          have hdrafted : post.created ≤ submitted :=
            forge.drafted_first nwo number post hpost review
              (List.mem_of_find?_eq_some hfind) (hreview ▸ hid) submitted
              hsubmitted
          rw [Option.bind_some] at hnew
          cases hseen : review.seen botLogin now with
          | none =>
              rw [hseen] at hnew
              exact ((isNew_iff.1 hnew).2.1).trans_le
                (Moment.stamp_le_iff.2 (Moment.epoch_mono hdrafted))
          | some shown =>
              simp only [hseen] at hnew
              cases hposted : shown.submittedAt with
              | none =>
                  rw [hposted] at hnew
                  cases hnew
              | some posted =>
                  obtain ⟨submitted', hsubmitted', -, rfl, -⟩ :=
                    ReviewPost.submitted_of_seen hseen hposted
                  rw [hsubmitted] at hsubmitted'
                  obtain rfl := Option.some.inj hsubmitted'
                  rw [hposted] at hnew
                  exact (isNew_iff.1 hnew).2.1

theorem posted_of_diffComment {dc : DiffComment}
    (hmem : dc ∈ (forge.pullComments botLogin nwo number later).filter
      (diffCommentIsNew botLogin trust lastPoll
        (forge.pullReviews botLogin nwo number now))) :
    ∃ post ∈ forge.posts nwo number, post.id = .diffComment dc.id ∧
      post.appears ≤ later ∧ lastPoll < post.appears.stamp := by
  obtain ⟨post, hpost, hid, hle, hcursor, -⟩ := wanted_of_diffComment hmem
  exact ⟨post, hpost, hid, hle, hcursor⟩

end Snapshots

/-! ### What a message holds -/

theorem formatReview_mentions (pr : SearchIssue) (nwo : String)
    (review : PrReview) :
    Mentions (formatReview pr nwo review) review.user.login
      (review.body.getD "") := by
  unfold formatReview
  constructor
  · exact ((((Includes.last _ review.user.login).append_right _).append_right
      _).append_right _).append_right _
  · refine Includes.append_left _ ?_
    cases hbody : review.body with
    | none => simp
    | some body =>
        by_cases hempty : body = ""
        · simp [hempty]
        · simp only [Option.filter_some, bne_iff_ne, ne_eq, hempty,
            not_false_eq_true, if_true, Option.getD_some]
          exact (Includes.last _ body).append_right _

theorem formatComment_mentions (pr : SearchIssue) (nwo : String)
    (comment : IssueComment) :
    Mentions (formatComment pr nwo comment) comment.user.login comment.body :=
  ⟨(((Includes.last _ comment.user.login).append_right _).append_right
      _).append_right _,
    (Includes.last _ comment.body).append_right _⟩

theorem formatDiffComment_mentions (pr : SearchIssue) (nwo : String)
    (dc : DiffComment) :
    Mentions (formatDiffComment pr nwo dc) dc.user.login dc.body :=
  ⟨(((((((Includes.last _ dc.user.login).append_right _).append_right
      _).append_right _).append_right _).append_right _).append_right
        _).append_right _,
    (Includes.last _ dc.body).append_right _⟩

theorem shortReview_mentions (review : PrReview) :
    Mentions (shortReview review) review.user.login (review.body.getD "") :=
  ⟨((((Includes.last _ review.user.login).append_right _).append_right
      _).append_right _).append_right _, Includes.last _ _⟩

theorem shortComment_mentions (comment : IssueComment) :
    Mentions (shortComment comment) comment.user.login comment.body :=
  ⟨((Includes.last _ comment.user.login).append_right _).append_right _,
    Includes.last _ _⟩

theorem shortDiffComment_mentions (dc : DiffComment) :
    Mentions (shortDiffComment dc) dc.user.login dc.body :=
  ⟨((((((Includes.last _ dc.user.login).append_right _).append_right
      _).append_right _).append_right _).append_right _).append_right _,
    Includes.last _ _⟩

/-- The texts of a snapshot's new posts mention those posts. -/
structure Renders (review : PrReview → String) (comment : IssueComment → String)
    (diffComment : DiffComment → String) : Prop where
  review_mentions : ∀ item, Mentions (review item) item.user.login
    (item.body.getD "")
  comment_mentions : ∀ item, Mentions (comment item) item.user.login item.body
  diffComment_mentions : ∀ item, Mentions (diffComment item) item.user.login
    item.body

theorem short_renders : Renders shortReview shortComment shortDiffComment :=
  ⟨shortReview_mentions, shortComment_mentions, shortDiffComment_mentions⟩

theorem format_renders (pr : SearchIssue) (nwo : String) :
    Renders (formatReview pr nwo) (formatComment pr nwo)
      (formatDiffComment pr nwo) :=
  ⟨formatReview_mentions pr nwo, formatComment_mentions pr nwo,
    formatDiffComment_mentions pr nwo⟩

/-- The new posts hold this one: its id is listed, and any text made from them
mentions it. -/
structure NewPosts.Holds (posts : NewPosts) (post : Post) : Prop where
  id_mem : post.id ∈ posts.ids
  mentioned : ∀ review comment diffComment,
    Renders review comment diffComment →
      ∃ text ∈ posts.render review comment diffComment,
        Mentions text post.login post.body

theorem NewPosts.holds_review {posts : NewPosts} {post : ReviewPost}
    {shown : Post} (hpost : post.post? = some shown)
    (hmem : post.asReview post.submitted ∈ posts.reviews) :
    posts.Holds shown := by
  simp only [ReviewPost.post?, Option.map_eq_some_iff] at hpost
  obtain ⟨submitted, hsubmitted, rfl⟩ := hpost
  refine ⟨List.mem_append_left _ (List.mem_map.2 ⟨_, hmem, rfl⟩), ?_⟩
  intro review comment diffComment hrenders
  exact ⟨_, List.mem_append_left _ (List.mem_map_of_mem hmem),
    hrenders.review_mentions _⟩

theorem NewPosts.holds_comment {posts : NewPosts} {post : CommentPost}
    (hmem : ⟨post.id, post.user, post.body, post.created.stamp⟩ ∈
      posts.comments) : posts.Holds post.post := by
  refine ⟨List.mem_append_right _ (List.mem_append_left _
    (List.mem_map.2 ⟨_, hmem, rfl⟩)), ?_⟩
  intro review comment diffComment hrenders
  exact ⟨_, List.mem_append_right _ (List.mem_append_left _
    (List.mem_map_of_mem hmem)), hrenders.comment_mentions _⟩

theorem NewPosts.holds_diffComment {posts : NewPosts} {post : DiffPost}
    {reviews : List ReviewPost} {shown : Post}
    (hpost : post.post? reviews = some shown)
    (hmem : ⟨post.id, post.reviewId, post.path, post.line, post.body, post.user,
      post.created.stamp⟩ ∈ posts.diffComments) : posts.Holds shown := by
  simp only [DiffPost.post?, Option.map_eq_some_iff] at hpost
  obtain ⟨appears, -, rfl⟩ := hpost
  refine ⟨List.mem_append_right _ (List.mem_append_right _
    (List.mem_map.2 ⟨_, hmem, rfl⟩)), ?_⟩
  intro review comment diffComment hrenders
  exact ⟨_, List.mem_append_right _ (List.mem_append_right _
    (List.mem_map_of_mem hmem)), hrenders.diffComment_mentions _⟩

section Fetched

variable {forge : Forge} {botLogin nwo lastPoll : String} {trust : Trust}
  {number : UInt32} {now later : Moment} {post : Post}

/-- A snapshot taken after a post appeared holds it, if the cursor is before
it. -/
theorem FeedbackSnapshot.holds {s : FeedbackSnapshot}
    (hpost : post ∈ forge.posts nwo number)
    (hwanted : post.Wanted botLogin trust)
    (hcursor : lastPoll < post.appears.stamp) {atReviews atComments atDiffs : Moment}
    (hreviews : s.feedback.reviews =
      forge.pullReviews botLogin nwo number atReviews)
    (hcomments : s.feedback.comments = forge.issueComments nwo number atComments)
    (hdiffs : s.diffComments = forge.pullComments botLogin nwo number atDiffs)
    (hseen : post.appears ≤ atReviews) (hseen' : post.appears ≤ atComments)
    (hseen'' : post.appears ≤ atDiffs) :
    (s.newPosts botLogin trust lastPoll).Holds post := by
  simp only [Forge.posts, List.mem_append, List.mem_filterMap,
    List.mem_map] at hpost
  rcases hpost with ⟨review, hmem, hpost⟩ | ⟨comment, hmem, rfl⟩ |
    ⟨dc, hmem, hpost⟩
  · apply NewPosts.holds_review hpost
    rw [FeedbackSnapshot.newPosts, hreviews]
    exact review_new hmem hpost hwanted hseen hcursor
  · apply NewPosts.holds_comment
    rw [FeedbackSnapshot.newPosts, hcomments]
    exact comment_new hmem hwanted hseen' hcursor
  · apply NewPosts.holds_diffComment hpost
    simp only [FeedbackSnapshot.newPosts]
    rw [hdiffs, hreviews]
    exact diffComment_new hmem hpost hwanted hseen hseen'' hcursor

/-- So does a snapshot of a tracked pull request, but for reviews. -/
theorem TrackedSnapshot.holds {s : TrackedSnapshot}
    (hpost : post ∈ forge.posts nwo number)
    (hkind : ∀ id, post.id ≠ .review id)
    (hwanted : post.Wanted botLogin trust)
    (hcursor : lastPoll < post.appears.stamp) {atReviews atComments atDiffs : Moment}
    (hreviews : s.view.reviews = forge.pullReviews botLogin nwo number atReviews)
    (hcomments : s.view.comments = forge.issueComments nwo number atComments)
    (hdiffs : s.diffComments = forge.pullComments botLogin nwo number atDiffs)
    (hseen : post.appears ≤ atReviews) (hseen' : post.appears ≤ atComments)
    (hseen'' : post.appears ≤ atDiffs) :
    (s.newPosts botLogin trust lastPoll).Holds post := by
  simp only [Forge.posts, List.mem_append, List.mem_filterMap,
    List.mem_map] at hpost
  rcases hpost with ⟨review, hmem, hpost⟩ | ⟨comment, hmem, rfl⟩ |
    ⟨dc, hmem, hpost⟩
  · simp only [ReviewPost.post?, Option.map_eq_some_iff] at hpost
    obtain ⟨submitted, -, rfl⟩ := hpost
    exact absurd rfl (hkind review.id)
  · apply NewPosts.holds_comment
    rw [TrackedSnapshot.newPosts, hcomments]
    exact comment_new hmem hwanted hseen' hcursor
  · apply NewPosts.holds_diffComment hpost
    simp only [TrackedSnapshot.newPosts]
    rw [hdiffs, hreviews]
    exact diffComment_new hmem hpost hwanted hseen hseen'' hcursor

end Fetched

/-! ### The dispatches -/

section Dispatches

variable {botLogin lastPoll : String} {trust : Trust} {post : Post}

theorem NewPosts.Holds.render_ne_nil {posts : NewPosts} (hholds : posts.Holds post)
    {review : PrReview → String} {comment : IssueComment → String}
    {diffComment : DiffComment → String}
    (hrenders : Renders review comment diffComment) :
    (posts.render review comment diffComment).isEmpty = false := by
  obtain ⟨text, hmem, -⟩ := hholds.mentioned review comment diffComment hrenders
  rw [List.isEmpty_eq_false_iff]
  exact List.ne_nil_of_mem hmem

theorem formatFeedbackTurn_includes (s : FeedbackSnapshot) {items : List String}
    {text : String} (hmem : text ∈ items) :
    Includes (formatFeedbackTurn s items) text :=
  ((((includes_intercalate "\n\n" hmem).append_left _).append_right
    _).append_right _).append_right _

theorem formatContributedTurn_includes (pr : SearchIssue) (nwo : String)
    {items : List String} {text : String} (hmem : text ∈ items) :
    Includes (formatContributedTurn pr nwo items) text :=
  ((((((((includes_intercalate "\n\n" hmem).append_left _).append_right
    _).append_right _).append_right _).append_right _).append_right
      _).append_right _).append_right _

theorem formatTrackedTurn_includes (s : TrackedSnapshot)
    (prevSha : Option String) {comments : List String} (checkout : String)
    (quietEligible : Bool) {text : String} (hmem : text ∈ comments) :
    Includes (formatTrackedTurn s prevSha comments checkout quietEligible)
      text := by
  have hne : comments.isEmpty = false :=
    List.isEmpty_eq_false_iff.2 (List.ne_nil_of_mem hmem)
  unfold formatTrackedTurn
  rw [hne, if_neg Bool.false_ne_true]
  exact ((((includes_intercalate "\n\n" hmem).append_left _).append_right
    _).append_left _).append_right _ |>.append_right _

/-- A feedback or contributor turn about the post. -/
def FeedbackDispatch.Carries (d : FeedbackDispatch) (post : Post) : Prop :=
  post.id ∈ d.about ∧ Mentions d.message post.login post.body

def ReviewDispatch.Carries (d : ReviewDispatch) (post : Post) : Prop :=
  post.id ∈ d.about ∧ Mentions d.message post.login post.body

theorem feedbackDispatch_carries {s : FeedbackSnapshot}
    (hholds : (s.newPosts botLogin trust lastPoll).Holds post) :
    ∃ d, feedbackDispatch botLogin trust lastPoll s = some d ∧
      d.repo = s.nwo ∧ d.prNumber = s.pr.number ∧ d.Carries post := by
  have hrenders := format_renders s.pr s.nwo
  obtain ⟨text, hmem, hmentions⟩ := hholds.mentioned _ _ _ hrenders
  have hne : (feedbackItems botLogin trust lastPoll s).isEmpty = false :=
    hholds.render_ne_nil hrenders
  simp only [feedbackDispatch, hne, Bool.false_eq_true, if_false]
  exact ⟨_, rfl, rfl, rfl, hholds.id_mem,
    hmentions.of_includes (formatFeedbackTurn_includes s hmem)⟩

theorem contributedDispatch_carries {s : ContributedSnapshot}
    (hholds : (s.newPosts botLogin trust lastPoll).Holds post) :
    ∃ d, contributedDispatch botLogin trust lastPoll s = some d ∧
      d.repo = s.nwo ∧ d.prNumber = s.pr.number ∧ d.Carries post := by
  obtain ⟨text, hmem, hmentions⟩ := hholds.mentioned _ _ _ short_renders
  have hne : (contributedItems botLogin trust lastPoll s).isEmpty = false :=
    hholds.render_ne_nil short_renders
  simp only [contributedDispatch, hne, Bool.false_eq_true, if_false]
  exact ⟨_, rfl, rfl, rfl, hholds.id_mem,
    hmentions.of_includes (formatContributedTurn_includes s.pr s.nwo hmem)⟩

theorem trackedDispatch_carries {s : TrackedSnapshot} {reviewed : Reviewed}
    (hholds : (s.newPosts botLogin trust lastPoll).Holds post)
    (hopen : s.view.state = "open") (hkey : s.key ∈ reviewed)
    (hpath : (checkoutRelPath s.nwo).isSome = true) :
    ∃ d, trackedDispatch botLogin trust lastPoll reviewed s = some d ∧
      d.repo = s.nwo ∧ d.prNumber = s.prNumber ∧ d.Carries post := by
  obtain ⟨text, hmem, hmentions⟩ := hholds.mentioned _ _ _ short_renders
  have hne : (trackedComments botLogin trust lastPoll s).isEmpty = false :=
    hholds.render_ne_nil short_renders
  obtain ⟨checkout, hcheckout⟩ := Option.isSome_iff_exists.1 hpath
  have hopen' : (s.view.state != "open") = false := by simp [hopen]
  rw [trackedDispatch, hopen', if_neg Bool.false_ne_true,
    Std.ExtTreeMap.getElem?_eq_some_getElem hkey, hcheckout]
  simp only [hne, Bool.and_false, Bool.false_eq_true, if_false, Option.map_some]
  exact ⟨_, rfl, rfl, rfl, hholds.id_mem,
    hmentions.of_includes (formatTrackedTurn_includes s _ checkout _ hmem)⟩

end Dispatches

end Kitaebot.Channel
