import Kitaebot.Core.Text
import Kitaebot.Time

/-!
# The GitHub service

The wire types of the REST client, and the service that answers it.  A pull
request or an issue keeps what was posted on it; a fetch at some moment returns
everything that exists at that moment.  What a search returns, and the state
and commits of a pull request, are arbitrary functions of the moment.
-/

namespace Kitaebot.Channel

open Kitaebot.Text
open Kitaebot.Time

structure UserRef where
  login : String
  deriving DecidableEq, Repr

structure IssueLabel where
  name : String
  deriving DecidableEq, Repr

structure SearchIssue where
  number : UInt32
  title : String
  body : Option String
  user : UserRef
  repositoryUrl : String
  updatedAt : String
  labels : List IssueLabel
  deriving DecidableEq, Repr

namespace SearchIssue

def hasLabel (issue : SearchIssue) (label : String) : Bool :=
  issue.labels.any fun candidate => eqIgnoreAsciiCase candidate.name label

/-- `owner/repo`, from the repository URL. -/
def nwo (issue : SearchIssue) : Option String :=
  match rsplit '/' issue.repositoryUrl with
  | repo :: owner :: _ =>
      if owner == "" || repo == "" then none else some (owner ++ "/" ++ repo)
  | _ => none

end SearchIssue

structure PullRef where
  sha : String
  refName : String
  deriving DecidableEq, Repr

structure Pull where
  state : String
  title : String
  head : PullRef
  base : PullRef
  deriving DecidableEq, Repr

structure PrReview where
  id : ℕ
  user : UserRef
  body : Option String
  state : String
  submittedAt : Option String
  deriving DecidableEq, Repr

structure IssueComment where
  id : ℕ
  user : UserRef
  body : String
  createdAt : String
  deriving DecidableEq, Repr

structure DiffComment where
  id : ℕ
  pullRequestReviewId : Option ℕ
  path : String
  line : Option ℕ
  body : String
  user : UserRef
  createdAt : String
  deriving DecidableEq, Repr

structure CommitDetail where
  message : String
  deriving DecidableEq, Repr

structure PrCommit where
  sha : String
  commit : CommitDetail
  deriving DecidableEq, Repr

structure PrFile where
  filename : String
  additions : ℕ
  deletions : ℕ
  deriving DecidableEq, Repr

/-- A review as the service keeps it: pending until it is submitted. -/
structure ReviewPost where
  id : ℕ
  user : UserRef
  body : Option String
  state : String
  submitted : Option Moment
  deriving DecidableEq

structure CommentPost where
  id : ℕ
  user : UserRef
  body : String
  created : Moment
  deriving DecidableEq

/-- A diff comment as the service keeps it, dated when it was drafted. -/
structure DiffPost where
  id : ℕ
  reviewId : Option ℕ
  path : String
  line : Option ℕ
  body : String
  user : UserRef
  created : Moment
  deriving DecidableEq

/-- A pending review is shown to its author only, without a date. -/
def ReviewPost.seen (viewer : String) (now : Moment) (post : ReviewPost) :
    Option PrReview :=
  if post.submitted.any (· ≤ now) then
    some ⟨post.id, post.user, post.body, post.state,
      post.submitted.map Moment.stamp⟩
  else if post.user.login == viewer then
    some ⟨post.id, post.user, post.body, post.state, none⟩
  else none

def CommentPost.seen (now : Moment) (post : CommentPost) : Option IssueComment :=
  if post.created ≤ now then
    some ⟨post.id, post.user, post.body, post.created.stamp⟩
  else none

/-- The review a diff comment belongs to. -/
def DiffPost.parent (reviews : List ReviewPost) (post : DiffPost) :
    Option ReviewPost :=
  post.reviewId.bind fun id => reviews.find? (·.id == id)

/-- The review a diff comment belongs to is out, if it belongs to one. -/
def DiffPost.published (reviews : List ReviewPost) (now : Moment)
    (post : DiffPost) : Bool :=
  match post.parent reviews with
  | none => true
  | some review => review.submitted.any (· ≤ now)

def DiffPost.seen (reviews : List ReviewPost) (viewer : String) (now : Moment)
    (post : DiffPost) : Option DiffComment :=
  if post.created ≤ now ∧
      (post.published reviews now = true ∨ post.user.login = viewer) then
    some ⟨post.id, post.reviewId, post.path, post.line, post.body, post.user,
      post.created.stamp⟩
  else none

/-- No two posts of a kind share an id, and a diff comment is drafted no later
than its review is submitted. -/
structure Forge where
  search : String → Moment → List SearchIssue
  pull : String → UInt32 → Moment → Pull
  commits : String → UInt32 → Moment → List PrCommit
  files : String → UInt32 → Moment → List PrFile
  reviews : String → UInt32 → List ReviewPost
  comments : String → UInt32 → List CommentPost
  diffComments : String → UInt32 → List DiffPost
  reviews_distinct : ∀ nwo number, ((reviews nwo number).map (·.id)).Nodup
  comments_distinct : ∀ nwo number, ((comments nwo number).map (·.id)).Nodup
  diffComments_distinct : ∀ nwo number,
    ((diffComments nwo number).map (·.id)).Nodup
  drafted_first : ∀ nwo number, ∀ post ∈ diffComments nwo number,
    ∀ review ∈ reviews nwo number, post.reviewId = some review.id →
      ∀ submitted ∈ review.submitted, post.created ≤ submitted

namespace Forge

def pullReviews (forge : Forge) (viewer nwo : String) (number : UInt32)
    (now : Moment) : List PrReview :=
  (forge.reviews nwo number).filterMap (·.seen viewer now)

def issueComments (forge : Forge) (nwo : String) (number : UInt32)
    (now : Moment) : List IssueComment :=
  (forge.comments nwo number).filterMap (·.seen now)

def pullComments (forge : Forge) (viewer nwo : String) (number : UInt32)
    (now : Moment) : List DiffComment :=
  (forge.diffComments nwo number).filterMap
    (·.seen (forge.reviews nwo number) viewer now)

variable (forge : Forge) (viewer nwo : String) (number : UInt32)
  (now : Moment)

theorem seen_id {post : ReviewPost} {review : PrReview}
    (hseen : post.seen viewer now = some review) : review.id = post.id := by
  simp only [ReviewPost.seen] at hseen
  split at hseen
  · rw [← Option.some.inj hseen]
  · split at hseen
    · rw [← Option.some.inj hseen]
    · cases hseen

/-- Looking a review up in a fetch is looking it up in the service. -/
theorem find_pullReviews (id : ℕ) :
    (forge.pullReviews viewer nwo number now).find? (·.id == id) =
      ((forge.reviews nwo number).find? (·.id == id)).bind (·.seen viewer now) := by
  have hdistinct := forge.reviews_distinct nwo number
  rw [pullReviews]
  generalize forge.reviews nwo number = posts at hdistinct ⊢
  induction posts with
  | nil => rfl
  | cons post posts ih =>
      rw [List.map_cons, List.nodup_cons] at hdistinct
      have ih := ih hdistinct.2
      by_cases hid : post.id = id
      · have hrest : (posts.find? (·.id == id)) = none := by
          rw [List.find?_eq_none]
          intro other hmem hother
          refine hdistinct.1 (List.mem_map.2 ⟨other, hmem, ?_⟩)
          rw [hid]
          exact beq_iff_eq.1 hother
        rw [hrest] at ih
        cases hseen : post.seen viewer now with
        | none =>
            rw [List.filterMap_cons_none hseen, ih]
            simp [hid, hseen]
        | some review =>
            rw [List.filterMap_cons_some hseen]
            have hreview := seen_id viewer now hseen
            simp [hid, hseen, hreview]
      · cases hseen : post.seen viewer now with
        | none =>
            rw [List.filterMap_cons_none hseen, ih]
            simp [hid]
        | some review =>
            rw [List.filterMap_cons_some hseen]
            have hreview := seen_id viewer now hseen
            simp [hid, hreview, ih]

end Forge

end Kitaebot.Channel
