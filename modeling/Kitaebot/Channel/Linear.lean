import Std.Data.ExtTreeMap
import Std.Data.ExtTreeSet
import Kitaebot.Channel.Tickets
import Kitaebot.Time

/-!
# The Linear channel

Issues assigned to the bot's Linear user, each with the comments it holds, in
one request per tick.  An issue names its repository by a label.  The service
keeps what was posted on an issue; its stamps may carry a fraction.

A turn keeps the ids of the comments its message was made from.  They are there
to state what a run dispatches; no operation reads them.
-/

namespace Kitaebot.Channel.Linear

open Kitaebot.Text
open Kitaebot.Time

/-! ### Types -/

structure Label where
  name : String
  deriving DecidableEq, Repr

structure CommentUser where
  id : String
  name : String
  email : String
  deriving DecidableEq, Repr

/-- Comments of integrations have no user. -/
structure Comment where
  id : String
  body : String
  createdAt : String
  user : Option CommentUser
  deriving DecidableEq, Repr

structure Issue where
  id : String
  identifier : String
  title : String
  description : Option String
  labels : List Label
  comments : List Comment
  deriving DecidableEq, Repr

structure PollState where
  lastPoll : String
  announcedIssues : Std.ExtTreeSet String
  planComments : Std.ExtTreeMap String String

inductive TurnKind where
  | execution
  | plan
  deriving DecidableEq, Repr

/-- One agent turn to run; its reply is posted as a comment. -/
structure Dispatch where
  issueId : String
  identifier : String
  repo : String
  message : String
  kind : TurnKind
  about : List String
  deriving DecidableEq, Repr

/-- The one label shaped like `owner/repo`. -/
def repoLabel (issue : Issue) : Option String :=
  match issue.labels.filter fun label => label.name.toList.count '/' == 1 with
  | [label] => some label.name
  | _ => none

def hasLabel (issue : Issue) (label : String) : Bool :=
  issue.labels.any fun candidate => eqIgnoreAsciiCase candidate.name label

def isTrusted (email : String) (trustedUsers : List String) : Bool :=
  trustedUsers.any fun user => eqIgnoreAsciiCase user email

/-! ### Formatting -/

def formatDescription (issue : Issue) : String :=
  match issue.description.filter (· != "") with
  | none => ""
  | some description => "\nDescription:\n" ++ description ++ "\n"

def commentAuthor (comment : Comment) : String :=
  match comment.user with
  | none => "unknown"
  | some user => user.name

def formatThread (comments : List Comment) : String :=
  if comments.isEmpty then ""
  else
    "\nExisting comments:\n" ++ String.join (comments.map fun comment =>
      "[" ++ commentAuthor comment ++ "] " ++ comment.body ++ "\n")

def formatNewIssue (issue : Issue) (repo : String) : String :=
  "Linear issue " ++ issue.identifier ++ " \"" ++ issue.title ++
      "\" was assigned to you (repo: " ++ repo ++ ").\n" ++
    formatDescription issue ++
    formatThread issue.comments ++
    "\n" ++ planInstructions ++
    " If this workflow has a plan-review state, move the ticket " ++
    "there with the linear_set_state tool (it lists the available " ++
    "states); otherwise leave the state as-is.\n"

def branchName (issue : Issue) : String :=
  "kitaebot_" ++ issue.identifier.toLower ++ "_<short-summary>"

/-- The announcement of an issue without the plan label. -/
def formatNewIssueExecute (issue : Issue) (repo : String) : String :=
  "Linear issue " ++ issue.identifier ++ " \"" ++ issue.title ++
      "\" was assigned to you for direct execution (no plan requested; repo: " ++
      repo ++ ").\n" ++
    formatDescription issue ++
    formatThread issue.comments ++
    "\nImplement it end-to-end: move the ticket to an in-progress " ++
    "state with the linear_set_state tool if the workflow has one, " ++
    "then create a branch named " ++ branchName issue ++
    " (the ticket id in the branch " ++
    "name links the PR to the issue), implement, test, commit, push, " ++
    "and open a PR. On success reply with one line at most; the PR " ++
    "links itself to the ticket. Be detailed only if something failed " ++
    "or needs a decision. If the ticket turns out underspecified or " ++
    "materially larger than it reads, stop before implementing and " ++
    "reply with your plan or questions instead — your reply is posted " ++
    "verbatim as a comment on the ticket.\n"

def formatComment (issue : Issue) (repo author email body : String)
    (planComment : Option String) : String :=
  "Comment on Linear issue " ++ issue.identifier ++ " \"" ++ issue.title ++
      "\" (repo: " ++ repo ++ ") by " ++ author ++ " <" ++ email ++ ">:\n" ++
    "\n" ++ body ++ "\n" ++
    (match planComment with
      | none => ""
      | some id =>
          match issue.comments.find? (·.id == id) with
          | some plan =>
              "\nYour current plan (comment " ++ id ++ "):\n\n" ++ plan.body ++ "\n"
          | none =>
              "\nYou posted a plan earlier (comment " ++ id ++
                "), but it is not among the comments fetched this tick.\n") ++
    "\nIf this approves your plan, execute it end-to-end: move the ticket " ++
    "to an in-progress state with the linear_set_state tool if the " ++
    "workflow has one, then create a branch named " ++ branchName issue ++
    " (the ticket " ++
    "id in the branch name links the PR to the issue), implement, test, " ++
    "commit, push, and open a PR. On success reply with one line at " ++
    "most; the PR links itself to the ticket. Be detailed only if " ++
    "something failed or needs a decision. If the comment is feedback " ++
    "instead, revise your plan and reply with the updated plan.\n"

/-! ### Event detection -/

section Decide

variable (state : PollState) (viewerId : String) (trustedUsers : List String)
  (planLabel : String)

/-- The label chooses between a plan and direct execution. -/
def announcement (issue : Issue) (repo : String) : Dispatch :=
  let planFirst := hasLabel issue planLabel
  { issueId := issue.id
    identifier := issue.identifier
    repo
    message :=
      if planFirst then formatNewIssue issue repo
      else formatNewIssueExecute issue repo
    kind := if planFirst then .plan else .execution
    about := issue.comments.map (·.id) }

/-- A comment past the cursor, of a trusted user other than the viewer. -/
def commentDispatch (issue : Issue) (repo : String) (comment : Comment) :
    Option Dispatch :=
  if comment.createdAt ≤ state.lastPoll then none
  else
    match comment.user with
    | none => none
    | some user =>
        if user.id = viewerId then none
        else if !isTrusted user.email trustedUsers then none
        else
          some
            { issueId := issue.id
              identifier := issue.identifier
              repo
              message := formatComment issue repo user.name user.email
                comment.body state.planComments[issue.identifier]?
              kind := .execution
              about := [comment.id] }

/-- Issues announced in this tick skip the comment pass; their comments are
embedded in the announcement. -/
def issueDispatches (issue : Issue) : List Dispatch :=
  match repoLabel issue with
  | none => []
  | some repo =>
      if state.announcedIssues.contains issue.identifier then
        issue.comments.filterMap
          (commentDispatch state viewerId trustedUsers issue repo)
      else [announcement planLabel issue repo]

def keysOf (issues : List Issue) : Std.ExtTreeSet String :=
  issues.foldl (fun keys issue => keys.insert issue.identifier) ∅

/-- Identifiers that the tick did not list are pruned, and plan ids with
them. -/
def decideEvents (issues : List Issue) (now : String) :
    List Dispatch × PollState :=
  let announced := keysOf (issues.filter fun issue => (repoLabel issue).isSome)
  (issues.flatMap (issueDispatches state viewerId trustedUsers planLabel),
    { lastPoll := now
      planComments := state.planComments.filter fun key _ => announced.contains key
      announcedIssues := announced })

end Decide

/-! ### The service -/

/-- A comment as the service keeps it, with the digits its stamp shows after
the seconds. -/
structure CommentPost where
  id : String
  body : String
  created : Moment
  fraction : List Char
  user : Option CommentUser
  deriving DecidableEq

def CommentPost.asComment (post : CommentPost) : Comment :=
  ⟨post.id, post.body, fractionalStamp post.created.epoch post.fraction,
    post.user⟩

structure IssueInfo where
  id : String
  identifier : String
  title : String
  description : Option String
  labels : List Label
  deriving DecidableEq

/-- Which issues are assigned to the viewer at a moment, and what was posted on
each; no two of them share an identifier, and no two comments an id. -/
structure Service where
  assigned : Moment → List IssueInfo
  comments : String → List CommentPost
  assigned_distinct : ∀ now, ((assigned now).map (·.identifier)).Nodup
  comments_distinct : ∀ identifier, ((comments identifier).map (·.id)).Nodup

namespace Service

variable (service : Service) (now : Moment)

def commentsAt (identifier : String) : List Comment :=
  ((service.comments identifier).filter (·.created ≤ now)).map (·.asComment)

def assignedIssues : List Issue :=
  (service.assigned now).map fun info =>
    { id := info.id
      identifier := info.identifier
      title := info.title
      description := info.description
      labels := info.labels
      comments := service.commentsAt now info.identifier }

end Service

/-! ### The tick -/

/-- A tick: whether its request succeeds, the moment the answer is from, the
clock reading after it, and the ids of the posted replies. -/
structure Tick where
  succeeds : Bool
  fetched : Moment
  clock : Moment
  posted : ℕ → Option String
  fetched_le : fetched ≤ clock

/-- The reply to a plan turn is the plan. -/
def recordPlans (tick : Tick) (plans : Std.ExtTreeMap String String) :
    List Dispatch → ℕ → Std.ExtTreeMap String String
  | [], _ => plans
  | d :: ds, n =>
      match if d.kind = .plan then tick.posted n else none with
      | none => recordPlans tick plans ds (n + 1)
      | some id => recordPlans tick (plans.insert d.identifier id) ds (n + 1)

def PollState.recordPlans (tick : Tick) (next : PollState)
    (dispatches : List Dispatch) : PollState :=
  { next with
    planComments := Linear.recordPlans tick next.planComments dispatches 0 }

/-- The turns of a tick and the state it saves. -/
def pollTick (service : Service) (tick : Tick) (state : PollState)
    (viewerId : String) (trustedUsers : List String) (planLabel : String) :
    List Dispatch × PollState :=
  if tick.succeeds then
    let (dispatches, next) := decideEvents state viewerId trustedUsers planLabel
      (service.assignedIssues tick.fetched) tick.clock.stamp
    (dispatches, next.recordPlans tick dispatches)
  else ([], state)

end Kitaebot.Channel.Linear
