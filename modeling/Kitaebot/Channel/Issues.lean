import Std.Data.ExtTreeSet
import Kitaebot.Channel.Prs
import Kitaebot.Channel.Tickets

/-!
# The GitHub issue channel

Assigned issues are announced once, and later comments of trusted users each
start an execution turn.  A second pass covers discussion on issues that are
not assigned.  As in the pull request channel, a tick numbers its waits.

A view keeps the moment its issue was last read, and a turn the comments its
message was made from.  Both are there to state what a run dispatches; no
operation reads them.
-/

namespace Kitaebot.Channel.Issues

open Kitaebot.Text
open Kitaebot.Time

/-! ### Types -/

structure PollState where
  lastPoll : String
  announcedIssues : Std.ExtTreeSet String
  planComments : Std.ExtTreeMap String ℕ
  discussionAnnounced : Std.ExtTreeSet String

/-- How an issue reached the poll. -/
inductive ViewMode where
  | discussion (closed : Bool)
  | work
  deriving DecidableEq, Repr

structure IssueView where
  issue : SearchIssue
  nwo : String
  comments : List IssueComment
  mode : ViewMode
  readAt : Moment

def IssueView.key (view : IssueView) : String :=
  trackingKey view.nwo view.issue.number

/-- An announced issue needs its comments only if it changed. -/
def wantsComments (issue : SearchIssue) (nwo : String) (state : PollState)
    (mode : ViewMode) : Bool :=
  let changed := decide (state.lastPoll < issue.updatedAt)
  match mode with
  | .discussion _ => changed
  | .work =>
      changed || !state.announcedIssues.contains (trackingKey nwo issue.number)

inductive TurnKind where
  | discussion
  | execution
  | plan
  deriving DecidableEq, Repr

/-- One agent turn to run; its reply is posted as a comment. -/
structure Dispatch where
  key : String
  nwo : String
  number : UInt32
  message : String
  kind : TurnKind
  about : List ℕ
  deriving DecidableEq, Repr

/-! ### Formatting -/

section Formatting

variable (trust : Trust) (botLogin : String)

/-- The bot's own comments are kept. -/
def trustedComments (comments : List IssueComment) : List IssueComment :=
  comments.filter fun comment =>
    comment.user.login == botLogin || trust.allows comment.user.login

def formatDescription (issue : SearchIssue) : String :=
  match issue.body.filter (· != "") with
  | none => ""
  | some body => "\nDescription:\n" ++ body ++ "\n"

def formatThread (heading : String) (comments : List IssueComment) : String :=
  if comments.isEmpty then ""
  else
    "\n" ++ heading ++ ":\n" ++ String.join (comments.map fun comment =>
      "[" ++ comment.user.login ++ "] " ++ comment.body ++ "\n")

def formatNewIssue (view : IssueView) : String :=
  "GitHub issue " ++ view.key ++ " \"" ++ view.issue.title ++
      "\" was assigned to you.\n" ++
    formatDescription view.issue ++
    formatThread "Existing comments"
      (trustedComments trust botLogin view.comments) ++
    "\n" ++ planInstructions ++ "\n"

def branchName (view : IssueView) : String :=
  "kitaebot_issue-" ++ toString view.issue.number.toNat ++ "_<short-summary>"

/-- The announcement of an issue without the plan label. -/
def formatNewIssueExecute (view : IssueView) : String :=
  "GitHub issue " ++ view.key ++ " \"" ++ view.issue.title ++
      "\" was assigned to you for direct execution (no plan requested).\n" ++
    formatDescription view.issue ++
    formatThread "Existing comments"
      (trustedComments trust botLogin view.comments) ++
    "\nImplement it end-to-end: create a branch named " ++ branchName view ++
    ", implement, test, commit, push, and open a PR whose description " ++
    "includes \"Closes #" ++ toString view.issue.number.toNat ++
    "\" so merging it closes this issue. " ++
    "On success reply with one line at most; the PR cross-references " ++
    "itself on the ticket. Be detailed only if something failed or " ++
    "needs a decision. If the ticket turns out underspecified or " ++
    "materially larger than it reads, stop before implementing and " ++
    "reply with your plan or questions instead — your reply is posted " ++
    "verbatim as a comment on the ticket.\n"

def formatComment (view : IssueView) (author body : String)
    (planComment : Option ℕ) : String :=
  "Comment on GitHub issue " ++ view.key ++ " \"" ++ view.issue.title ++
      "\" by @" ++ author ++ ":\n" ++
    "\n" ++ body ++ "\n" ++
    (match planComment.bind fun id => view.comments.find? (·.id == id) with
      | none => ""
      | some plan =>
          "\nYour current plan (comment id " ++ toString plan.id ++ "):\n\n" ++
            plan.body ++ "\n") ++
    "\nIf this approves your plan, execute it end-to-end: create a " ++
    "branch named " ++ branchName view ++
    ", implement, test, commit, push, and open a " ++
    "PR whose description includes \"Closes #" ++
    toString view.issue.number.toNat ++ "\" so merging it " ++
    "closes this issue. On success reply with one line at most; the PR " ++
    "cross-references itself on the ticket. Be detailed only if " ++
    "something failed or needs a decision.\n" ++
    match planComment with
    | some id =>
        "\nIf the comment is feedback on the plan instead, engage " ++
        "with it like a colleague — your reply is posted verbatim " ++
        "as a comment, and some prose discussing the request is " ++
        "welcome. Where the feedback improves the plan, revise the " ++
        "plan in place with github_comment_update (your plan is " ++
        "comment id " ++ toString id ++
        "; the edit history shows the reviewer what " ++
        "changed) and summarize the change in your reply. Where you " ++
        "disagree, push back with your reasoning and leave the plan " ++
        "unchanged on that point — do not adopt changes you believe " ++
        "are wrong just to comply.\n"
    | none =>
        "\nIf the comment is feedback instead, revise your plan and " ++
        "reply with the updated plan.\n"

def discussionInstructions (closed : Bool) : String :=
  if closed then
    "This issue is closed, so the comments are disposition on " ++
    "finished work — how a human resolved or judged it. Take note " ++
    "of anything that should change how you work, and reply " ++
    "briefly; your reply is posted verbatim as a comment. Do not " ++
    "reopen the issue or start any work."
  else
    "This is discussion, not an assignment. Reply as a peer: " ++
    "engage with the comments, answer questions, and where a " ++
    "comment changes your mind about the issue's direction, say so " ++
    "concretely — your reply is posted verbatim as a comment on " ++
    "the issue. Where you disagree, push back with your reasoning " ++
    "rather than complying. Do not create branches, commit, open " ++
    "PRs, or start implementing; assignment is the gate for work. " ++
    "If the discussion settles the direction, state it plainly so " ++
    "a later assignment starts from it."

def stateWord (closed : Bool) : String := if closed then "closed " else ""

/-- The first discussion turn on an issue. -/
def formatDiscussion (view : IssueView) (closed : Bool) : String :=
  "New discussion on " ++ stateWord closed ++ "GitHub issue " ++ view.key ++
      " \"" ++ view.issue.title ++ "\" (not assigned to you).\n" ++
    formatDescription view.issue ++
    formatThread "Comments" (trustedComments trust botLogin view.comments) ++
    "\n" ++ discussionInstructions closed ++ "\n"

/-- A follow-up comment on an issue under discussion. -/
def formatDiscussionComment (view : IssueView) (author body : String)
    (closed : Bool) : String :=
  "Comment on " ++ stateWord closed ++ "GitHub issue " ++ view.key ++ " \"" ++
      view.issue.title ++ "\" by @" ++ author ++
      " (discussion; not assigned to you):\n" ++
    "\n" ++ body ++ "\n" ++
    "\n" ++ discussionInstructions closed ++ "\n"

end Formatting

/-! ### Event detection -/

section Decide

variable (state : PollState) (botLogin : String) (trust : Trust)
  (planLabel : String)

/-- Comments past the cursor, of trusted users other than the bot. -/
def newTrustedComments (view : IssueView) : List IssueComment :=
  view.comments.filter fun comment =>
    decide (state.lastPoll < comment.createdAt) &&
      (comment.user.login != botLogin && trust.allows comment.user.login)

/-- The label chooses between a plan and direct execution. -/
def announcement (view : IssueView) : Dispatch :=
  let planFirst := view.issue.hasLabel planLabel
  { key := view.key
    nwo := view.nwo
    number := view.issue.number
    message :=
      if planFirst then formatNewIssue trust botLogin view
      else formatNewIssueExecute trust botLogin view
    kind := if planFirst then .plan else .execution
    about := (trustedComments trust botLogin view.comments).map (·.id) }

def commentDispatch (view : IssueView) (comment : IssueComment) : Dispatch where
  key := view.key
  nwo := view.nwo
  number := view.issue.number
  message := formatComment view comment.user.login comment.body
    state.planComments[view.key]?
  kind := .execution
  about := [comment.id]

/-- Issues announced in this tick skip the comment pass. -/
def workDispatches (view : IssueView) : List Dispatch :=
  if state.announcedIssues.contains view.key then
    (newTrustedComments state botLogin trust view).map
      (commentDispatch state view)
  else [announcement botLogin trust planLabel view]

def discussionDispatches (view : IssueView) (closed : Bool) : List Dispatch :=
  let newTrusted := newTrustedComments state botLogin trust view
  if newTrusted.isEmpty then []
  else if state.discussionAnnounced.contains view.key then
    newTrusted.map fun comment =>
      { key := view.key
        nwo := view.nwo
        number := view.issue.number
        message := formatDiscussionComment view comment.user.login comment.body
          closed
        kind := .discussion
        about := [comment.id] }
  else
    [{ key := view.key
       nwo := view.nwo
       number := view.issue.number
       message := formatDiscussion trust botLogin view closed
       kind := .discussion
       about := (trustedComments trust botLogin view.comments).map (·.id) }]

def isClosed (view : IssueView) : Bool :=
  view.mode == .discussion true

def keysOf (views : List IssueView) : Std.ExtTreeSet String :=
  views.foldl (fun keys view => keys.insert view.key) ∅

/-- Work views first; a discussion view of an issue under work is dropped.
Keys that the tick did not list are pruned, and plan ids with them. -/
def decideEvents (views : List IssueView) (now : String) :
    List Dispatch × PollState :=
  let work := views.filter (·.mode == .work)
  let announced := keysOf work
  let discussion := views.filter fun view =>
    view.mode != .work && !announced.contains view.key
  -- Membership persists while the issue stays in view.
  let discussed := discussion.filter fun view =>
    !(newTrustedComments state botLogin trust view).isEmpty ||
      state.discussionAnnounced.contains view.key
  (work.flatMap (workDispatches state botLogin trust planLabel) ++
    discussion.flatMap fun view =>
      discussionDispatches state botLogin trust view (isClosed view),
    { lastPoll := now
      planComments := state.planComments.filter fun key _ => announced.contains key
      announcedIssues := announced
      discussionAnnounced := keysOf discussed })

end Decide

/-! ### The tick -/

/-- A tick of this channel: `posted` holds the id of the comment that the reply
to the `n`-th turn was posted as, if posting worked. -/
structure Tick extends Channel.Tick where
  posted : ℕ → Option ℕ

def workQuery (login : String) : String := "is:issue is:open assignee:" ++ login

def searches (login cursor : String) : List (String × ViewMode) :=
  [(workQuery login, .work),
    ("is:issue is:open author:" ++ login ++ " -assignee:" ++ login ++
      " updated:>" ++ cursor, .discussion false),
    ("is:issue is:closed author:" ++ login ++ " updated:>" ++ cursor,
      .discussion true),
    ("is:issue is:open mentions:" ++ login ++ " -assignee:" ++ login ++
      " -author:" ++ login ++ " updated:>" ++ cursor, .discussion false)]

section Fetch

variable (forge : Forge) (repos : List String) (tick : Tick)
  (state : PollState)

/-- The comments of an issue that the search at `asked` listed, and when the
issue was read last. -/
def fetchComments (issue : SearchIssue) (nwo : String) (mode : ViewMode)
    (asked : Moment) (n : ℕ) : Option (List IssueComment × Moment) × ℕ :=
  if wantsComments issue nwo state mode then
    tick.ask n fun now => (forge.issueComments nwo issue.number now, now)
  else (some ([], asked), n)

/-- The hits of one search; an issue keeps its first view. -/
def viewHits (mode : ViewMode) (asked : Moment) :
    List SearchIssue → List String → ℕ →
      Option (List IssueView × List String) × ℕ
  | [], seen, n => (some ([], seen), n)
  | issue :: issues, seen, n =>
      match issue.nwo with
      | none => viewHits mode asked issues seen n
      | some nwo =>
          if !repos.contains nwo ||
              seen.contains (trackingKey nwo issue.number) then
            viewHits mode asked issues seen n
          else
            match fetchComments forge tick state issue nwo mode asked n with
            | (none, n) => (none, n)
            | (some (comments, readAt), n) =>
                match viewHits mode asked issues
                    (trackingKey nwo issue.number :: seen) n with
                | (none, n) => (none, n)
                | (some (views, seen), n) =>
                    (some (⟨issue, nwo, comments, mode, readAt⟩ :: views, seen), n)

/-- A failed request fails the fetch. -/
def fetchSearches : List (String × ViewMode) → List String → ℕ →
    Option (List IssueView) × ℕ
  | [], _, n => (some [], n)
  | (query, mode) :: searches, seen, n =>
      match tick.ask n (forge.search query) with
      | (none, n) => (none, n)
      | (some issues, next) =>
          match viewHits forge repos tick state mode (tick.clock n) issues seen
              next with
          | (none, n) => (none, n)
          | (some (views, seen), n) =>
              match fetchSearches searches seen n with
              | (none, n) => (none, n)
              | (some rest, n) => (some (views ++ rest), n)

def fetchViews (botLogin : String) : Option (List IssueView) × ℕ :=
  fetchSearches forge repos tick state (searches botLogin state.lastPoll) [] 0

/-- The reply to a plan turn is the plan. -/
def recordPlans (plans : Std.ExtTreeMap String ℕ) :
    List Dispatch → ℕ → Std.ExtTreeMap String ℕ
  | [], _ => plans
  | d :: ds, n =>
      match if d.kind = .plan then tick.posted n else none with
      | none => recordPlans plans ds (n + 1)
      | some id => recordPlans (plans.insert d.key id) ds (n + 1)

def PollState.recordPlans (next : PollState) (dispatches : List Dispatch) :
    PollState :=
  { next with
    planComments := Issues.recordPlans tick next.planComments dispatches 0 }

/-- The turns of a tick and the state it saves.  The cursor is the clock after
the fetch. -/
def pollTick (botLogin : String) (trust : Trust) (planLabel : String) :
    List Dispatch × PollState :=
  match fetchViews forge repos tick state botLogin with
  | (none, _) => ([], state)
  | (some views, n) =>
      let (dispatches, next) := decideEvents state botLogin trust planLabel
        views (tick.clock n).stamp
      (dispatches, next.recordPlans tick dispatches)

end Fetch

end Kitaebot.Channel.Issues
