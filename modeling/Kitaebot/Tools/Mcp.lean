import Mathlib.Algebra.Group.Nat.Defs
import Mathlib.Logic.Function.Basic
import Kitaebot.Core.Json
import Kitaebot.Core.Run

/-!
# The MCP client

JSON-RPC over the standard streams of a child.  A server has one live connection
at most; calls take turns on it.  A step is what one wait ends with: the pipe took
some bytes, a line came, the call timed out or was cancelled.  What the parser of
lines says is a parameter.
-/

namespace Kitaebot.Tools.Mcp

open Json

def protocolVersion : String := "2025-06-18"

def methodNotFound : Int64 := -32601

def packageVersion : String := "0.0.1"

inductive McpError where
  | transport (text : String)
  | rpc (code : ℤ) (message : String)
  | protocol (text : String)
  | call (text : String)

def McpError.display : McpError → String
  | transport text => "transport: " ++ text
  | rpc code message => "rpc error " ++ toString code ++ ": " ++ message
  | protocol text => "protocol: " ++ text
  | call text => "tool error: " ++ text

/-! ### Messages -/

def request (id : UInt64) (method : String) (params : Value) : Value :=
  .object [("id", .number (.unsigned id)), ("jsonrpc", .string "2.0"),
    ("method", .string method), ("params", params)]

def notification (method : String) (params : Value) : Value :=
  .object [("jsonrpc", .string "2.0"), ("method", .string method),
    ("params", params)]

/-- The answer to whatever the server asks. -/
def refusal (requestId : Value) : Value :=
  .object [
    ("error", .object [("code", .number (.signed methodNotFound)),
      ("message", .string "kitaebot serves no requests")]),
    ("id", requestId), ("jsonrpc", .string "2.0")]

def initializeParams : Value :=
  .object [("capabilities", .object []),
    ("clientInfo", .object [("name", .string "kitaebot"),
      ("version", .string packageVersion)]),
    ("protocolVersion", .string protocolVersion)]

def initialized : Value := notification "notifications/initialized" (.object [])

def callParams (tool : String) (args : Value) : Value :=
  .object [("arguments", args), ("name", .string tool)]

/-- What a message is to the request with this id. -/
inductive Reading where
  | refuse (requestId : Value)
  | skip
  | answer (result : Except McpError Value)

def rpcError (error : Value) : McpError :=
  .rpc (((error.get "code").bind Value.asI64).getD 0)
    (((error.get "message").bind Value.asStr).getD "unknown")

def classify (id : UInt64) (message : Value) : Reading :=
  if (message.get "method").isSome then
    -- A method without an id is a notification.
    match message.get "id" with
    | some requestId => .refuse requestId
    | none => .skip
  else
    match (message.get "id").bind Value.asU64 with
    | none => .answer (.error (.protocol "response lacks id"))
    | some got =>
        -- A stale response to an abandoned request is discarded.
        if got ≠ id then .skip
        else
          match message.get "error" with
          | some error => .answer (.error (rpcError error))
          | none =>
              match message.get "result" with
              | some result => .answer (.ok result)
              | none => .answer (.error (.protocol "response lacks result"))

def renderItem (item : Value) : String :=
  let kind := ((item.get "type").bind Value.asStr).getD "unknown"
  if kind = "text" then ((item.get "text").bind Value.asStr).getD ""
  else "[non-text content omitted: " ++ kind ++ "]"

def renderContent (result : Value) : String :=
  match (result.get "content").bind Value.asArray with
  | none => ""
  | some items => "\n".intercalate (items.map renderItem)

/-- What `tools/call` makes of a result. -/
def callResult (result : Value) : Except McpError String :=
  if (result.get "isError").bind Value.asBool = some true then
    .error (.call (renderContent result))
  else .ok (renderContent result)

/-! ### Connections -/

/-- One child: what was written to its stdin, what its stdout holds that was not
read yet, and whether that has ended. -/
structure Connection where
  written : Bytes
  inbox : Bytes
  closed : Bool
  nextId : UInt64

def Connection.new : Connection := ⟨[], [], false, 0⟩

/-- A line without its end. -/
def trimLine (bytes : Bytes) : Bytes :=
  if bytes.getLast? = some 13 then bytes.dropLast else bytes

/-- The next line, `none` while it is not complete. -/
def Connection.nextLine (conn : Connection) : Option (Option Bytes × Connection) :=
  match conn.inbox.span (· != newline) with
  | (bytes, _ :: rest) => some (some (trimLine bytes), { conn with inbox := rest })
  | (bytes, []) =>
      if !conn.closed then none
      else if bytes.isEmpty then some (none, conn)
      else some (some bytes, { conn with inbox := [] })

/-- Where a request stands: in the middle of a write, or waiting for a line. -/
inductive Stage where
  | sending (message : Value) (rest : Bytes)
  | awaiting
  | refusing (message : Value) (rest : Bytes)

/-- A request in flight. -/
structure Exchange where
  conn : ℕ
  id : UInt64
  stage : Stage

/-- What ends a wait on a connection. -/
inductive Input where
  /-- The pipe took that many bytes. -/
  | accept (count : ℕ)
  | writeFails (text : String)
  | read
  | readFails (text : String)

inductive Progress where
  | going (stage : Stage)
  | done (result : Except McpError Value)

/-- What a wait that has ended leaves: the connection, the messages read and how
the request goes on. -/
structure Advance where
  conn : Connection
  read : List Value
  progress : Progress

/-- The bytes of a write that the pipe took, and what is left of it. -/
def accepts (conn : Connection) (rest : Bytes) (count : ℕ) :
    Option (Connection × Bytes) :=
  if 0 < count ∧ count ≤ rest.length then
    some ({ conn with written := conn.written ++ rest.take count }, rest.drop count)
  else none

section Parser

variable (fromStr : String → Except String Value)

/-- A line that was read. -/
def readLine (id : UInt64) (raw : Option Bytes) : List Value × Progress :=
  match raw with
  | none => ([], .done (.error (.transport "stream closed")))
  | some bytes =>
      match String.fromUTF8? bytes.toByteArray with
      | none =>
          ([], .done (.error (.transport "stream did not contain valid UTF-8")))
      | some text =>
          match fromStr text with
          | .error error => ([], .done (.error (.protocol ("bad json: " ++ error))))
          | .ok message =>
              match classify id message with
              | .refuse requestId =>
                  let reply := refusal requestId
                  ([message], .going (.refusing reply (line reply)))
              | .skip => ([message], .going .awaiting)
              | .answer result => ([message], .done result)

/-- One wait of a request. -/
def Connection.advance (conn : Connection) (id : UInt64) :
    Stage → Input → Option Advance
  | .sending message rest, .accept count =>
      (accepts conn rest count).map fun next =>
        ⟨next.1, [], .going (if next.2 = [] then .awaiting
          else .sending message next.2)⟩
  | .refusing message rest, .accept count =>
      (accepts conn rest count).map fun next =>
        ⟨next.1, [], .going (if next.2 = [] then .awaiting
          else .refusing message next.2)⟩
  | .awaiting, .read =>
      conn.nextLine.map fun next =>
        let (read, progress) := readLine fromStr id next.1
        ⟨next.2, read, progress⟩
  | .awaiting, .readFails text =>
      some ⟨conn, [], .done (.error (.transport text))⟩
  | .sending _ _, .writeFails text =>
      some ⟨conn, [], .done (.error (.transport text))⟩
  | .refusing _ _, .writeFails text =>
      some ⟨conn, [], .done (.error (.transport text))⟩
  | _, _ => none

end Parser

/-! ### The server -/

/-- One minute, in nanoseconds. -/
def respawnBackoff : ℕ := 60 * 10 ^ 9

/-- A `tools/call` request that was sent for a call. -/
structure Attempt where
  conn : ℕ
  id : UInt64

/-- Where a call stands; `first` is the transport failure of its first attempt. -/
inductive Phase where
  /-- About to spawn the child, which takes no wait. -/
  | launching (first : Option String)
  | initializing (first : Option String) (exchange : Exchange)
  /-- In the write of the `initialized` notification. -/
  | announcing (first : Option String) (conn : ℕ) (rest : Bytes)
  | calling (exchange : Exchange)
  | retrying (exchange : Exchange)

/-- The call that has the turn. -/
structure Call where
  tool : String
  args : Value
  phase : Phase
  attempts : List Attempt

/-- A call that is over; one that was cancelled has no outcome. -/
structure Finished where
  tool : String
  args : Value
  attempts : List Attempt
  outcome : Option (Except McpError String)

/-- The server as the calls share it, and the history of what was read and of the
calls that are over. -/
structure State where
  conns : ℕ → Connection
  nextConn : ℕ
  live : Option ℕ
  deadUntil : Option ℕ
  active : Option Call
  received : List (ℕ × Value)
  finished : List Finished

namespace State

/-- A server right after its start, which sent some messages. -/
def started (startup : List Value) (nextId : UInt64) : State where
  conns conn := if conn = 0 then ⟨lines startup, [], false, nextId⟩ else .new
  nextConn := 1
  live := some 0
  deadUntil := none
  active := none
  received := []
  finished := []

variable (state : State) (call : Call)

/-- The call is over and the next one may have its turn. -/
def finish (outcome : Option (Except McpError String)) : State :=
  { state with
    active := none
    finished := state.finished ++
      [⟨call.tool, call.args, call.attempts, outcome⟩] }

def resume (phase : Phase) : State :=
  { state with active := some { call with phase } }

/-- A new request on a connection. -/
def send (conn : ℕ) (method : String) (params : Value)
    (phase : Exchange → Phase) : State :=
  let id := (state.conns conn).nextId + 1
  let message := request id method params
  { state with
    conns := Function.update state.conns conn
      { state.conns conn with nextId := id }
    active := some { call with
      phase := phase ⟨conn, id, .sending message (line message)⟩ } }

/-- `tools/call` on a connection. -/
def attempt (conn : ℕ) (phase : Exchange → Phase) : State :=
  state.send
    { call with attempts :=
        call.attempts ++ [⟨conn, (state.conns conn).nextId + 1⟩] }
    conn "tools/call" (callParams call.tool call.args) phase

/-- A new child, which is sent the handshake. -/
def launch (first : Option String) : State :=
  send { state with
      conns := Function.update state.conns state.nextConn .new
      nextConn := state.nextConn + 1 }
    call state.nextConn "initialize" initializeParams (.initializing first)

/-- The server is marked dead for a while. -/
def spawnFailed (now : ℕ) (first : Option String) (error : McpError) : State :=
  let state := { state with deadUntil := some (now + respawnBackoff) }
  match first with
  | none => state.finish call (some (.error error))
  | some first => state.finish call (some (.error (.transport
      (first ++ "; respawn failed: " ++ error.display))))

/-- A child that replaces a dead one becomes live at once, one that replaces a
failed one only after the retry. -/
def spawned (first : Option String) (conn : ℕ) : State :=
  match first with
  | none =>
      attempt { state with live := some conn, deadUntil := none } call conn .calling
  | some _ => state.attempt call conn .retrying

/-- The first attempt is over: a transport failure drops the child. -/
def called (result : Except McpError Value) : State :=
  match result with
  | .error (.transport first) =>
      resume { state with live := none } call (.launching (some first))
  | result => state.finish call (some (result.bind callResult))

/-- The second attempt is over: its child is kept. -/
def retried (conn : ℕ) (outcome : Except McpError String) : State :=
  finish { state with live := some conn } call (some outcome)

/-- A call has its turn. -/
def start (now : ℕ) (tool : String) (args : Value) : State :=
  let call : Call := ⟨tool, args, .launching none, []⟩
  match state.live with
  | some conn => state.attempt call conn .calling
  | none =>
      if state.deadUntil.any (now < ·) then
        state.finish call
          (some (.error (.transport "server down, respawn backoff active")))
      else { state with active := some call }

variable (fromStr : String → Except String Value)

/-- One wait of a request on its connection. -/
def exchanged (exchange : Exchange) (input : Input) : Option (State × Progress) :=
  ((state.conns exchange.conn).advance fromStr exchange.id exchange.stage
    input).map fun next =>
      ({ state with
          conns := Function.update state.conns exchange.conn next.conn
          received := state.received ++ next.read.map fun message =>
            (exchange.conn, message) }, next.progress)

/-- The write of the notification goes on. -/
def announced (first : Option String) (conn : ℕ) (rest : Bytes) (count : ℕ) :
    State :=
  match accepts (state.conns conn) rest count with
  | none => state
  | some (next, rest) =>
      let state := { state with conns := Function.update state.conns conn next }
      if rest = [] then state.spawned call first conn
      else state.resume call (.announcing first conn rest)

/-- What ends a wait of the call. -/
def advance (now : ℕ) (input : Input) : State :=
  match call.phase with
  | .launching _ => state
  | .initializing first exchange =>
      match state.exchanged fromStr exchange input with
      | none => state
      | some (state, .going stage) =>
          state.resume call (.initializing first { exchange with stage })
      | some (state, .done (.ok _)) =>
          state.resume call (.announcing first exchange.conn (line initialized))
      | some (state, .done (.error error)) => state.spawnFailed call now first error
  | .announcing first conn rest =>
      match input with
      | .accept count => state.announced call first conn rest count
      | .writeFails text => state.spawnFailed call now first (.transport text)
      | _ => state
  | .calling exchange =>
      match state.exchanged fromStr exchange input with
      | none => state
      | some (state, .going stage) =>
          state.resume call (.calling { exchange with stage })
      | some (state, .done result) => state.called call result
  | .retrying exchange =>
      match state.exchanged fromStr exchange input with
      | none => state
      | some (state, .going stage) =>
          state.resume call (.retrying { exchange with stage })
      | some (state, .done result) =>
          state.retried call exchange.conn (result.bind callResult)

/-- The time of the wait is up. -/
def elapse (now : ℕ) : State :=
  match call.phase with
  | .launching _ => state
  | .initializing first _ =>
      state.spawnFailed call now first (.transport "initialize timed out")
  | .announcing first _ _ =>
      state.spawnFailed call now first (.transport "initialize timed out")
  | .calling _ => state.finish call (some (.error (.transport "call timed out")))
  | .retrying exchange =>
      state.retried call exchange.conn (.error (.transport "call timed out"))

/-- The call is dropped at the wait it is in. -/
def cancel : State :=
  match call.phase with
  | .launching _ => state
  | _ => state.finish call none

end State

inductive Action where
  /-- The turn of a new call. -/
  | call (tool : String) (args : Value)
  /-- The spawn of the child, which may fail. -/
  | spawn (failure : Option String)
  | input (input : Input)
  | elapse
  | cancel
  /-- The child writes to its stdout. -/
  | deliver (conn : ℕ) (bytes : Bytes)
  | close (conn : ℕ)

structure Event where
  now : ℕ
  action : Action

/-- One event of a server that runs `command`. -/
def step (fromStr : String → Except String Value) (command : String)
    (state : State) (event : Event) : State :=
  match event.action, state.active with
  | .call tool args, none => state.start event.now tool args
  | .spawn failure, some call =>
      match call.phase with
      | .launching first =>
          match failure with
          | none => state.launch call first
          | some error => state.spawnFailed call event.now first
              (.transport ("spawn " ++ command ++ ": " ++ error))
      | _ => state
  | .input input, some call => state.advance call fromStr event.now input
  | .elapse, some call => state.elapse call event.now
  | .cancel, some call => state.cancel call
  | .deliver conn bytes, _ =>
      if (state.conns conn).closed then state
      else
        { state with
          conns := Function.update state.conns conn
            { state.conns conn with inbox := (state.conns conn).inbox ++ bytes } }
  | .close conn, _ =>
      { state with
        conns := Function.update state.conns conn
          { state.conns conn with closed := true } }
  | _, _ => state

/-! ### What the server and the callers see -/

/-- The connection a phase uses. -/
def Phase.use : Phase → Option (ℕ × Stage)
  | .launching _ => none
  | .initializing _ exchange => some (exchange.conn, exchange.stage)
  | .announcing _ conn rest => some (conn, .sending initialized rest)
  | .calling exchange => some (exchange.conn, exchange.stage)
  | .retrying exchange => some (exchange.conn, exchange.stage)

/-- Where the call in progress stands on a connection, if it uses it. -/
def State.stageOf (state : State) (conn : ℕ) : Option Stage :=
  match state.active.bind fun call => call.phase.use with
  | some (used, stage) => if used = conn then some stage else none
  | none => none

/-- A stream in use holds complete messages and what the message in progress has
got of its bytes so far; one that is not used may end in a message cut off. -/
def Intact (written : Bytes) : Option Stage → Prop
  | none => ∃ messages message part, written = lines messages ++ part ∧
      part <+: line message
  | some .awaiting => ∃ messages, written = lines messages
  | some (.sending message rest) => ∃ messages part,
      written = lines messages ++ part ∧ part ++ rest = line message
  | some (.refusing message rest) => ∃ messages part,
      written = lines messages ++ part ∧ part ++ rest = line message

/-- The message is the response with this id and carries the result. -/
def Answers (id : UInt64) (message result : Value) : Prop :=
  message.get "method" = none ∧ (message.get "id").bind Value.asU64 = some id ∧
    message.get "error" = none ∧ message.get "result" = some result

/-- The outcome is what the tool returned. -/
def IsResult : Except McpError String → Prop
  | .ok _ => True
  | .error (.call _) => True
  | .error _ => False

structure Sound (state : State) : Prop where
  /-- Every stream is made of complete messages. -/
  streams : ∀ conn, Intact (state.conns conn).written (state.stageOf conn)
  /-- A result is that of the response to the request of the call. -/
  own : ∀ finished ∈ state.finished, ∀ outcome,
    finished.outcome = some outcome → IsResult outcome →
      ∃ attempt ∈ finished.attempts, ∃ message result,
        (attempt.conn, message) ∈ state.received ∧
          Answers attempt.id message result ∧ outcome = callResult result
  /-- A call is sent twice at most. -/
  retries : (∀ finished ∈ state.finished, finished.attempts.length ≤ 2) ∧
    ∀ call ∈ state.active, call.attempts.length ≤ 2

end Kitaebot.Tools.Mcp
