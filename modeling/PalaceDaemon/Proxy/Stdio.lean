/-
The stdio proxy between an MCP client and the daemon.

`_stdio_loop` reads JSON-RPC requests line by line, hands each to `handle` and prints the
response of those that have an id.  `handle` has three modes: `cli-only` answers everything
itself, `search-only` forwards one tool and answers the rest, and `all` forwards everything.

A line comes with what it meets: how it parses, how the daemon behaves when the request is
forwarded, the configuration of the wake command and how that command ends.  An exception that
nothing catches ends the loop.
-/
import PalaceDaemon.Lib.Json
import PalaceDaemon.Wings

namespace PalaceDaemon.Proxy

open PalaceDaemon.Wings

/-! ### What a line meets -/

/-- `mcp_mode` -/
inductive McpMode
  | all
  | cliOnly
  | searchOnly
deriving DecidableEq, Repr

/-- How `forward` ends. -/
inductive Forwarded
  /-- The daemon answers with JSON. -/
  | answer (response : Json)
  | httpError (code : ℕ) (reason : Text)
  /-- Any other `URLError`, with its text. -/
  | urlError (message : Text)
  /-- Any other exception, with its text: a timeout while reading, a body that is not JSON. -/
  | raised (message : Text)

/-- How the daemon and the wake command behave for one request. -/
structure Behaviour where
  /-- The first call of `forward`. -/
  first : Forwarded
  /-- The configuration file, when it can be read and parsed. -/
  config : Option Json
  /-- The wake command can be split and ends in time. -/
  wakes : Bool
  /-- The second call of `forward`. -/
  retry : Forwarded

/-- What `_stdio_loop` makes of a line. -/
inductive Parsed
  /-- Nothing is left when it is stripped. -/
  | blank
  /-- `JSONDecodeError` -/
  | decodeError
  /-- Any other exception, while the line is read or parsed. -/
  | raised
  | value (request : Json)

/-- A line of the input. -/
structure Line where
  parsed : Parsed
  behaviour : Behaviour

/-! ### Responses -/

/-- A text as a JSON value. -/
def jsonText (s : String) : Json := .str s.toList

/-- A field of an object. -/
def field (key : String) (value : Json) : Text × Json := (key.toList, value)

/-- A response with the id and a result. -/
def resultOf (rid result : Json) : Json :=
  .obj [field "jsonrpc" (jsonText "2.0"), field "id" rid, field "result" result]

/-- A response with the id and an error. -/
def errorOf (rid : Json) (code : ℤ) (message : Text) : Json :=
  .obj [field "jsonrpc" (jsonText "2.0"), field "id" rid,
    field "error" (.obj [field "code" (.int code), field "message" (.str message)])]

/-- The result of a tool that is a text. -/
def toolText (message : String) : Json :=
  .obj [field "content" (.arr [.obj [field "type" (jsonText "text"),
    field "text" (jsonText message)]]), field "isError" (.bool false)]

/-- `CLI_ONLY_REJECT_MESSAGE` -/
def cliOnlyRejectMessage : Text :=
  ("MCP tools are disabled (mcp_mode=cli-only). Use the mempalace CLI, " ++
    "or set mcp_mode=all and reconnect.").toList

/-- `SEARCH_ONLY_REJECT_MESSAGE` -/
def searchOnlyRejectMessage : Text :=
  ("Only mempalace_search is available in search-only mode. " ++
    "Use the mempalace CLI for other operations.").toList

/-- `SEARCH_ONLY_TOOLS` -/
def searchOnlyTools : Json :=
  .arr [.obj [
    field "name" (jsonText "mempalace_search"),
    field "description" (jsonText ("Search your memory palace. Returns verbatim drawer content " ++
      "with similarity scores. Use short keyword queries (not full " ++
      "sentences). 410K+ drawers across 100+ wings.")),
    field "inputSchema" (.obj [
      field "type" (jsonText "object"),
      field "properties" (.obj [
        field "query" (.obj [
          field "type" (jsonText "string"),
          field "description"
            (jsonText "Short search query — keywords or a question. Max 250 chars."),
          field "maxLength" (.int 250)]),
        field "limit" (.obj [
          field "type" (jsonText "integer"),
          field "description" (jsonText "Max results (default 5, max 20)"),
          field "minimum" (.int 1),
          field "maximum" (.int 20),
          field "default" (.int 5)]),
        field "wing" (.obj [
          field "type" (jsonText "string"),
          field "description"
            (jsonText "Filter by wing (optional). Use for project-scoped searches.")])]),
      field "required" (.arr [jsonText "query"])])]]

/-! ### The handler -/

/-- `value.get(key)`; only a dictionary has the method. -/
def getNone (value : Json) (key : String) : Option Json := value.getD key.toList .null

/-- `value == text` -/
def isText (value : Json) (text : String) : Bool :=
  match value with
  | .str s => s == text.toList
  | _ => false

/-- `Daemon rejected request (HTTP ...)` -/
def rejectedText (code : ℕ) (reason : Text) : Text :=
  "Daemon rejected request (HTTP ".toList ++ (Nat.repr code).toList ++ ' ' :: reason ++ [')']

/-- `_load_auto_wake_command`; `none` is an exception. -/
def loadAutoWakeCommand (config : Option Json) : Option Text :=
  match config with
  | none => some []
  | some cfg =>
      match getNone cfg "auto_wake" with
      | none => none
      | some (.obj fields) =>
          match getNone (.obj fields) "command" with
          | some (.str command) => some command
          | _ => some []
      | some _ => some []

/-- `_forward_with_autowake`; `none` is an exception. -/
def forwardWithAutowake (b : Behaviour) (rid : Json) : Option Json :=
  match b.first with
  | .answer response => some response
  | .httpError code reason => some (errorOf rid (-32000) (rejectedText code reason))
  | .urlError _ =>
      match loadAutoWakeCommand b.config with
      | none => none
      | some [] => some (resultOf rid (toolText ("Palace host is unreachable. " ++
          "Use `mempalace search` CLI, or configure auto_wake in ~/.mempalace/config.json.")))
      | some _ =>
          let waking := resultOf rid (toolText ("Palace host is waking up (WoL sent). " ++
            "Try again in ~20 seconds, or use `mempalace search` CLI."))
          if b.wakes then
            match b.retry with
            | .answer response => some response
            | .httpError code reason => some (errorOf rid (-32000) (rejectedText code reason))
            | _ => some waking
          else some waking
  | .raised _ => none

/-- `_local_handshake_response`: `none` is an exception, and `some none` a method that is not one
of the handshake. -/
def localHandshakeResponse (request method rid : Json) (modeLabel : String) :
    Option (Option Json) :=
  if isText method "initialize" then
    match (((getNone request "params").getD .null).orEmpty).getD "protocolVersion".toList .null with
    | none => none
    | some protocol =>
        let protocol := match protocol with
          | .str s => .str s
          | _ => jsonText "2025-11-25"
        some (some (resultOf rid (.obj [field "protocolVersion" protocol,
          field "capabilities" (.obj [field "tools" (.obj [])]),
          field "serverInfo" (.obj [field "name" (jsonText "mempalace"),
            field "version" (jsonText modeLabel)])])))
  else if isText method "ping" then some (some (resultOf rid (.obj [])))
  else if isText method "resources/list" then
    some (some (resultOf rid (.obj [field "resources" (.arr [])])))
  else if isText method "prompts/list" then
    some (some (resultOf rid (.obj [field "prompts" (.arr [])])))
  else some none

/-- `str(value)` in a message: the text of a text, and what `pyStr` says of anything else. -/
def strOf (pyStr : Json → Text) : Json → Text
  | .str s => s
  | value => pyStr value

/-- The answers of the two modes that serve the handshake themselves. -/
def handleLocally (pyStr : Json → Text) (modeLabel : String) (request : Json)
    (tools : Json) (call : Json → Option Json) : Option Json :=
  let method := (getNone request "method").getD .null
  let rid := (getNone request "id").getD .null
  match localHandshakeResponse request method rid modeLabel with
  | none => none
  | some (some handshake) => some handshake
  | some none =>
      if isText method "tools/list" then some (resultOf rid (.obj [field "tools" tools]))
      else if isText method "tools/call" then call rid
      else some (errorOf rid (-32601)
        (s!"Method not available in {modeLabel} mode: ".toList ++ strOf pyStr method))

/-- `tools/call` in the mode `search-only`. -/
def searchOnlyCall (b : Behaviour) (request rid : Json) : Option Json :=
  match getNone ((getNone request "params").getD .null).orEmpty "name" with
  | none => none
  | some name =>
      if isText name "mempalace_search" then forwardWithAutowake b rid
      else some (errorOf rid (-32601) searchOnlyRejectMessage)

/-- `handle` in the mode `all`. -/
def handleAll (b : Behaviour) (rid : Json) : Json :=
  match b.first with
  | .answer response => response
  | .httpError code reason => errorOf rid (-32000) (rejectedText code reason)
  | .urlError message => errorOf rid (-32000) ("Daemon unreachable: ".toList ++ message)
  | .raised message => errorOf rid (-32000) message

/-- The response is not there: a handler returned `None`. -/
def noResponse : Json := .null

/-- `handle`, for a request that is an object; `none` is an exception. -/
def handle (pyStr : Json → Text) (mode : McpMode) (b : Behaviour) (request : Json) :
    Option Json :=
  let rid := (getNone request "id").getD .null
  match mode, rid with
  | .all, rid => some (handleAll b rid)
  -- notifications carry no id and expect no response
  | _, .null => some noResponse
  | .cliOnly, _ => handleLocally pyStr "cli-only" request (.arr []) fun rid =>
      some (errorOf rid (-32601) cliOnlyRejectMessage)
  | .searchOnly, _ =>
      handleLocally pyStr "search-only" request searchOnlyTools (searchOnlyCall b request)

/-! ### The loop -/

/-- A response, unless it is `None`. -/
def present : Json → Option Json
  | .null => none
  | response => some response

/-- One line: `none` is an exception, and `some` what is printed. -/
def printed (pyStr : Json → Text) (mode : McpMode) (line : Line) : Option (Option Json) :=
  match line.parsed with
  | .blank => some none
  | .decodeError => some none
  | .raised => none
  | .value (.obj fields) =>
      match handle pyStr mode line.behaviour (.obj fields) with
      | none => none
      | some response =>
          match getNone (.obj fields) "id" with
          | some .null => some none
          | _ => some (present response)
  | .value _ => some none

/-- `_stdio_loop`: what is printed for each line, up to the end of the input (`true`) or an
exception (`false`). -/
def stdioLoop (pyStr : Json → Text) (mode : McpMode) : List Line → List (Option Json) × Bool
  | [] => ([], true)
  | line :: lines =>
      match printed pyStr mode line with
      | none => ([], false)
      | some out => (stdioLoop pyStr mode lines).map (out :: ·) id

end PalaceDaemon.Proxy
