/-
The two doors of the fast path: `/mcp` and `_call`.

Both ask `_fast_intercept_fn` whether a tool is answered from SQL, each with the method, the tool
and the arguments as it reads them itself: `_call` asks only for a `tools/call`, `/mcp` for any
method.  `/mcp` goes on to the tools of the daemon and to `_call`, and writes what comes back as
JSON; a body that is no object, a tool name that cannot be hashed, or an id that cannot be written
ends in an exception.  `one_rule_iff` says for which bodies the two doors agree and a response
comes back.
-/
import Mathlib.Tactic.Common
import PalaceDaemon.Lanes.Request
import PalaceDaemon.Lib.PyJson

namespace PalaceDaemon.Doors

open PalaceDaemon.Lanes (readTools saveTools)

/-! ### Responses -/

structure RpcError where
  code : ℤ
  message : PyStr
  data : Option PyJson

inductive RpcOutcome
  | result (value : PyJson)
  | error (e : RpcError)

/-- A JSON-RPC response. -/
structure Response where
  id : PyJson
  outcome : RpcOutcome

/-- An entry of an object. -/
def entry (key : String) (value : PyJson) : PyStr × PyJson := (PyStr.of key, value)

def RpcError.json (e : RpcError) : PyJson :=
  .obj ([entry "code" (.int e.code), entry "message" (.str e.message)] ++
    (e.data.map (entry "data")).toList)

def RpcOutcome.entry : RpcOutcome → PyStr × PyJson
  | .result value => Doors.entry "result" value
  | .error e => Doors.entry "error" e.json

def Response.json (r : Response) : PyJson :=
  .obj [entry "jsonrpc" (.str (PyStr.of "2.0")), entry "id" r.id, r.outcome.entry]

/-- What goes back to the caller: a response, or `{}` or `null`. -/
inductive Reply
  | response (r : Response)
  | empty

/-- `JSONResponse(content=...)` does not raise. -/
def Reply.renders : Reply → Bool
  | .response r => r.json.renders
  | .empty => true

/-- `JSONResponse(content=...)`; `none` is an exception. -/
def jsonResponse (reply : Reply) : Option Reply := if reply.renders then some reply else none

/-- An error without data. -/
def errorWith (id : PyJson) (code : ℤ) (message : PyStr) : Response :=
  ⟨id, .error ⟨code, message, none⟩⟩

/-- A result that is one text. -/
def textResult (id : PyJson) (text : String) : Response :=
  ⟨id, .result (.obj [entry "content" (.arr [.obj [entry "type" (.str (PyStr.of "text")),
    entry "text" (.str (PyStr.of text))]])])⟩

/-! ### The fast path -/

/-- The fast payloads. -/
inductive FastTool
  | status
  | kgStats
  | listWings
  | getTaxonomy
  | listDrawers (listArgs : List (PyStr × PyJson))

def FastTool.name : FastTool → String
  | .status => "mempalace_status"
  | .kgStats => "mempalace_kg_stats"
  | .listWings => "mempalace_list_wings"
  | .getTaxonomy => "mempalace_get_taxonomy"
  | .listDrawers _ => "mempalace_list_drawers"

/-- `_fast_intercept_fn` -/
def fastInterceptFn (on : Bool) (tool arguments : PyJson) : Option FastTool :=
  if on = false then none
  else if tool.isText "mempalace_status" then some .status
  else if tool.isText "mempalace_kg_stats" then some .kgStats
  else if tool.isText "mempalace_list_wings" && arguments.fieldsOf.isEmpty then some .listWings
  else if tool.isText "mempalace_get_taxonomy" && arguments.fieldsOf.isEmpty then
    some .getTaxonomy
  else if tool.isText "mempalace_list_drawers" && arguments.fieldsOf.all (fun f =>
      decide (f.1 ∈ ["wing", "room", "limit", "offset"].map PyStr.of)) then
    some (.listDrawers arguments.fieldsOf)
  else none

/-- How a fast payload ends: with what `json.dumps` makes of it, which is ASCII, or with an
exception, told by its kind and text. -/
inductive FastAnswer
  | payload (text : String)
  | failed (kind text : PyStr)

/-! ### What a request meets -/

/-- How a tool of the daemon ends. -/
inductive NativeAnswer
  | payload (text : String)
  | toolError (code : ℤ) (text : PyStr) (data : PyJson)
  | raised (text : PyStr)

/-- How `handle_request` ends: with a response, or none for a notification, with an exception, or
not in time. -/
inductive Handled
  | answered (r : Option Response)
  | raised (text : PyStr)
  | overdue

/-- The calls in flight and their bound. -/
structure Load where
  inflight : ℕ
  bound : ℕ

/-- What a request meets in the daemon. -/
structure Daemon where
  /-- `PALACE_MCP_FAST_INTERCEPT` -/
  fastIntercept : Bool
  fast : FastTool → FastAnswer
  native : String → List (PyStr × PyJson) → NativeAnswer
  toolLoad : Load
  saveLoad : Load
  /-- `PALACE_MCP_TOOL_TIMEOUT_SECONDS`, as it is written. -/
  timeoutSeconds : String
  /-- `_mp.handle_request` -/
  handle : PyJson → Handled
  /-- `_auto_repair`: how many were repaired, or the text of an exception. -/
  repair : Except PyStr ℤ
  /-- The second call of `handle_request`. -/
  handleAgain : PyJson → Except PyStr (Option Response)
  /-- `repr`, which writes no surrogate. -/
  repr : PyJson → String
  /-- The text of the exception with which a response cannot be written. -/
  renderFault : String
  /-- `DAEMON_NATIVE_TOOL_DESCRIPTORS`, by name. -/
  descriptor : String → PyJson

variable (d : Daemon)

/-- `_fast_failure_envelope` -/
def fastFailureEnvelope (id : PyJson) (tool : String) (kind text : PyStr) : Response :=
  errorWith id (-32004) (PyStr.of (tool ++ ": fast path failed (") ++ kind ++ PyStr.of ": " ++
    text.take 200 ++ PyStr.of ("); not falling back " ++
      "to the full-corpus scan (palace-daemon #323). Retry shortly."))

/-- The answer of the fast path. -/
def fastEnvelope (id : PyJson) (t : FastTool) : Response :=
  match d.fast t with
  | .payload text => textResult id text
  | .failed kind text => fastFailureEnvelope id t.name kind text

/-! ### `_call` -/

variable (body : PyJson)

/-- The fast path of `_call`. -/
def callDoor : Option FastTool :=
  let params := body.get "params"
  if (body.get "method").isText "tools/call" && params.isObj then
    fastInterceptFn d.fastIntercept (params.get "name") (params.get "arguments")
  else none

/-- `params.get("name", "") if isinstance(params, dict) else ""` -/
def toolName : PyJson := ((body.get "params").field? "name").getD (.str [])

/-- The tool is one of these. -/
def isOneOf (tool : PyJson) (names : List String) : Bool := names.any tool.isText

/-- `is_hnsw_error` -/
def isHnswError (message : PyStr) : Bool :=
  (PyStr.of "Internal error: Error finding id").includes message ||
    (PyStr.of "Internal error: id").includes message

/-- `result["error"]["message"] += hint` -/
def withHint (r : Response) (e : RpcError) (hint : String) : Response :=
  { r with outcome := .error { e with message := e.message ++ PyStr.of hint } }

/-- What `_call` makes of an error of the tool server: it repairs the index and asks again, or adds
a hint. -/
def afterError (r : Response) (e : RpcError) : Handled :=
  if isHnswError e.message then
    if isOneOf (toolName body) readTools then
      match d.repair with
      | .error text => .raised text
      | .ok repaired =>
        if 0 < repaired then
          match d.handleAgain body with
          | .error text => .raised text
          | .ok again => .answered again
        else .answered (some (withHint r e (" (Daemon hint: HNSW index stale. " ++
          "Auto-repair attempted but index might still be inconsistent)")))
    else .answered (some (withHint r e
      " (Daemon hint: HNSW error on write op — manual /reload may be needed)"))
  else .answered (some r)

/-- The answer of the tool server. -/
def handled : Handled :=
  match d.handle body with
  | .answered (some ⟨id, .error e⟩) => afterError d body ⟨id, .error e⟩ e
  | h => h

/-- The load of the lane of the tool, and the name of its bound. -/
def laneLoad : Load × String :=
  if isOneOf (toolName body) saveTools then (d.saveLoad, "PALACE_MCP_SAVE_MAX_INFLIGHT")
  else (d.toolLoad, "PALACE_MCP_TOOL_MAX_INFLIGHT")

/-- `inflight >= bound` -/
def busy : Bool := (laneLoad d body).1.bound ≤ (laneLoad d body).1.inflight

def busyMessage : String :=
  "daemon busy: " ++ Nat.repr (laneLoad d body).1.inflight ++ " MCP tool call(s) in flight (" ++
    (laneLoad d body).2 ++ "=" ++ Nat.repr (laneLoad d body).1.bound ++ "). Retry shortly."

def overdueMessage : String :=
  "MCP tool " ++ d.repr (toolName body) ++ " exceeded PALACE_MCP_TOOL_TIMEOUT_SECONDS=" ++
    d.timeoutSeconds ++ "s"

/-- `_call`, for a request that is not answered from the fast path. -/
def slowCall : Reply :=
  let id := body.get "id"
  if busy d body then .response (errorWith id (-32003) (PyStr.of (busyMessage d body)))
  else match handled d body with
    | .overdue => .response (errorWith id (-32001) (PyStr.of (overdueMessage d body)))
    | .raised text => .response (errorWith id (-32000) text)
    | .answered (some r) => .response r
    | .answered none => .empty

/-- `_call`; `none` is an exception: the body has no `get`, or `_sem_for` cannot hash the tool. -/
def call : Option Reply :=
  if body.isObj then
    match callDoor d body with
    | some t => some (.response (fastEnvelope d (body.get "id") t))
    | none => if (toolName body).hashable then some (slowCall d body) else none
  else none

/-! ### `/mcp` -/

/-- The tool that `/mcp` reads. -/
def toolOf : PyJson := (body.get "params").get "name"

/-- The arguments that `/mcp` reads. -/
def argumentsOf : PyJson := (body.get "params").get "arguments"

/-- The fast path of `/mcp`. -/
def mcpDoor : Option FastTool := fastInterceptFn d.fastIntercept (toolOf body) (argumentsOf body)

/-- `_DAEMON_NATIVE_TOOLS` -/
def nativeTools : List String :=
  ["mempalace_rooms_list", "mempalace_rooms_add", "mempalace_rooms_rename",
    "mempalace_rooms_remove", "mempalace_mined", "mempalace_wakeup", "mempalace_list_hallways"]

/-- `DAEMON_NATIVE_TOOL_DESCRIPTORS` -/
def descriptorNames : List String :=
  ["mempalace_list_hallways", "mempalace_rooms_list", "mempalace_rooms_add",
    "mempalace_rooms_rename", "mempalace_rooms_remove", "mempalace_mined", "mempalace_wakeup"]

/-- The answer of a tool of the daemon; `none` is an exception. -/
def nativeReply (name : String) : Option Reply :=
  let id := body.get "id"
  match d.native name (argumentsOf body).fieldsOf with
  | .payload text =>
    match jsonResponse (.response (textResult id text)) with
    | some reply => some reply
    | none => jsonResponse
        (.response (errorWith id (-32000) (PyStr.of ("internal error: " ++ d.renderFault))))
  | .toolError code text data => jsonResponse (.response ⟨id, .error ⟨code, text, some data⟩⟩)
  | .raised text =>
    jsonResponse (.response (errorWith id (-32000) (PyStr.of "internal error: " ++ text)))

/-- The names of the listed tools, unless one cannot be hashed. -/
def existingNames (tools : List PyJson) : Option (List PyJson) :=
  let names := (tools.filter PyJson.isObj).map (·.get "name")
  if names.all PyJson.hashable then some names else none

/-- The `tools/list` result with the tools of the daemon. -/
def augmentResult (result : PyJson) : PyJson :=
  if result.isObj then
    match (((result.field? "tools").getD (.arr [])).iterated).bind fun tools =>
        (existingNames tools).map fun names => (tools, names) with
    | none => result
    | some (tools, names) =>
      let additions := descriptorNames.filter fun name => !names.any (·.isText name)
      if additions = [] then result
      else .obj (PyJson.setField (PyStr.of "tools")
        (.arr (tools ++ additions.map d.descriptor)) result.fieldsOf)
  else result

/-- The augmentation of the tool server's answer. -/
def augment (reply : Reply) : Reply :=
  match reply with
  | .response ⟨id, .result value⟩ => .response ⟨id, .result (augmentResult d value)⟩
  | reply => reply

/-- What `/mcp` makes of a reply of `_call`. -/
def passOn (reply : Reply) : Reply :=
  if (body.get "method").isText "tools/list" then augment d reply else reply

/-- `mcp_proxy`; `none` is an exception. -/
def mcpProxy : Option Reply :=
  match mcpDoor d body with
  | some t => jsonResponse (.response (fastEnvelope d (body.get "id") t))
  | none =>
    if (toolOf body).hashable then
      match nativeTools.find? (toolOf body).isText with
      | some name => nativeReply d body name
      | none => (call d body).bind fun reply => jsonResponse (passOn d body reply)
    else none

/-! ### The rule of the two doors -/

/-- A JSON-RPC response comes back, with the id of the request when there is one. -/
def Envelope (reply : Option Reply) : Prop :=
  ∃ r, reply = some (.response r) ∧ ∀ id, body.field? "id" = some id → r.id = id

/-- Both doors answer the body from the fast path, or neither does, and a response comes back. -/
structure OneRule : Prop where
  same : (mcpDoor d body).isSome ↔ (callDoor d body).isSome
  envelope : Envelope body (mcpProxy d body)

/-- The failure of a fast payload can be told in UTF-8. -/
def FastAnswer.Writable : FastAnswer → Prop
  | .payload _ => True
  | .failed kind text => kind.encodes ∧ PyStr.encodes (text.take 200)

/-- The failure of a tool of the daemon can be told in a response. -/
def NativeAnswer.Writable : NativeAnswer → Prop
  | .payload _ => True
  | .toolError _ text data => text.encodes ∧ data.renders
  | .raised text => text.encodes

/-- The tool server answers with a response to the request, and one that can be written, or fails
with a text that can. -/
def Handled.Answers (h : Handled) : Prop :=
  match h with
  | .overdue => True
  | .raised text => text.encodes
  | .answered none => False
  | .answered (some r) => (passOn d body (.response r)).renders ∧
      ∀ id, body.field? "id" = some id → r.id = id

/-- What the request meets lets a response be written. -/
def Answered : Prop :=
  match mcpDoor d body with
  | some t => (d.fast t).Writable
  | none =>
    match nativeTools.find? (toolOf body).isText with
    | some name => (d.native name (argumentsOf body).fieldsOf).Writable
    | none => busy d body ∨ (handled d body).Answers d body

/-- The body is an object, its tool can be hashed and its id written, a tool of the fast path is
asked for by a `tools/call`, and what the request meets lets a response be written. -/
structure Served : Prop where
  object : body.isObj
  hashable : (toolOf body).hashable
  called : (mcpDoor d body).isSome → (body.get "method").isText "tools/call"
  id : (body.get "id").renders
  answered : Answered d body

/-! ### The doors -/

lemma isObj_of_field {v : PyJson} {key : String} (h : v.field? key ≠ none) : v.isObj := by
  cases v <;> first | rfl | exact absurd rfl h

/-- A text is hashable. -/
lemma hashable_of_isText {v : PyJson} {text : String} (h : v.isText text) : v.hashable := by
  cases v <;> first | rfl | exact absurd h (by simp [PyJson.isText])

/-- `None` is no text. -/
lemma params_of_toolOf {text : String} (h : (toolOf body).isText text) :
    body.isObj ∧ (body.get "params").isObj := by
  have hparams : (body.get "params").isObj := by
    refine isObj_of_field (fun hnone : PyJson.field? _ "name" = none => ?_)
    rw [toolOf, PyJson.get, hnone] at h
    simp [PyJson.isText] at h
  refine ⟨isObj_of_field fun hnone : PyJson.field? _ "params" = none => ?_, hparams⟩
  simp [PyJson.get, hnone, PyJson.isObj] at hparams

/-- A tool of the fast path is a text. -/
lemma isText_of_fastInterceptFn {on : Bool} {tool arguments : PyJson} {t : FastTool}
    (h : fastInterceptFn on tool arguments = some t) : ∃ text, tool.isText text := by
  unfold fastInterceptFn at h
  split_ifs at h
  case pos h1 => exact ⟨_, h1⟩
  case pos h1 => exact ⟨_, h1⟩
  case pos h1 => exact ⟨_, (Bool.and_eq_true_iff.1 h1).1⟩
  case pos h1 => exact ⟨_, (Bool.and_eq_true_iff.1 h1).1⟩
  case pos h1 => exact ⟨_, (Bool.and_eq_true_iff.1 h1).1⟩

/-- **The rule of the lanes.**  On a tool that is a text and arguments that are an object,
`_fast_intercept_fn` answers just what it answers when a call is given its lane. -/
theorem isSome_fastInterceptFn (tool : String) {arguments : List (PyStr × PyJson)}
    {keys : List String} (h : arguments.map Prod.fst = keys.map PyStr.of) :
    (fastInterceptFn true (.str (PyStr.of tool)) (.obj arguments)).isSome =
      Lanes.fastInterceptFn tool keys := by
  have hempty : arguments.isEmpty = keys.isEmpty := by
    rw [← List.isEmpty_map (f := Prod.fst), h, List.isEmpty_map]
  have hall : (arguments.all fun f =>
        decide (f.1 ∈ ["wing", "room", "limit", "offset"].map PyStr.of)) =
      keys.all fun key => decide (key ∈ ["wing", "room", "limit", "offset"]) := by
    have hmem : ∀ key, PyStr.of key ∈ ["wing", "room", "limit", "offset"].map PyStr.of ↔
        key ∈ ["wing", "room", "limit", "offset"] := fun key =>
      List.mem_map_of_injective PyStr.of_injective
    rw [show (fun f : PyStr × PyJson =>
        decide (f.1 ∈ ["wing", "room", "limit", "offset"].map PyStr.of)) =
      (fun s => decide (s ∈ ["wing", "room", "limit", "offset"].map PyStr.of)) ∘ Prod.fst from rfl,
      ← List.all_map, h, List.all_map]
    simp only [Function.comp_def, hmem]
  simp only [fastInterceptFn, Lanes.fastInterceptFn, PyJson.isText, PyJson.fieldsOf, PyStr.of_inj,
    hempty, hall, Bool.true_eq_false, if_false]
  split_ifs <;> simp_all
  tauto

/-- The door of `_call` is that of `/mcp`, for a `tools/call` with parameters. -/
lemma callDoor_eq : callDoor d body =
    if (body.get "method").isText "tools/call" && (body.get "params").isObj then mcpDoor d body
    else none := rfl

lemma same_iff : ((mcpDoor d body).isSome ↔ (callDoor d body).isSome) ↔
    ((mcpDoor d body).isSome → (body.get "method").isText "tools/call") := by
  rw [callDoor_eq]
  rcases hdoor : mcpDoor d body with _ | t
  · simp
  · obtain ⟨text, htext⟩ := isText_of_fastInterceptFn hdoor
    have hparams := (params_of_toolOf body htext).2
    by_cases hcall : (body.get "method").isText "tools/call" = true <;> simp [hcall, hparams]

/-! ### What can be written -/

@[simp]
lemma renders_response (r : Response) :
    (Reply.response r).renders = (r.id.renders && r.outcome.entry.2.renders) := by
  rcases r with ⟨id, value | e⟩ <;>
    simp [Reply.renders, Response.json, RpcOutcome.entry, entry, PyJson.renders,
      PyJson.rendersFields]

@[simp]
lemma renders_errorWith (id : PyJson) (code : ℤ) (message : PyStr) :
    (Reply.response (errorWith id code message)).renders =
      (id.renders && message.encodes) := by
  simp [errorWith, RpcOutcome.entry, RpcError.json, entry, PyJson.renders, PyJson.rendersFields]

@[simp]
lemma renders_textResult (id : PyJson) (text : String) :
    (Reply.response (textResult id text)).renders = id.renders := by
  simp [textResult, RpcOutcome.entry, entry, PyJson.renders, PyJson.rendersFields,
    PyJson.rendersAll]

variable {d body}

lemma jsonResponse_eq_some {reply reply' : Reply} :
    jsonResponse reply = some reply' ↔ reply.renders = true ∧ reply' = reply := by
  rw [jsonResponse]
  split_ifs with h <;> simp [h, eq_comm]

/-- A response with the id of the body comes back when it can be written. -/
lemma envelope_jsonResponse {r : Response} (hid : r.id = body.get "id") :
    Envelope body (jsonResponse (.response r)) ↔ (Reply.response r).renders = true := by
  constructor
  · rintro ⟨r', hr', -⟩
    exact (jsonResponse_eq_some.1 hr').1
  · intro h
    refine ⟨r, jsonResponse_eq_some.2 ⟨h, rfl⟩, fun id hbody => ?_⟩
    rw [hid, PyJson.get, hbody, Option.getD_some]

lemma envelope_fast (t : FastTool) :
    Envelope body (jsonResponse (.response (fastEnvelope d (body.get "id") t))) ↔
      (body.get "id").renders ∧ (d.fast t).Writable := by
  rw [fastEnvelope]
  rcases d.fast t with text | ⟨kind, text⟩
  · rw [envelope_jsonResponse rfl, renders_textResult]
    simp [FastAnswer.Writable]
  · rw [envelope_jsonResponse rfl]
    simp only [fastFailureEnvelope, renders_errorWith, PyStr.encodes_append, PyStr.encodes_of]
    simp [FastAnswer.Writable]

lemma envelope_native (name : String) : Envelope body (nativeReply d body name) ↔
    (body.get "id").renders ∧ (d.native name (argumentsOf body).fieldsOf).Writable := by
  rw [nativeReply]
  rcases d.native name (argumentsOf body).fieldsOf with text | ⟨code, text, data⟩ | text
  · by_cases hid : (body.get "id").renders = true
    · have hwritten : jsonResponse (.response (textResult (body.get "id") text)) =
          some (.response (textResult (body.get "id") text)) :=
        jsonResponse_eq_some.2 ⟨by rw [renders_textResult, hid], rfl⟩
      simp only [hwritten, hid, NativeAnswer.Writable, and_true, iff_true]
      exact hwritten ▸ (envelope_jsonResponse rfl).2 (by rw [renders_textResult, hid])
    · have hfault : jsonResponse (.response (textResult (body.get "id") text)) = none := by
        rw [jsonResponse, renders_textResult, if_neg hid]
      simp only [hfault]
      rw [envelope_jsonResponse rfl, renders_errorWith]
      simp [hid]
  · rw [envelope_jsonResponse rfl]
    simp [NativeAnswer.Writable, RpcOutcome.entry, RpcError.json, entry, PyJson.renders,
      PyJson.rendersFields]
  · rw [envelope_jsonResponse rfl, renders_errorWith]
    simp [NativeAnswer.Writable]

/-- The augmentation leaves the errors, and the id of each response. -/
lemma passOn_errorWith (id : PyJson) (code : ℤ) (message : PyStr) :
    passOn d body (.response (errorWith id code message)) =
      .response (errorWith id code message) := by
  rw [passOn]
  split <;> rfl

lemma passOn_response (r : Response) :
    ∃ r', passOn d body (.response r) = .response r' ∧ r'.id = r.id := by
  rw [passOn]
  split
  · rcases r with ⟨id, value | e⟩
    · exact ⟨_, rfl, rfl⟩
    · exact ⟨_, rfl, rfl⟩
  · exact ⟨r, rfl, rfl⟩

lemma envelope_passOn_error (code : ℤ) (message : PyStr) :
    Envelope body (jsonResponse (passOn d body
      (.response (errorWith (body.get "id") code message)))) ↔
      (body.get "id").renders ∧ message.encodes := by
  rw [passOn_errorWith, envelope_jsonResponse rfl, renders_errorWith, Bool.and_eq_true]

/-- A response that is passed on. -/
lemma envelope_passOn (r : Response) : Envelope body (jsonResponse (passOn d body (.response r))) ↔
    (body.get "id").renders ∧ (passOn d body (.response r)).renders ∧
      ∀ id, body.field? "id" = some id → r.id = id := by
  obtain ⟨r', hpass, hid⟩ : ∃ r', passOn d body (.response r) = .response r' ∧ r'.id = r.id :=
    passOn_response r
  rw [hpass]
  constructor
  · rintro ⟨r'', hr'', hbody⟩
    obtain ⟨hrenders, heq⟩ := jsonResponse_eq_some.1 hr''
    obtain rfl : r'' = r' := by injection heq
    refine ⟨?_, hrenders, fun id hi => hid ▸ hbody id hi⟩
    rw [PyJson.get]
    rcases hi : body.field? "id" with _ | id
    · rfl
    · rw [renders_response, Bool.and_eq_true, hbody id hi] at hrenders
      exact hrenders.1
  · rintro ⟨-, hrenders, hbody⟩
    exact ⟨r', jsonResponse_eq_some.2 ⟨hrenders, rfl⟩, fun id hi => hid.trans (hbody id hi)⟩

lemma envelope_slow : Envelope body (jsonResponse (passOn d body (slowCall d body))) ↔
    (body.get "id").renders ∧ (busy d body ∨ (handled d body).Answers d body) := by
  rw [slowCall]
  by_cases hbusy : busy d body = true
  · simp only [hbusy, if_true, envelope_passOn_error, PyStr.encodes_of, true_or]
  · simp only [hbusy, Bool.false_eq_true, if_false, false_or]
    rcases handled d body with (_ | r) | text | _
    · simp only [Handled.Answers, and_false, iff_false]
      rintro ⟨r, hr, -⟩
      have := (jsonResponse_eq_some.1 hr).2
      rw [passOn] at this
      split at this <;> cases this
    · exact envelope_passOn r
    · exact envelope_passOn_error (-32000) text
    · simp only [envelope_passOn_error, PyStr.encodes_of, Handled.Answers]

/-- Without the fast path, `_call` is given a tool that can be hashed. -/
lemma call_eq (hobj : body.isObj = true) (hhash : (toolOf body).hashable = true)
    (hdoor : mcpDoor d body = none) : call d body = some (slowCall d body) := by
  have hcall : callDoor d body = none := by
    rw [callDoor_eq, hdoor, ite_self]
  have htool : (toolName body).hashable = true := by
    rw [toolOf, PyJson.get] at hhash
    rw [toolName]
    rcases hname : (body.get "params").field? "name" with _ | v
    · rfl
    · simpa [hname] using hhash
  rw [call, if_pos hobj, hcall]
  simp only [htool, if_true]

/-- **One rule for both doors.**  For every body: the two doors agree on it and a response with its
id comes back, if and only if it is an object, its tool can be hashed, its id can be written, a
tool of the fast path is asked for by a `tools/call`, and what the request meets lets a response be
written. -/
theorem one_rule_iff (d : Daemon) (body : PyJson) : OneRule d body ↔ Served d body := by
  have hrule : OneRule d body ↔
      ((mcpDoor d body).isSome → (body.get "method").isText "tools/call" = true) ∧
        Envelope body (mcpProxy d body) :=
    ⟨fun h => ⟨(same_iff d body).1 h.same, h.envelope⟩,
      fun h => ⟨(same_iff d body).2 h.1, h.2⟩⟩
  suffices henvelope : Envelope body (mcpProxy d body) ↔ body.isObj = true ∧
      (toolOf body).hashable = true ∧ (body.get "id").renders = true ∧ Answered d body by
    rw [hrule, henvelope]
    exact ⟨fun h => ⟨h.2.1, h.2.2.1, h.1, h.2.2.2.1, h.2.2.2.2⟩,
      fun h => ⟨h.called, h.object, h.hashable, h.id, h.answered⟩⟩
  rw [mcpProxy, Answered]
  rcases hdoor : mcpDoor d body with _ | t
  · by_cases hhash : (toolOf body).hashable = true
    · rw [if_pos hhash]
      rcases hfind : nativeTools.find? (toolOf body).isText with _ | name
      · by_cases hobj : body.isObj = true
        · simp only [call_eq hobj hhash hdoor, Option.bind_some, envelope_slow, hobj, hhash,
            true_and]
        · simp only [call, hobj, Bool.false_eq_true, if_false, Option.bind_none, false_and,
            iff_false]
          rintro ⟨r, hr, -⟩
          cases hr
      · have htext : (toolOf body).isText name := by simpa using List.find?_some hfind
        simp only [envelope_native, (params_of_toolOf body htext).1, hhash, true_and]
    · simp only [hhash, Bool.false_eq_true, if_false, false_and, and_false, iff_false]
      rintro ⟨r, hr, -⟩
      cases hr
  · obtain ⟨text, htext⟩ := isText_of_fastInterceptFn hdoor
    simp only [envelope_fast, (params_of_toolOf body htext).1, hashable_of_isText htext, true_and]

/-! ### A body on which the doors differ -/

/-- A daemon in which every tool answers. -/
def Daemon.plain : Daemon where
  fastIntercept := true
  fast _ := .payload "\x7b\x7d"
  native _ _ := .payload "\x7b\x7d"
  toolLoad := ⟨0, 8⟩
  saveLoad := ⟨0, 4⟩
  timeoutSeconds := "120"
  handle body := .answered (some ⟨body.get "id", .result (.obj [])⟩)
  repair := .ok 0
  handleAgain _ := .ok none
  repr _ := ""
  renderFault := ""
  descriptor name := .obj [entry "name" (.str (PyStr.of name))]

/-- A request for the list of tools, with a tool in its parameters. -/
def listWithName : PyJson :=
  .obj [entry "jsonrpc" (.str (PyStr.of "2.0")), entry "id" (.int 1),
    entry "method" (.str (PyStr.of "tools/list")),
    entry "params" (.obj [entry "name" (.str (PyStr.of "mempalace_status"))])]

/-- `/mcp` answers it with the status of the palace, `_call` with the list. -/
theorem one_rule_fails : ¬OneRule Daemon.plain listWithName := by
  intro h
  have hmcp : (mcpDoor Daemon.plain listWithName).isSome = true := by decide +kernel
  have hcall : (callDoor Daemon.plain listWithName).isSome = false := by decide +kernel
  rw [h.same.1 hmcp] at hcall
  cases hcall

end PalaceDaemon.Doors
