/-
Which input the stdio proxy answers.

A run of the loop answers every request once when it reaches the end of the input and each line
has what is due to it: a response with the id of a request that has one, and nothing otherwise.
What each line has to meet for that (`Line.Fits`) depends on the mode: in the mode `all` the
daemon's own answers have to carry the id; in the other two the parameters have to be an object
where they are read, and in `search-only` a search that cannot be forwarded has to fail in one of
the ways that `_forward_with_autowake` handles.
-/
import PalaceDaemon.Proxy.Stdio

namespace PalaceDaemon.Proxy

open PalaceDaemon.Wings

/-! ### What is due to a line -/

/-- The response is an object with the id. -/
def Carries (response id : Json) : Prop :=
  ∃ fields, response = .obj fields ∧ Json.lookup "id".toList fields = some id

/-- The id of a line that is an object with an id that is not null. -/
def Line.requestId (line : Line) : Option Json :=
  match line.parsed with
  | .value (.obj fields) =>
      match Json.lookup "id".toList fields with
      | none => none
      | some .null => none
      | some id => some id
  | _ => none

/-- The line has what is due to it. -/
def Line.Answered (line : Line) (out : Option Json) : Prop :=
  match line.requestId with
  | some id => ∃ response, out = some response ∧ Carries response id
  | none => out = none

/-- Every line has what is due to it, and the loop ends at the end of the input. -/
def AnswersOnce (pyStr : Json → Text) (mode : McpMode) (lines : List Line) : Prop :=
  (stdioLoop pyStr mode lines).2 = true ∧
    List.Forall₂ Line.Answered lines (stdioLoop pyStr mode lines).1

/-! ### What a line has to meet -/

/-- If the daemon answers, the answer carries the id. -/
def Forwarded.Fits (id : Json) : Forwarded → Prop
  | .answer response => Carries response id
  | _ => True

/-- The parameters of the request are an object, or a value that is false. -/
def ParamsFit (request : Json) : Prop :=
  ((getNone request "params").getD .null).orEmpty.isObj = true

/-- A forwarded search ends in one of the ways that are handled. -/
def Behaviour.Fits (b : Behaviour) (id : Json) : Prop :=
  match b.first with
  | .answer response => Carries response id
  | .httpError _ _ => True
  | .urlError _ => (∀ cfg, b.config = some cfg → cfg.isObj = true) ∧
      (loadAutoWakeCommand b.config ≠ some [] → b.wakes = true → b.retry.Fits id)
  | .raised _ => False

/-- What a request with an id has to meet. -/
def RequestFits (mode : McpMode) (b : Behaviour) (request id : Json) : Prop :=
  let method := (getNone request "method").getD .null
  let params := ((getNone request "params").getD .null).orEmpty
  match mode with
  | .all => b.first.Fits id
  | .cliOnly => isText method "initialize" = true → ParamsFit request
  | .searchOnly =>
      (isText method "initialize" = true → ParamsFit request) ∧
      (isText method "tools/call" = true → ParamsFit request ∧
        (isText ((getNone params "name").getD .null) "mempalace_search" = true → b.Fits id))

/-- What a line has to meet. -/
def Line.Fits (mode : McpMode) (line : Line) : Prop :=
  line.parsed ≠ .raised ∧ ∀ request id, line.parsed = .value request →
    line.requestId = some id → RequestFits mode line.behaviour request id

/-! ### Responses made here -/

lemma carries_resultOf (id result : Json) : Carries (resultOf id result) id :=
  ⟨_, rfl, by simp [Json.lookup, field]⟩

lemma carries_errorOf (id : Json) (code : ℤ) (message : Text) :
    Carries (errorOf id code message) id :=
  ⟨_, rfl, by simp [Json.lookup, field]⟩

lemma Carries.ne_null {response id : Json} (h : Carries response id) : response ≠ .null := by
  obtain ⟨fields, rfl, -⟩ := h
  simp

/-- The response is there and carries the id. -/
def Good (id : Json) (response : Option Json) : Prop := ∃ r, response = some r ∧ Carries r id

lemma good_some {id r : Json} : Good id (some r) ↔ Carries r id := by
  simp [Good]

lemma not_good_none {id : Json} : ¬ Good id none := by
  simp [Good]

lemma good_handleAll {b : Behaviour} {id : Json} :
    Good id (some (handleAll b id)) ↔ b.first.Fits id := by
  rw [good_some, handleAll, Forwarded.Fits.eq_def]
  cases b.first with
  | answer response => rfl
  | httpError code reason => exact iff_of_true (carries_errorOf _ _ _) trivial
  | urlError message => exact iff_of_true (carries_errorOf _ _ _) trivial
  | raised message => exact iff_of_true (carries_errorOf _ _ _) trivial

lemma getNone_eq_none_iff {value : Json} {key : String} :
    getNone value key = none ↔ value.isObj = false := by
  cases value <;> simp [getNone, Json.getD, Json.isObj]

lemma loadAutoWakeCommand_eq_none_iff {config : Option Json} :
    loadAutoWakeCommand config = none ↔ ∃ cfg, config = some cfg ∧ cfg.isObj = false := by
  cases config with
  | none => simp [loadAutoWakeCommand]
  | some cfg =>
    cases hget : getNone cfg "auto_wake" with
    | none => simpa [loadAutoWakeCommand, hget] using getNone_eq_none_iff.1 hget
    | some autoWake =>
      have hobj : cfg.isObj ≠ false := fun h => by
        rw [getNone_eq_none_iff.2 h] at hget
        cases hget
      refine iff_of_false ?_ (by simpa using hobj)
      cases autoWake <;> simp only [loadAutoWakeCommand, hget] <;> first
        | exact Option.some_ne_none _
        | (split <;> exact Option.some_ne_none _)

/-- The wake cycle answers a request just when it meets what is handled. -/
lemma good_forwardWithAutowake {b : Behaviour} {id : Json} :
    Good id (forwardWithAutowake b id) ↔ b.Fits id := by
  rw [forwardWithAutowake, Behaviour.Fits]
  cases b.first with
  | answer response => exact good_some
  | httpError code reason => exact iff_of_true (good_some.2 (carries_errorOf _ _ _)) trivial
  | raised message => exact iff_of_false not_good_none not_false
  | urlError message =>
    cases hcommand : loadAutoWakeCommand b.config with
    | none =>
      obtain ⟨cfg, hcfg, hobj⟩ := loadAutoWakeCommand_eq_none_iff.1 hcommand
      refine iff_of_false not_good_none fun h => ?_
      rw [h.1 cfg hcfg] at hobj
      cases hobj
    | some command =>
      have hconfig : ∀ cfg, b.config = some cfg → cfg.isObj = true := by
        intro cfg hcfg
        by_contra hobj
        rw [loadAutoWakeCommand_eq_none_iff.2 ⟨cfg, hcfg, by simpa using hobj⟩] at hcommand
        cases hcommand
      cases command with
      | nil =>
        exact iff_of_true (good_some.2 (carries_resultOf _ _)) ⟨hconfig, fun h => absurd rfl h⟩
      | cons c command =>
        cases hwakes : b.wakes with
        | false =>
          exact iff_of_true (good_some.2 (carries_resultOf _ _)) ⟨hconfig, fun _ h => by cases h⟩
        | true =>
          cases hretry : b.retry with
          | answer response =>
            simp only [if_true, good_some, Forwarded.Fits]
            exact ⟨fun h => ⟨hconfig, fun _ _ => h⟩, fun h => h.2 (by simp) trivial⟩
          | httpError code reason =>
            exact iff_of_true (good_some.2 (carries_errorOf _ _ _)) ⟨hconfig, fun _ _ => trivial⟩
          | urlError message' =>
            exact iff_of_true (good_some.2 (carries_resultOf _ _)) ⟨hconfig, fun _ _ => trivial⟩
          | raised message' =>
            exact iff_of_true (good_some.2 (carries_resultOf _ _)) ⟨hconfig, fun _ _ => trivial⟩

/-! ### Each line -/

lemma isText_iff {value : Json} {text : String} :
    isText value text = true ↔ value = .str text.toList := by
  cases value <;> simp [isText]

/-- A method that is one text is no other. -/
lemma isText_ne {value : Json} {text other : String} (h : isText value text = true)
    (hne : text.toList ≠ other.toList) : isText value other = false := by
  rw [isText_iff.1 h]
  simpa [isText] using hne

/-- The handshake answers `initialize` when its parameters are an object, and its other methods
always. -/
lemma localHandshakeResponse_cases (request method rid : Json) (modeLabel : String) :
    (isText method "initialize" = true ∧ ¬ ParamsFit request ∧
      localHandshakeResponse request method rid modeLabel = none) ∨
    ((isText method "initialize" = true → ParamsFit request) ∧ isText method "tools/call" = false ∧
      ∃ r, localHandshakeResponse request method rid modeLabel = some (some r) ∧
        Carries r rid) ∨
    (isText method "initialize" = false ∧
      localHandshakeResponse request method rid modeLabel = some none) := by
  rw [localHandshakeResponse]
  by_cases hinit : isText method "initialize" = true
  · rw [if_pos hinit]
    have hcall := @isText_ne method "initialize" "tools/call" hinit (by decide)
    cases hparams : ((getNone request "params").getD .null).orEmpty.getD
        "protocolVersion".toList .null with
    | none =>
      refine .inl ⟨hinit, fun hfit => ?_, rfl⟩
      rw [ParamsFit, ← Json.isSome_getD _ "protocolVersion".toList .null, hparams] at hfit
      cases hfit
    | some protocol =>
      refine .inr (.inl ⟨fun _ => ?_, hcall, _, rfl, carries_resultOf _ _⟩)
      rw [ParamsFit, ← Json.isSome_getD _ "protocolVersion".toList .null, hparams]
      rfl
  · rw [if_neg hinit]
    have hnot : isText method "initialize" = true → ParamsFit request := fun h => absurd h hinit
    split_ifs with hping hresources hprompts
    · exact .inr (.inl ⟨hnot, isText_ne hping (by decide), _, rfl, carries_resultOf _ _⟩)
    · exact .inr (.inl ⟨hnot, isText_ne hresources (by decide), _, rfl, carries_resultOf _ _⟩)
    · exact .inr (.inl ⟨hnot, isText_ne hprompts (by decide), _, rfl, carries_resultOf _ _⟩)
    · exact .inr (.inr ⟨by simpa using hinit, rfl⟩)

/-- A mode that serves the handshake itself answers a request just when the parameters of
`initialize` fit and a call is answered. -/
lemma good_handleLocally {pyStr : Json → Text} {modeLabel : String} {request tools id : Json}
    {call : Json → Option Json} (hid : getNone request "id" = some id) :
    Good id (handleLocally pyStr modeLabel request tools call) ↔
      (isText ((getNone request "method").getD .null) "initialize" = true → ParamsFit request) ∧
      (isText ((getNone request "method").getD .null) "tools/call" = true →
        Good id (call id)) := by
  simp only [handleLocally, hid, Option.getD_some]
  generalize (getNone request "method").getD .null = method
  rcases localHandshakeResponse_cases request method id modeLabel with
    ⟨hinit, hnot, hr⟩ | ⟨hfit, hcall, r, hr, hcarries⟩ | ⟨hinit, hr⟩
  · rw [hr]
    exact iff_of_false not_good_none fun h => hnot (h.1 hinit)
  · rw [hr]
    exact iff_of_true (good_some.2 hcarries) ⟨hfit, fun h => by rw [hcall] at h; cases h⟩
  · rw [hr]
    have hfit : isText method "initialize" = true → ParamsFit request := fun h => by
      rw [hinit] at h
      cases h
    simp only
    split_ifs with hlist hcall
    · exact iff_of_true (good_some.2 (carries_resultOf _ _))
        ⟨hfit, fun h => by rw [isText_ne hlist (by decide)] at h; cases h⟩
    · exact ⟨fun h => ⟨hfit, fun _ => h⟩, fun h => h.2 hcall⟩
    · exact iff_of_true (good_some.2 (carries_errorOf _ _ _)) ⟨hfit, fun h => absurd h hcall⟩

lemma good_searchOnlyCall {b : Behaviour} {request id : Json} :
    Good id (searchOnlyCall b request id) ↔ ParamsFit request ∧
      (isText ((getNone (((getNone request "params").getD .null).orEmpty) "name").getD .null)
        "mempalace_search" = true → b.Fits id) := by
  rw [searchOnlyCall, ParamsFit]
  cases hname : getNone ((getNone request "params").getD .null).orEmpty "name" with
  | none =>
    refine iff_of_false not_good_none fun h => ?_
    rw [getNone_eq_none_iff.1 hname] at h
    cases h.1
  | some name =>
    have hobj : ((getNone request "params").getD .null).orEmpty.isObj = true := by
      by_contra h
      rw [getNone_eq_none_iff.2 (by simpa using h)] at hname
      cases hname
    simp only [hobj, true_and, Option.getD_some]
    split_ifs with hsearch
    · exact ⟨fun h _ => good_forwardWithAutowake.1 h,
        fun h => good_forwardWithAutowake.2 (h hsearch)⟩
    · exact iff_of_true (good_some.2 (carries_errorOf _ _ _)) fun h => absurd h hsearch

/-- A request with an id is answered just when it meets what it has to. -/
lemma good_handle (pyStr : Json → Text) {mode : McpMode} {b : Behaviour} {request id : Json}
    (hid : getNone request "id" = some id) (hnull : id ≠ .null) :
    Good id (handle pyStr mode b request) ↔ RequestFits mode b request id := by
  simp only [handle, hid, Option.getD_some, RequestFits]
  cases mode with
  | all => exact good_handleAll
  | cliOnly =>
    cases id with
    | null => exact absurd rfl hnull
    | _ =>
      simp only
      rw [good_handleLocally hid]
      exact and_iff_left fun _ => good_some.2 (carries_errorOf _ _ _)
  | searchOnly =>
    cases id with
    | null => exact absurd rfl hnull
    | _ =>
      simp only
      rw [good_handleLocally hid, good_searchOnlyCall]

/-- Without an id nothing raises in `handle`. -/
lemma handle_of_null (pyStr : Json → Text) (mode : McpMode) (b : Behaviour) {request : Json}
    (hid : (getNone request "id").getD .null = .null) :
    ∃ response, handle pyStr mode b request = some response := by
  simp only [handle, hid]
  cases mode <;> exact ⟨_, rfl⟩

/-- What is printed for a request without an id: nothing. -/
lemma printed_of_null {pyStr : Json → Text} {mode : McpMode} {line : Line}
    {fields : List (Text × Json)} (hparsed : line.parsed = .value (.obj fields))
    (hid : (Json.lookup "id".toList fields).getD .null = .null) :
    printed pyStr mode line = some none := by
  have hget : getNone (.obj fields) "id" = some .null := congrArg some hid
  obtain ⟨response, hresponse⟩ := @handle_of_null pyStr mode line.behaviour (.obj fields)
    (by rw [hget]; rfl)
  simp only [printed, hparsed, hresponse, hget]

/-- What is printed for a request with an id: its response, when that is there. -/
lemma printed_of_id {pyStr : Json → Text} {mode : McpMode} {line : Line}
    {fields : List (Text × Json)} {id : Json} (hparsed : line.parsed = .value (.obj fields))
    (hid : Json.lookup "id".toList fields = some id) (hnull : id ≠ .null) :
    printed pyStr mode line = (handle pyStr mode line.behaviour (.obj fields)).map present := by
  have hget : getNone (.obj fields) "id" = some id := by
    rw [getNone, Json.getD, hid]
    rfl
  simp only [printed, hparsed, hget]
  cases handle pyStr mode line.behaviour (.obj fields) with
  | none => rfl
  | some response =>
    cases id with
    | null => exact absurd rfl hnull
    | _ => rfl

lemma present_eq_some_iff {response r : Json} :
    present response = some r ↔ response = r ∧ r ≠ .null := by
  cases response with
  | null => exact iff_of_false (by simp [present]) fun h => h.2 h.1.symm
  | _ =>
    simp only [present, Option.some.injEq]
    exact ⟨fun h => ⟨h, fun hnull => by rw [← h] at hnull; cases hnull⟩, And.left⟩

lemma requestId_eq_some {line : Line} {id : Json} (h : line.requestId = some id) :
    ∃ fields, line.parsed = .value (.obj fields) ∧ Json.lookup "id".toList fields = some id ∧
      id ≠ .null := by
  rw [Line.requestId] at h
  split at h
  · next fields hparsed =>
    split at h
    · cases h
    · cases h
    · next id' hnull hid =>
      obtain rfl : id' = id := Option.some.inj h
      exact ⟨fields, hparsed, hid, hnull⟩
  · cases h

/-- One line is read without an exception and has what is due to it just when it meets what it has
to. -/
lemma answered_printed {pyStr : Json → Text} {mode : McpMode} {line : Line} :
    (∃ out, printed pyStr mode line = some out ∧ line.Answered out) ↔ line.Fits mode := by
  cases hrequest : line.requestId with
  | none =>
    have hfits : line.Fits mode ↔ line.parsed ≠ .raised := by
      simp [Line.Fits, hrequest]
    rw [hfits]
    simp only [Line.Answered, hrequest, exists_eq_right]
    cases hparsed : line.parsed with
    | blank => simp [printed, hparsed]
    | decodeError => simp [printed, hparsed]
    | raised => simp [printed, hparsed]
    | value request =>
      cases request with
      | obj fields =>
        refine iff_of_true (printed_of_null hparsed ?_) (by simp)
        -- the id is missing or null
        simp only [Line.requestId, hparsed] at hrequest
        split at hrequest
        · next hid => rw [hid]; rfl
        · next hid => rw [hid]; rfl
        · cases hrequest
      | _ => simp [printed, hparsed]
  | some id =>
    obtain ⟨fields, hparsed, hid, hnull⟩ := requestId_eq_some hrequest
    have hfits : line.Fits mode ↔ RequestFits mode line.behaviour (.obj fields) id := by
      constructor
      · exact fun h => h.2 _ _ hparsed hrequest
      · intro h
        refine ⟨by simp [hparsed], fun request id' hvalue hid' => ?_⟩
        obtain rfl : Json.obj fields = request := Parsed.value.inj (hparsed.symm.trans hvalue)
        obtain rfl : id = id' := Option.some.inj (hrequest.symm.trans hid')
        exact h
    have hget : getNone (.obj fields) "id" = some id := by
      rw [getNone, Json.getD, hid]
      rfl
    rw [hfits, ← good_handle pyStr hget hnull, printed_of_id hparsed hid hnull]
    simp only [Line.Answered, hrequest, Good]
    constructor
    · rintro ⟨out, hout, response, rfl, hcarries⟩
      obtain ⟨r, hr, hpresent⟩ := Option.map_eq_some_iff.1 hout
      obtain ⟨rfl, -⟩ := present_eq_some_iff.1 hpresent
      exact ⟨r, hr, hcarries⟩
    · rintro ⟨r, hr, hcarries⟩
      refine ⟨some r, ?_, r, rfl, hcarries⟩
      rw [hr, Option.map_some, present_eq_some_iff.2 ⟨rfl, hcarries.ne_null⟩]

/-- The loop goes through its input just when each line does. -/
lemma answersOnce_iff_forall {pyStr : Json → Text} {mode : McpMode} {lines : List Line} :
    AnswersOnce pyStr mode lines ↔
      ∀ line ∈ lines, ∃ out, printed pyStr mode line = some out ∧ line.Answered out := by
  induction lines with
  | nil => simp [AnswersOnce, stdioLoop]
  | cons line lines ih =>
    rw [List.forall_mem_cons, ← ih, AnswersOnce, AnswersOnce, stdioLoop]
    cases hprinted : printed pyStr mode line with
    | none => simp
    | some out =>
      simp only [Prod.map_fst, Prod.map_snd, id_eq, List.forall₂_cons, Option.some.injEq,
        exists_eq_left']
      tauto

/-- **Every request is answered once.**  For every input, the loop prints exactly one response for
each request with an id, carrying that id, prints nothing for any other line and ends at the end
of the input, just when every line meets what it has to. -/
theorem answersOnce_iff (pyStr : Json → Text) (mode : McpMode) (lines : List Line) :
    AnswersOnce pyStr mode lines ↔ ∀ line ∈ lines, line.Fits mode := by
  rw [answersOnce_iff_forall]
  exact forall₂_congr fun line _ => answered_printed

/-- A request with the id 1. -/
def requestOf (method : String) (params : Json) : Json :=
  .obj [field "jsonrpc" (jsonText "2.0"), field "id" (.int 1), field "method" (jsonText method),
    field "params" params]

/-- The line of a request, with a daemon that times out while it is read. -/
def Line.ofRequest (request : Json) : Line where
  parsed := .value request
  behaviour := ⟨.raised "timed out".toList, none, false, .raised []⟩

/-- In `search-only`, a search whose answer times out ends the loop, and so do parameters that are
a list; in `all`, an answer of the daemon that is null is printed for nobody. -/
theorem answersOnce_fails :
    ¬ AnswersOnce (fun _ => []) .searchOnly
      [.ofRequest (requestOf "tools/call" (.obj [field "name" (jsonText "mempalace_search")]))] ∧
    ¬ AnswersOnce (fun _ => []) .searchOnly [.ofRequest (requestOf "initialize" (.arr [.null]))] ∧
    ¬ AnswersOnce (fun _ => []) .all [⟨.value (requestOf "tools/list" .null),
      ⟨.answer .null, none, false, .raised []⟩⟩] := by
  refine ⟨fun h => ?_, fun h => ?_, fun h => ?_⟩
  · exact absurd h.1 (by decide)
  · exact absurd h.1 (by decide)
  · obtain ⟨r, hr, -⟩ := (List.forall₂_cons.1 h.2).1
    cases hr

end PalaceDaemon.Proxy
