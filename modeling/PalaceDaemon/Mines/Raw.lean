/-
A line of the mine queue as the drain pass reads it.

A line is the text of a JSON object, and the pass takes the fields it needs from it with
`dict.get` and the defaults of the source; nothing has checked their types.  `replay` is what
the replay loop decides about such an entry: it holds it back, rejects it, raises, or spawns a
mine.  For the entries that `POST /mine` writes the fields have their types, and `replay` is
`gate` on the entry they are the fields of (`replay_of_encodes`).
-/
import PalaceDaemon.Lib.PyValue
import PalaceDaemon.Lib.JsonText
import PalaceDaemon.Mines.Gate

namespace PalaceDaemon.Mines

/-- The fields of a JSON object. -/
abbrev Fields := List (Path × Json)

/-- `fields.get(key, default)` -/
def Fields.get (fields : Fields) (key : String) (default : Json) : Json :=
  (Json.lookup key.toList fields).getD default

/-- A text as a JSON value. -/
def text (s : String) : Json := .str s.toList

/-! ### The bookkeeping fields -/

/-- `int(entry.get("drain_deferrals", 0) or 0)` -/
def rawDeferrals (entry : Fields) : Except PyExc ℤ :=
  (entry.get "drain_deferrals" (.int 0)).orZero.toInt

/-- The entry with the field set. -/
def Fields.set (entry : Fields) (key : String) (value : Json) : Fields :=
  Json.set key.toList value entry

lemma get_set_self (entry : Fields) (key : String) (value default : Json) :
    (entry.set key value).get key default = value := by
  rw [Fields.get, Fields.set, Json.lookup_set_self]
  rfl

lemma get_set_of_ne {entry : Fields} {key key' : String} (h : key'.toList ≠ key.toList)
    (value default : Json) :
    (entry.set key value).get key' default = entry.get key' default := by
  rw [Fields.get, Fields.set, Json.lookup_set_of_ne h]
  rfl

/-- The entry that `_defer_entries` writes. -/
def rawCarried (entry : Fields) : Except PyExc Fields :=
  (rawDeferrals entry).map fun n => entry.set "drain_deferrals" (.int (n + 1))

/-- The entry after a replay that found the palace lock held. -/
def rawLockRetried (entry : Fields) : Except PyExc Fields :=
  (entry.get "lock_retries" (.int 0)).toInt.map fun n => entry.set "lock_retries" (.int (n + 1))

/-! ### The replay -/

/-- Why an entry is skipped for good: a rule, or a limit that is not a number. -/
inductive RawRejection
  | rule (rule : Rejection)
  | invalidLimit
deriving DecidableEq, Repr

/-- Why an entry is not mined. -/
inductive Stop
  | held (why : Hold)
  | rejected (rule : RawRejection)
  /-- An exception, which the loop answers by quarantining the line. -/
  | raised (exc : PyExc)
deriving DecidableEq, Repr

/-- The payload and its `dir`. -/
def replayDir (entry : Fields) : Except Stop (Fields × Path) :=
  match Json.lookup "payload".toList entry with
  | none => .error (.raised .keyError)
  | some (.obj payload) =>
      match Fields.get payload "dir" .null with
      | .str (c :: cs) => .ok (payload, c :: cs)
      | _ => .error (.rejected (.rule .invalidDir))
  | some _ => .error (.raised .attributeError)

/-- A value that has to be one of a set of texts. -/
def memberOf (valid : List String) (rule : Rejection) : Json → Except Stop String
  | .str s =>
      if String.ofList s ∈ valid then .ok (String.ofList s) else .error (.rejected (.rule rule))
  | .arr _ => .error (.raised .typeError)
  | .obj _ => .error (.raised .typeError)
  | _ => .error (.rejected (.rule rule))

/-- The `extract` of a payload: absent, or one of the valid ones. -/
def replayExtract (payload : Fields) : Except Stop (Option String) :=
  match payload.get "extract" .null with
  | .null => .ok none
  | value => (memberOf mineValidExtracts .invalidExtract value).map some

/-- The `limit` of a payload: absent, or something that `int` takes. -/
def replayLimit (payload : Fields) : Except Stop (Option ℤ) :=
  match payload.get "limit" .null with
  | .null => .ok none
  | value =>
      match value.toInt with
      | .ok n => .ok (some n)
      | .error .typeError => .error (.rejected .invalidLimit)
      | .error .valueError => .error (.rejected .invalidLimit)
      | .error exc => .error (.raised exc)

/-- The `tunnels` of a payload: absent, or taken for true or false. -/
def replayTunnels (payload : Fields) : Option Bool :=
  match payload.get "tunnels" .null with
  | .null => none
  | value => some value.truthy

/-- The `wing` of a payload, as an argument of a subprocess: a text, without the character that
would end it. -/
def replayWing (payload : Fields) : Except Stop String :=
  match payload.get "wing" (text "general") with
  | .str s => if '\x00' ∈ s then .error (.raised .valueError) else .ok (String.ofList s)
  | _ => .error (.raised .typeError)

/-- What the replay loop decides about an entry, up to the spawn. -/
def replay (env : Env) (minedState : MinedState) (entry : Fields) : Except Stop Job :=
  match mineDiskFloorProblem env with
  | some free => .error (.held (.lowDisk free))
  | none =>
    match replayDir entry with
    | .error stop => .error stop
    | .ok (payload, rawDir) =>
      let directory := translateClientPath env.pathMap rawDir
      if ¬ isAbsolute directory ∨ ['.', '.'] ∈ pathParts directory then
        .error (.rejected (.rule .pathShape))
      else match memberOf mineValidModes .invalidMode (payload.get "mode" (text "convos")) with
      | .error stop => .error stop
      | .ok mode =>
        match mineablePathProblem env directory mode with
        | some problem => .error (.rejected (.rule (.notMineable problem)))
        | none =>
          if drainShouldSkipUnchanged env directory mode minedState then
            .error (.rejected (.rule .unchanged))
          else match drainRecentlyMined env directory mode minedState with
          | some wait => .error (.held (.recentlyMined wait))
          | none =>
            match replayExtract payload, replayLimit payload with
            | .error stop, _ => .error stop
            | .ok _, .error stop => .error stop
            | .ok extract, .ok limit =>
              match (if mode ∈ transcriptModes then transcriptOverCap env directory else none) with
              | some (size, cap) => .error (.rejected (.rule (.overCap size cap)))
              | none =>
                match replayWing payload with
                | .error stop => .error stop
                | .ok wing => .ok
                  { directory, mode, wing, extract, limit,
                    tunnels := tunnelsForTarget env directory (replayTunnels payload),
                    preMineWitness := sourceWitness env directory }

/-! ### The entries that `POST /mine` writes -/

/-- An optional text as a JSON value. -/
def optText : Option String → Json
  | none => .null
  | some s => text s

/-- An optional integer as a JSON value. -/
def optInt : Option ℤ → Json
  | none => .null
  | some n => .int n

/-- An optional boolean as a JSON value. -/
def optBool : Option Bool → Json
  | none => .null
  | some b => .bool b

/-- The fields of a payload. -/
def Payload.toFields (p : Payload) : Fields :=
  [("dir".toList, .str p.dir), ("wing".toList, text p.wing), ("mode".toList, text p.mode),
    ("extract".toList, optText p.extract), ("limit".toList, optInt p.limit),
    ("tunnels".toList, optBool p.tunnels)]

/-- The object has the payload of an entry. -/
def HasPayload (entry : Fields) (p : Payload) : Prop :=
  Json.lookup "payload".toList entry = some (.obj p.toFields)

/-- What the loop does with the verdict of `gate`. -/
def Verdict.outcome : Verdict → Except Stop Job
  | .hold why => .error (.held why)
  | .reject rule => .error (.rejected (.rule rule))
  | .spawn job => .ok job

variable {env : Env} {minedState : MinedState} {entry : Fields} {e : Entry}

@[simp] lemma get_dir (p : Payload) (d : Json) : p.toFields.get "dir" d = .str p.dir := rfl

@[simp] lemma get_wing (p : Payload) (d : Json) : p.toFields.get "wing" d = text p.wing := rfl

@[simp] lemma get_mode (p : Payload) (d : Json) : p.toFields.get "mode" d = text p.mode := rfl

@[simp] lemma get_extract (p : Payload) (d : Json) :
    p.toFields.get "extract" d = optText p.extract := rfl

@[simp] lemma get_limit (p : Payload) (d : Json) : p.toFields.get "limit" d = optInt p.limit := rfl

@[simp] lemma get_tunnels (p : Payload) (d : Json) :
    p.toFields.get "tunnels" d = optBool p.tunnels := rfl

lemma memberOf_text (valid : List String) (rule : Rejection) (s : String) :
    memberOf valid rule (text s) =
      if s ∈ valid then .ok s else .error (.rejected (.rule rule)) := by
  simp [memberOf, text]

lemma replayExtract_toFields (p : Payload) : replayExtract p.toFields =
    if p.extract.any (· ∉ mineValidExtracts) then .error (.rejected (.rule .invalidExtract))
    else .ok p.extract := by
  rw [replayExtract, get_extract]
  cases p.extract with
  | none => rfl
  | some s =>
      show (memberOf mineValidExtracts .invalidExtract (text s)).map some = _
      rw [memberOf_text]
      by_cases hs : s ∈ mineValidExtracts <;> simp [hs, Except.map]

lemma replayLimit_toFields (p : Payload) : replayLimit p.toFields = .ok p.limit := by
  rw [replayLimit, get_limit]
  cases p.limit <;> rfl

lemma replayTunnels_toFields (p : Payload) : replayTunnels p.toFields = p.tunnels := by
  rw [replayTunnels, get_tunnels]
  cases p.tunnels <;> rfl

lemma replayWing_toFields {p : Payload} (h : '\x00' ∉ p.wing.toList) :
    replayWing p.toFields = .ok p.wing := by
  simp [replayWing, text, h]

/-- **On an entry that `POST /mine` wrote, the replay decides what `gate` does.** -/
theorem replay_of_hasPayload (h : HasPayload entry e.payload)
    (hwing : '\x00' ∉ e.payload.wing.toList) :
    replay env minedState entry = (gate env minedState e).outcome := by
  have hdir : replayDir entry = if e.payload.dir = [] then .error (.rejected (.rule .invalidDir))
      else .ok (e.payload.toFields, e.payload.dir) := by
    rw [replayDir, h]
    simp only [get_dir]
    cases e.payload.dir <;> rfl
  rw [replay, gate, hdir]
  cases mineDiskFloorProblem env with
  | some free => rfl
  | none =>
      simp only
      by_cases hempty : e.payload.dir = []
      · rw [if_pos hempty, if_pos hempty]
        rfl
      · rw [if_neg hempty, if_neg hempty]
        simp only [get_mode, memberOf_text, replayExtract_toFields, replayLimit_toFields,
          replayTunnels_toFields, replayWing_toFields hwing]
        generalize translateClientPath env.pathMap e.payload.dir = directory
        by_cases hshape : ¬ isAbsolute directory = true ∨ ['.', '.'] ∈ pathParts directory
        · rw [if_pos hshape, if_pos hshape]
          rfl
        rw [if_neg hshape, if_neg hshape]
        by_cases hmode : e.payload.mode ∈ mineValidModes
        · rw [if_pos hmode, if_neg (not_not.2 hmode)]
          simp only
          cases mineablePathProblem env directory e.payload.mode with
          | some problem => rfl
          | none =>
              simp only
              by_cases hskip : drainShouldSkipUnchanged env directory e.payload.mode minedState
              · rw [if_pos hskip, if_pos hskip]
                rfl
              rw [if_neg hskip, if_neg hskip]
              cases drainRecentlyMined env directory e.payload.mode minedState with
              | some wait => rfl
              | none =>
                  simp only
                  by_cases hextract : e.payload.extract.any (· ∉ mineValidExtracts) = true
                  · rw [if_pos hextract, if_pos hextract]
                    rfl
                  rw [if_neg hextract, if_neg hextract]
                  simp only
                  rcases (if e.payload.mode ∈ transcriptModes then transcriptOverCap env directory
                    else none) with _ | ⟨size, cap⟩ <;> rfl
        · rw [if_neg hmode, if_pos hmode]
          rfl

end PalaceDaemon.Mines
