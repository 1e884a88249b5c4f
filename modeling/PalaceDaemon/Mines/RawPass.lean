/-
A drain pass over lines that nothing has checked.

The lines of the pending file may be anything: `_drain_pending_mines` parses them at its start and
`_rebalance_claim` parses what has arrived at every mine boundary.  What is not JSON or not an
object is set aside by both.  Of an object both take the key of its target, by which an older
line is absorbed by a newer one, and its deferral counter, by which the claim is sorted; taking
either can raise.  An exception in the replay of an entry is caught there and the line is
quarantined, while one at the start or at a boundary ends the pass with `.processing` in place.

`rawPass` is a whole pass in which no file operation fails: `arrivals` are the lines found at each
boundary and `mines` the ends of the mines, both by how much of the cap was left when the entry
was taken.
-/
import PalaceDaemon.Mines.Pass
import PalaceDaemon.Mines.Raw

namespace PalaceDaemon.Mines

/-! ### The fields of an entry -/

/-- A line of the queue, by what `json.loads` makes of it. -/
inductive RawLine
  /-- `JSONDecodeError` -/
  | notJson
  /-- Another exception: an integer with too many digits, or values nested too deep. -/
  | loadsRaises
  | value (v : Json)

/-- What a target is told apart by: directory, wing and mode. -/
abbrev RawKey := Json.Key × Json.Key × Json.Key

/-- The key of a payload, once it is hashed. -/
def payloadKey (payload : Fields) : Except PyExc RawKey :=
  match (payload.get "dir" .null).key, (payload.get "wing" .null).key,
    (payload.get "mode" (text "convos")).key with
  | .ok dir, .ok wing, .ok mode => .ok (dir, wing, mode)
  | _, _, _ => .error .typeError

/-- `_dedup_key` -/
def rawDedupKey (entry : Fields) : Except PyExc RawKey :=
  match (entry.get "payload" .null).orEmpty with
  | .obj payload => payloadKey payload
  | _ => .error .attributeError

/-- `_drain_entry_priority` -/
def rawPriority (entry : Fields) : Except PyExc ℕ :=
  match rawDeferrals entry with
  | .error exc => .error exc
  | .ok n =>
      if (drainPriorityEscapeDeferrals : ℤ) ≤ n then .ok 0
      else match (entry.get "payload" .null).orEmpty with
        | .obj payload =>
            match (Fields.get payload "mode" (text "convos")).key with
            | .ok (.text mode) => .ok (if String.ofList mode ∈ drainSmallModes then 1 else 2)
            | .ok _ => .ok 2
            | .error exc => .error exc
        | _ => .error .attributeError

/-! ### The claim -/

/-- A claimed entry: as its line has it, and as the pass has changed it. -/
structure RawItem where
  source : Fields
  entry : Fields

/-- The key of a claimed entry. -/
def RawItem.key (it : RawItem) : Option RawKey := (rawDedupKey it.entry).toOption

/-- `prior["drain_deferrals"] = d` when `d` is the larger one. -/
def RawItem.raiseTo (d : ℤ) (it : RawItem) : RawItem :=
  match rawDeferrals it.entry with
  | .ok n => if n < d then { it with entry := it.entry.set "drain_deferrals" (.int d) } else it
  | .error _ => it

/-- A line that was absorbed, and the line of the entry that absorbed it. -/
structure Absorbed where
  line : Fields
  into : Fields

/-- A claim while lines are merged into it: what the pass owned before, the entries that are new
to it, and what was absorbed. -/
structure RawClaim where
  owned : List RawItem
  unique : List RawItem
  absorbed : List Absorbed

/-- The entry of a list that has the key. -/
def holder (k : RawKey) (items : List RawItem) : Option RawItem :=
  items.reverse.find? fun it => it.key = some k

/-- One entry of the key against the claim. -/
def RawClaim.add (c : RawClaim) (k : RawKey) (e : Fields) : Except PyExc RawClaim :=
  match holder k c.owned, holder k c.unique with
  | some prior, _ =>
      match rawDeferrals e, rawDeferrals prior.entry with
      | .ok d, .ok _ => .ok { c with
          owned := absorbLast RawItem.key (some k) (RawItem.raiseTo d) c.owned
          absorbed := c.absorbed ++ [⟨e, prior.source⟩] }
      | .error exc, _ => .error exc
      | _, .error exc => .error exc
  | none, some prior =>
      match rawDeferrals e, rawDeferrals prior.entry with
      | .ok d, .ok _ => .ok { c with
          unique := absorbLast RawItem.key (some k) (RawItem.raiseTo d) c.unique
          absorbed := c.absorbed ++ [⟨e, prior.source⟩] }
      | .error exc, _ => .error exc
      | _, .error exc => .error exc
  | none, none => .ok { c with unique := c.unique ++ [⟨e, e⟩] }

/-- An arrival against the claim. -/
def RawClaim.arrival (c : RawClaim) (e : Fields) : Except PyExc RawClaim :=
  match rawDedupKey e with
  | .ok k => c.add k e
  | .error exc => .error exc

/-- `_split_drain_batch`, and the cut of `_rebalance_claim`: the entries are sorted by their
priorities, which are all taken first. -/
def rawSplit (budget : ℕ) (items : List RawItem) : Except PyExc (List RawItem × List RawItem) :=
  (items.mapM fun it => rawPriority it.entry).map fun prios =>
    let parts := PrioritySplit.split Prod.snd budget (items.zip prios)
    (parts.1.map Prod.fst, parts.2.map Prod.fst)

/-- The claim at the start, with the lines that are quarantined right away. -/
abbrev RawStart := RawClaim × List RawLine

/-- The entry of a line at the start and the payload it has a key by; `AttributeError` for what
has none. -/
def startEntry : Json → Option (Fields × Fields)
  | .obj e =>
      match Fields.get e "payload" (.obj []) with
      | .obj payload => some (e, payload)
      | _ => none
  | _ => none

/-- A line of the claimed file against the lines that are newer. -/
def startLine (s : RawStart) : RawLine → Except PyExc RawStart
  | .notJson => .ok (s.1, s.2 ++ [.notJson])
  | .loadsRaises => .error .valueError
  | .value v =>
      match startEntry v with
      | none => .ok (s.1, s.2 ++ [.value v])
      | some (e, payload) =>
          match rawDeferrals e, payloadKey payload with
          | .ok _, .ok k => (s.1.add k e).map fun c => (c, s.2)
          | .error exc, _ => .error exc
          | _, .error exc => .error exc

/-- The entries of the lines that a boundary finds. -/
def parseArrivals : List RawLine → Except PyExc (List Fields)
  | [] => .ok []
  | .notJson :: lines => parseArrivals lines
  | .loadsRaises :: _ => .error .valueError
  | .value (.obj e) :: lines => (parseArrivals lines).map (e :: ·)
  | .value _ :: lines => parseArrivals lines

/-- What a boundary makes of the claim. -/
structure Rebalanced where
  keep : List RawItem
  displaced : List RawItem
  absorbed : List Absorbed

/-- The merge of `_rebalance_claim`, for a positive budget. -/
def rawRebalance (owned : List RawItem) (budget : ℕ) (arrivals : List Fields) :
    Except PyExc Rebalanced :=
  match arrivals.reverse.foldlM RawClaim.arrival ⟨owned, [], []⟩ with
  | .error exc => .error exc
  | .ok c =>
      (rawSplit budget (c.owned ++ c.unique.reverse)).map fun parts =>
        ⟨parts.1, parts.2, c.absorbed⟩

/-! ### The pass -/

/-- How a mine that was spawned ends. -/
inductive MineEnd
  | returned
  | lockHeld
  | failed
deriving DecidableEq, Repr

/-- What became of an entry that was taken. -/
inductive Fate
  | mined
  | rejected (rule : RawRejection)
  | requeued
  /-- Quarantined after its own mine. -/
  | quarantined
  /-- Quarantined because the replay raised. -/
  | raised
deriving DecidableEq, Repr

/-- A pass. -/
structure RawPass where
  /-- The lines read so far. -/
  read : List RawLine
  owned : List RawItem
  /-- `pass_deferred` -/
  held : List RawItem
  /-- The entries that were taken: the requeued ones as they go back. -/
  ended : List (RawItem × Fate)
  absorbed : List Absorbed
  /-- The lines without an entry. -/
  discarded : List RawLine
  minedState : MinedState

/-- The entries that the pass knows, by their lines. -/
def RawPass.entries (p : RawPass) : List Fields :=
  p.owned.map RawItem.source ++ p.held.map RawItem.source ++ p.ended.map (·.1.source) ++
    p.absorbed.map Absorbed.line

/-- The replay of an entry, with the mine it spawns. -/
def RawPass.take (env : Env) (mine : MineEnd) (p : RawPass) (it : RawItem) : RawPass :=
  match replay env p.minedState it.entry with
  | .error (.held _) => { p with ended := p.ended ++ [(it, .requeued)] }
  | .error (.rejected rule) => { p with ended := p.ended ++ [(it, .rejected rule)] }
  | .error (.raised _) => { p with ended := p.ended ++ [(it, .raised)] }
  | .ok job =>
      match mine with
      | .returned =>
          { p with
            ended := p.ended ++ [(it, .mined)]
            minedState := match job.preMineWitness with
              | some witness => p.minedState.set (minedStateKey job.directory job.mode)
                  ⟨witness, some env.now⟩
              | none => p.minedState }
      | .lockHeld =>
          match (it.entry.get "lock_retries" (.int 0)).toInt with
          | .error _ => { p with ended := p.ended ++ [(it, .raised)] }
          | .ok n =>
              if n + 1 ≤ lockRequeueMax then
                { p with ended := p.ended ++
                  [({ it with entry := it.entry.set "lock_retries" (.int (n + 1)) }, .requeued)] }
              else { p with ended := p.ended ++ [(it, .quarantined)] }
      | .failed => { p with ended := p.ended ++ [(it, .quarantined)] }

/-- How a pass ends. -/
inductive PassEnd
  /-- `.processing` was removed, after the entries `back` were written to the live queue. -/
  | done (p : RawPass) (back : List Fields)
  /-- An exception ended the pass, and `.processing` stays. -/
  | stopped (exc : PyExc)

/-- The end of the pass: what it holds goes back to the queue, with the requeued entries. -/
def RawPass.finish (p : RawPass) : PassEnd :=
  match p.held.mapM fun it => rawCarried it.entry with
  | .error exc => .stopped exc
  | .ok carried =>
      .done p (carried ++ (p.ended.filter (·.2 = .requeued)).map (·.1.entry))

section Loop

variable (env : ℕ → Env) (arrivals : ℕ → List RawLine) (mines : ℕ → MineEnd)

/-- The lines of a boundary that are not entries. -/
def notEntries (lines : List RawLine) : List RawLine :=
  lines.filter fun line => match line with
    | .value (.obj _) => false
    | _ => true

/-- A mine boundary with a positive budget. -/
def RawPass.boundary (budget : ℕ) (lines : List RawLine) (p : RawPass) : Except PyExc RawPass :=
  match parseArrivals lines with
  | .error exc => .error exc
  | .ok entries =>
      (rawRebalance p.owned budget entries).map fun r =>
        { p with
          read := p.read ++ lines
          owned := r.keep
          held := p.held ++ r.displaced
          absorbed := p.absorbed ++ r.absorbed
          discarded := p.discarded ++ notEntries lines }

/-- The replay loop, with `left` entries left of the cap. -/
def RawPass.loop : ℕ → RawPass → PassEnd
  | left, p =>
      match p.owned with
      | [] => p.finish
      | it :: owned =>
          let p' := { p with owned }.take (env left) (mines left) it
          match left with
          | budget + 2 =>
              match p'.boundary (budget + 1) (arrivals left) with
              | .error exc => .stopped exc
              | .ok p'' => loop (budget + 1) p''
          | _ => { p' with owned := [], held := p'.held ++ p'.owned }.finish

/-- A pass over the lines of the pending file. -/
def rawPass (cap : ℕ) (minedState : MinedState) (lines : List RawLine) : PassEnd :=
  match lines.reverse.foldlM startLine (⟨[], [], []⟩, []) with
  | .error exc => .stopped exc
  | .ok (c, failed) =>
      match rawSplit cap c.unique.reverse with
      | .error exc => .stopped exc
      | .ok (batch, deferred) =>
          RawPass.loop env arrivals mines cap
            { read := lines, owned := batch, held := deferred, ended := [],
              absorbed := c.absorbed, discarded := failed, minedState }

end Loop

end PalaceDaemon.Mines
