/-
What a drain pass decides about one entry before it spawns a mine.

The replay loop of `_drain_pending_mines` runs an entry through a sequence of checks.  Some
of them hold the entry back for a later pass (low disk, a transcript that was mined a moment
ago), some reject it for good, and an entry that passes them all becomes a `mempalace mine`
subprocess.  `gate` is that sequence, in the order of the source; everything it looks at
outside the entry is in an `Env`: the path map, the file system, the clock, the settings.

The mined-state file maps `<path>::<mode>` to the witness (size and modification time) of the
source as it was before its last successful mine.
-/
import Mathlib
import PalaceDaemon.Lib.PyText
import PalaceDaemon.Mines.Entry

namespace PalaceDaemon.Mines

/-! ### Paths -/

/-- The components of a path, as `pathlib` splits it. -/
def pathParts (p : Path) : List Path :=
  (p.splitOn '/').filter fun c => c ≠ [] ∧ c ≠ ['.']

/-- `Path.is_absolute`. -/
def isAbsolute (p : Path) : Bool := ['/'].isPrefixOf p

/-- The root that `pathlib` keeps: two leading slashes are not one. -/
def pathRoot (p : Path) : Path :=
  match p with
  | '/' :: '/' :: '/' :: _ => ['/']
  | '/' :: '/' :: _ => ['/', '/']
  | '/' :: _ => ['/']
  | _ => []

/-- `str(Path(p))`. -/
def pathStr (p : Path) : Path :=
  match pathRoot p ++ ['/'].intercalate (pathParts p) with
  | [] => ['.']
  | s => s

/-- `str.lower` on a suffix.  Besides the Latin capitals only the Kelvin sign lowers to an
ASCII letter. -/
def lowerChar (c : Char) : Char := if c = '\u212A' then 'k' else c.toLower

/-- `Path.suffix.lower()`: from the last dot of the name, when there is something before it
and after it. -/
def pathSuffix (p : Path) : Path :=
  let name := (pathParts p).getLastD []
  let ext := (name.reverse.takeWhile (· ≠ '.')).reverse
  if ext ≠ [] ∧ ext.length + 1 < name.length then ('.' :: ext).map lowerChar else []

/-- `_translate_client_path`: the first entry of the path map whose client prefix the path
starts with is replaced by its daemon prefix. -/
def translateClientPath (pathMap : List (Path × Path)) (path : Path) : Path :=
  match pathMap.find? fun pair => pair.1.isPrefixOf path with
  | none => path
  | some (clientPrefix, daemonPrefix) =>
      (daemonPrefix.reverse.dropWhile (· = '/')).reverse ++
        '/' :: (path.drop clientPrefix.length).dropWhile (· = '/')

/-- `fnmatch` on a pattern whose only wildcard is `*`, which also crosses separators. -/
def fnmatch : List Char → List Char → Bool
  | [], s => s.isEmpty
  | c :: ps, s =>
      if c = '*' then s.tails.any (fnmatch ps)
      else match s with
        | [] => false
        | d :: s' => c == d && fnmatch ps s'

/-! ### The surroundings of a pass -/

/-- What `stat` finds at a path. -/
inductive Node
  | dir
  | file (bytes : List UInt8) (mtime : ℤ)
  | other
deriving DecidableEq, Repr

/-- What the checks read besides the entry.  Times count ticks of the clock, sizes bytes. -/
structure Env where
  /-- `PALACE_DAEMON_PATH_MAP`, parsed. -/
  pathMap : List (Path × Path)
  fs : Path → Option Node
  /-- The suffixes the miner reads as text. -/
  mineableTextSuffixes : List Path
  /-- `PALACE_MINE_MIN_FREE_GB` as a number of bytes. -/
  mineMinFree : ℤ
  /-- The free space of the candidate file systems, in the order they are asked. -/
  statvfs : List (Option ℤ)
  /-- `PALACE_MINE_MIN_INTERVAL_S`. -/
  mineMinInterval : ℤ
  now : ℤ
  /-- The second that names a quarantine file. -/
  stamp : ℕ
  /-- `_miner_cap`: the largest file the miner reads. -/
  minerCap : Path → Option ℕ
  /-- The number in `MEMPALACE_DRAIN_BATCH`. -/
  drainBatch : Option ℤ

/-- `_mine_disk_floor_problem`: the free space of the first file system that answers, when it
is below the floor.  A floor of zero turns the check off. -/
def mineDiskFloorProblem (env : Env) : Option ℤ :=
  if env.mineMinFree ≤ 0 then none
  else match env.statvfs.reduceOption with
    | [] => none
    | free :: _ => if free < env.mineMinFree then some free else none

/-! ### Whether a path may be mined -/

/-- `_MINE_VALID_MODES`. -/
def mineValidModes : List String := ["convos", "projects", "session"]

/-- `_MINE_VALID_EXTRACTS`. -/
def mineValidExtracts : List String := ["exchange", "general"]

/-- `_TRANSCRIPT_MODES`. -/
def transcriptModes : List String := ["convos", "session"]

/-- `_MINE_MAX_SINGLE_FILE_BYTES`. -/
def mineMaxSingleFileBytes : ℕ := 50 * 1024 * 1024

/-- Why a path may not be mined. -/
inductive PathProblem
  /-- Not a directory or a regular file. -/
  | notFileOrDir
  /-- The mode takes a directory or a single `.jsonl` transcript. -/
  | notTranscript (mode : String) (suffix : Path)
  /-- Projects mode files a `.jsonl` as prose. -/
  | transcriptInProjects
  /-- Not a text extension the miner reads. -/
  | notText (suffix : Path)
  /-- Above the limit for a single file. -/
  | tooLarge (size : ℕ)
deriving DecidableEq, Repr

def jsonlSuffix : Path := ".jsonl".toList

/-- `_mineable_path_problem`. -/
def mineablePathProblem (env : Env) (path : Path) (mode : String) : Option PathProblem :=
  match env.fs (pathStr path) with
  | some .dir => none
  | some (.file bytes _) =>
      let suffix := pathSuffix path
      if mode ≠ "projects" then
        if suffix = jsonlSuffix then none else some (.notTranscript mode suffix)
      else if suffix = jsonlSuffix then some .transcriptInProjects
      else if suffix ∉ env.mineableTextSuffixes then some (.notText suffix)
      else if mineMaxSingleFileBytes < bytes.length then some (.tooLarge bytes.length)
      else none
  | _ => some .notFileOrDir

/-- `_instruments.transcript_over_cap`: the size of a regular file the miner would skip. -/
def transcriptOverCap (env : Env) (directory : Path) : Option (ℕ × ℕ) :=
  match env.fs directory, env.minerCap directory with
  | some (.file bytes _), some cap => if bytes.length ≤ cap then none else some (bytes.length, cap)
  | _, _ => none

/-! ### The mined-state file -/

/-- What the mined-state file keeps for a source: its witness before the last successful mine,
and when that mine ended. -/
structure Witness where
  mtime : ℤ
  size : ℕ
deriving DecidableEq, Repr

structure Mined where
  witness : Witness
  minedAt : Option ℤ
deriving DecidableEq, Repr

/-- The mined-state file, decoded: a dictionary, so no key occurs twice. -/
abbrev MinedState := List (Path × Mined)

/-- `_MINED_STATE_MAX_ENTRIES`. -/
def minedStateMaxEntries : ℕ := 2000

/-- `_mined_state_key`. -/
def minedStateKey (directory : Path) (mode : String) : Path :=
  directory ++ "::".toList ++ mode.toList

/-- `key.rsplit("::", 1)[0]`. -/
def minedStateSource (key : Path) : Path :=
  match key.reverse.tails.find? fun s => [':', ':'].isPrefixOf s with
  | some s => (s.drop 2).reverse
  | none => key

/-- `_prune_mined_state`: past the bound, entries whose file is gone go first, then the ones
with the oldest recorded modification times. -/
def pruneMinedState (env : Env) (state : MinedState) : MinedState :=
  if state.length ≤ minedStateMaxEntries then state
  else
    let alive := state.filter fun kv => (env.fs (minedStateSource kv.1)).isSome
    if alive.length ≤ minedStateMaxEntries then alive
    else (alive.insertionSort fun a b => a.2.witness.mtime ≤ b.2.witness.mtime).drop
      (alive.length - minedStateMaxEntries)

/-- `state.get(key)`. -/
def MinedState.get (state : MinedState) (key : Path) : Option Mined :=
  (state.find? fun kv => kv.1 = key).map Prod.snd

/-- `state[key] = value`. -/
def MinedState.set (state : MinedState) (key : Path) (value : Mined) : MinedState :=
  if state.any fun kv => kv.1 = key then
    state.map fun kv => if kv.1 = key then (key, value) else kv
  else state ++ [(key, value)]

/-- `_source_witness`: only a regular file has one. -/
def sourceWitness (env : Env) (directory : Path) : Option Witness :=
  match env.fs directory with
  | some (.file bytes mtime) => some ⟨mtime, bytes.length⟩
  | _ => none

/-- `_drain_should_skip_unchanged`. -/
def drainShouldSkipUnchanged (env : Env) (directory : Path) (mode : String)
    (state : MinedState) : Bool :=
  match sourceWitness env directory, state.get (minedStateKey directory mode) with
  | some witness, some recorded => recorded.witness = witness
  | _, _ => false

/-- `_drain_recently_mined`: how long the transcript has to wait. -/
def drainRecentlyMined (env : Env) (directory : Path) (mode : String)
    (state : MinedState) : Option ℤ :=
  if mode ∉ transcriptModes then none
  else if env.mineMinInterval ≤ 0 then none
  else match (state.get (minedStateKey directory mode)).bind Mined.minedAt with
    | none => none
    | some at' =>
        let wait := env.mineMinInterval - (env.now - at')
        if 0 < wait then some wait else none

/-! ### The checks of a replay -/

/-- `_MEMORY_SWEEP_GLOB`. -/
def memorySweepGlob : List Char := "*/.claude/projects/*/memory".toList

/-- `_tunnels_for_target`: what was asked for, or else no rebuild for a single file and for a
sweep of a memory directory. -/
def tunnelsForTarget (env : Env) (path : Path) (requested : Option Bool) : Bool :=
  match requested with
  | some b => b
  | none =>
      match env.fs (pathStr path) with
      | some (.file _ _) => false
      | _ => !fnmatch memorySweepGlob ((pathStr path).reverse.dropWhile (· = '/')).reverse

/-- Why an entry is put back for a later pass without being replayed. -/
inductive Hold
  | lowDisk (free : ℤ)
  | recentlyMined (wait : ℤ)
deriving DecidableEq, Repr

/-- The rejection rules: why an entry is skipped for good. -/
inductive Rejection
  | invalidDir
  | pathShape
  | invalidMode
  | notMineable (problem : PathProblem)
  | unchanged
  | invalidExtract
  | overCap (size cap : ℕ)
deriving DecidableEq, Repr

/-- A `mempalace mine` subprocess: its arguments, and the witness of the source taken right
before it is spawned. -/
structure Job where
  directory : Path
  mode : String
  wing : String
  extract : Option String
  limit : Option ℤ
  tunnels : Bool
  preMineWitness : Option Witness
deriving DecidableEq, Repr

/-- The arguments after the program name. -/
def Job.cmd (job : Job) : List (List Char) :=
  ["mine".toList, job.directory, "--mode".toList, job.mode.toList, "--wing".toList,
    job.wing.toList] ++
  (match job.extract with
    | some e => if e = "" then [] else ["--extract".toList, e.toList]
    | none => []) ++
  (match job.limit with
    | some n => if n = 0 then [] else ["--limit".toList, (toString n).toList]
    | none => []) ++
  (if job.tunnels then [] else ["--no-tunnels".toList])

/-- What becomes of an entry that the loop has taken. -/
inductive Verdict
  | hold (why : Hold)
  | reject (rule : Rejection)
  | spawn (job : Job)
deriving DecidableEq, Repr

/-- The checks of the replay loop, in the order of the source. -/
def gate (env : Env) (minedState : MinedState) (entry : Entry) : Verdict :=
  match mineDiskFloorProblem env with
  | some free => .hold (.lowDisk free)
  | none =>
    let payload := entry.payload
    if payload.dir = [] then .reject .invalidDir
    else
      let directory := translateClientPath env.pathMap payload.dir
      if ¬ isAbsolute directory ∨ ['.', '.'] ∈ pathParts directory then .reject .pathShape
      else if payload.mode ∉ mineValidModes then .reject .invalidMode
      else match mineablePathProblem env directory payload.mode with
        | some problem => .reject (.notMineable problem)
        | none =>
          if drainShouldSkipUnchanged env directory payload.mode minedState then
            .reject .unchanged
          else match drainRecentlyMined env directory payload.mode minedState with
            | some wait => .hold (.recentlyMined wait)
            | none =>
              if payload.extract.any (· ∉ mineValidExtracts) then .reject .invalidExtract
              else match (if payload.mode ∈ transcriptModes then transcriptOverCap env directory
                  else none) with
                | some (size, cap) => .reject (.overCap size cap)
                | none => .spawn
                  { directory, mode := payload.mode, wing := payload.wing,
                    extract := payload.extract, limit := payload.limit,
                    tunnels := tunnelsForTarget env directory payload.tunnels,
                    preMineWitness := sourceWitness env directory }

end PalaceDaemon.Mines
