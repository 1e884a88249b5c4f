/-
Which semaphore a tool call takes, and which lane it runs in.

`_sem_for` and `_call` read the method of a request and, if its `params` are an object, the name
of the tool and its arguments.  A tool of `_READ_TOOLS` takes a read permit, the checkpoint save
of the hooks (`_SAVE_TOOLS`) a permit of its own semaphore, and everything else, a malformed
request included, a write permit.  The lane, which has the bound on calls in flight and the
threads, is chosen by the name of the tool alone.  Some reads are answered from direct SQL before
any of that.
-/
import Mathlib.Data.Fintype.Basic
import Mathlib.Tactic.Common

namespace PalaceDaemon.Lanes

/-- The semaphores of the daemon. -/
inductive Sem
  /-- `_read_sem` -/
  | read
  /-- `_write_sem` -/
  | write
  /-- `_save_sem` -/
  | save
  /-- `_mine_sem` -/
  | mine
deriving DecidableEq, Repr

instance : Fintype Sem where
  elems := {.read, .write, .save, .mine}
  complete x := by cases x <;> decide

/-- The lanes that count their calls in flight: `_TOOL_EXECUTOR` and `_SAVE_EXECUTOR`. -/
inductive Lane
  | tool
  | save
deriving DecidableEq, Repr

/-- The `params` of a request that are an object: the tool and the keys of its arguments. -/
structure Params where
  name : String
  arguments : List String
deriving DecidableEq, Repr

/-- What the daemon reads of a JSON-RPC request before it runs it. -/
structure Request where
  method : String
  params : Option Params
deriving DecidableEq, Repr

/-- `_READ_TOOLS` -/
def readTools : List String :=
  ["mempalace_check_duplicate", "mempalace_diary_read", "mempalace_find_tunnels",
    "mempalace_follow_tunnels", "mempalace_get_aaak_spec", "mempalace_get_drawer",
    "mempalace_get_taxonomy", "mempalace_graph_stats", "mempalace_hook_settings",
    "mempalace_kg_query", "mempalace_kg_stats", "mempalace_kg_timeline",
    "mempalace_list_drawers", "mempalace_list_rooms", "mempalace_list_tags",
    "mempalace_list_tunnels", "mempalace_list_wings", "mempalace_memories_filed_away",
    "mempalace_search", "mempalace_status", "mempalace_traverse", "mempalace_walk_palace"]

/-- `_SAVE_TOOLS` -/
def saveTools : List String := ["mempalace_diary_write"]

/-- The name of the tool; it is empty when the `params` are not an object. -/
def Request.toolName (r : Request) : String := (r.params.map Params.name).getD ""

/-- `_sem_for` -/
def semFor (r : Request) : Sem :=
  if r.method = "ping" then .read
  else if r.toolName ∈ saveTools then .save
  else if r.toolName ∈ readTools then .read
  else .write

/-- `save_lane` of `_call`. -/
def Request.lane (r : Request) : Lane := if r.toolName ∈ saveTools then .save else .tool

/-- `_fast_intercept_fn` has a fast answer for the tool with these arguments. -/
def fastInterceptFn (tool : String) (arguments : List String) : Bool :=
  tool = "mempalace_status" || tool = "mempalace_kg_stats" ||
    ((tool = "mempalace_list_wings" || tool = "mempalace_get_taxonomy") && arguments.isEmpty) ||
    (tool = "mempalace_list_drawers" &&
      arguments.all fun key => decide (key ∈ ["wing", "room", "limit", "offset"]))

/-- The request is answered before the semaphores. -/
def Request.intercepted (r : Request) : Bool :=
  r.method = "tools/call" && r.params.any fun p => fastInterceptFn p.name p.arguments

lemma semFor_ne_mine (r : Request) : semFor r ≠ .mine := by
  unfold semFor
  split_ifs <;> simp

/-- A save takes a permit of the save semaphore. -/
lemma semFor_of_save {r : Request} (hlane : r.lane = .save) (hping : r.method ≠ "ping") :
    semFor r = .save := by
  have hsave : r.toolName ∈ saveTools := by
    by_contra hnot
    simp [Request.lane, hnot] at hlane
  simp [semFor, hping, hsave]

end PalaceDaemon.Lanes
