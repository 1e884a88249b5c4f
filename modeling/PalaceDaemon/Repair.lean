/-
The repair in progress.

`_repair_state` has the mode of the one repair that may be in progress at a time.  What queues
silent saves and mines, and what stops the background drainer, is a repair in progress whose
mode is `rebuild`; the other modes leave the collection where it is.
-/
import Mathlib.Tactic.Common

namespace PalaceDaemon

/-- The modes of `/repair`. -/
inductive RepairMode
  | light
  | scan
  | prune
  | rebuild
deriving DecidableEq, Repr

end PalaceDaemon
