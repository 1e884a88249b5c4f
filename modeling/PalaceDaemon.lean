import PalaceDaemon.Mines.SinglePass
import PalaceDaemon.Mines.Attendance
import PalaceDaemon.Mines.Bookkeeping
import PalaceDaemon.Mines.Pause
import PalaceDaemon.Writes.Kept
import PalaceDaemon.Lanes.SilentSaves
import PalaceDaemon.Lanes.Deadlock
import PalaceDaemon.Lanes.Client
import PalaceDaemon.Migration.Coverage
import PalaceDaemon.Wings
import PalaceDaemon.Window.Walk
import PalaceDaemon.Bench.Refcount
import PalaceDaemon.Cypher.Unchanged
import PalaceDaemon.Mines.Order
import PalaceDaemon.Hook.Ingest
import PalaceDaemon.Proxy.Answers
import PalaceDaemon.Proxy.Doors
import PalaceDaemon.Mines.Direct
import PalaceDaemon.Mines.Malformed
import PalaceDaemon.Mines.Faults
import PalaceDaemon.Hook.Replays
import PalaceDaemon.Repair.Handler
import PalaceDaemon.Mines.Starvation
import PalaceDaemon.Status.Snapshot
import PalaceDaemon.Status.Source
import PalaceDaemon.Rooms.Filter
import PalaceDaemon.Novelty
import PalaceDaemon.Quarantine
import PalaceDaemon.Mines.Newest
import PalaceDaemon.Search.Rerank
import PalaceDaemon.Search.Fusion
import PalaceDaemon.Search.Listing
import PalaceDaemon.Auth
import PalaceDaemon.CrashLoop
import PalaceDaemon.ApiKey
import PalaceDaemon.PathMap
import PalaceDaemon.KgStats
import PalaceDaemon.Window.Prefilter
import PalaceDaemon.Status.Counts
import PalaceDaemon.Repair.Progress
import PalaceDaemon.Status.KgStatsRuns
import PalaceDaemon.Watcher
import PalaceDaemon.Cypher.Frame
import PalaceDaemon.Hook.Stop
import PalaceDaemon.Hook.Wake
import PalaceDaemon.Health.Ready
import PalaceDaemon.Backfill
import PalaceDaemon.Hook.Log
import PalaceDaemon.Watchdog
