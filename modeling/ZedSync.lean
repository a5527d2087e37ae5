import ZedSync.AppLifecycle
import ZedSync.Clients
import ZedSync.ClockRuns
import ZedSync.Dart.AckedRows
import ZedSync.Devices
import ZedSync.Flushers
import ZedSync.HlcEncoding
import ZedSync.Js.BackendStream
import ZedSync.Js.ConcurrentDelivery
import ZedSync.Js.ConflictPolicies
import ZedSync.Js.Convergence
import ZedSync.Js.Decode
import ZedSync.Js.DirtyRows
import ZedSync.Js.EchoAck
import ZedSync.Js.Fencing
import ZedSync.Js.FlushDrain
import ZedSync.Js.IndexedDb
import ZedSync.Js.LeaseAcquire
import ZedSync.Js.LeaseExpiry
import ZedSync.Js.MergeRace
import ZedSync.Js.SendOrder
import ZedSync.Js.SessionCleanup
import ZedSync.Js.SessionConnectivity
import ZedSync.Js.SessionReconcile
import ZedSync.Js.SnapshotValidator
import ZedSync.Js.StopSession
import ZedSync.Js.WriteRefinement
import ZedSync.LifecyclePorts
import ZedSync.LifecycleObservers
import ZedSync.MergeLaws
import ZedSync.Transports
import ZedSync.Postgres.CatchUp
import ZedSync.Postgres.Fence
import ZedSync.Postgres.Attach
import ZedSync.Postgres.Prune
import ZedSync.Postgres.Replicas
import ZedSync.QueueSlot
import ZedSync.ServerFirst
import ZedSync.Settlement
import ZedSync.Wasm
import ZedSync.WriteModel
import ZedSync.Js.NoLostWrites
import ZedSync.Dart.FlushQueue
import ZedSync.Dart.Session
