import FerroEdge.Machine.Run
import FerroEdge.Machine.Table
import FerroEdge.Machine.HashMap
import FerroEdge.WasmRuntime.Types
import FerroEdge.WasmRuntime.Epoch
import FerroEdge.WasmRuntime.Timeout
import FerroEdge.Common.Types
import FerroEdge.ControlPlane.CircuitBreaker
import FerroEdge.ControlPlane.ConnectionPool
import FerroEdge.ControlPlane.Registry
import FerroEdge.ControlPlane.State
import FerroEdge.ControlPlane.Scheduler
import FerroEdge.ControlPlane.Dispatch
import FerroEdge.ControlPlane.Handlers
import FerroEdge.ControlPlane.System
import FerroEdge.Machine.RwLock
import FerroEdge.ControlPlane.StateLock
import FerroEdge.ControlPlane.Addresses
import FerroEdge.ControlPlane.Breakers
import FerroEdge.ControlPlane.Accounting
import FerroEdge.ControlPlane.Batch
import FerroEdge.Machine.Lru
import FerroEdge.WasmRuntime.Cache
import FerroEdge.EdgeNode.Server
import FerroEdge.EdgeNode.Accounting
import FerroEdge.EdgeNode.Integrity
import FerroEdge.ControlPlane.RegistryMap
import FerroEdge.ControlPlane.ModuleDelivery
import FerroEdge.WasmRuntime.CacheSystem
import FerroEdge.WasmRuntime.CacheAccounting
import FerroEdge.WasmRuntime.CacheRefinement
import FerroEdge.EdgeNode.Cancellation
import FerroEdge.ControlPlane.HealthChecks
import FerroEdge.ControlPlane.HealthRounds
import FerroEdge.Fleet.Capacity
import FerroEdge.ControlPlane.Queue
import FerroEdge.ControlPlane.BreakerTrace
import FerroEdge.ControlPlane.RoundRobin
import FerroEdge.ControlPlane.DispatchLoop
import FerroEdge.ControlPlane.RetryBudget
import FerroEdge.ControlPlane.TriedNodes
import FerroEdge.ControlPlane.FailureCause
import FerroEdge.ControlPlane.Retries
import FerroEdge.Machine.Memory
import FerroEdge.WasmRuntime.Sandbox
import FerroEdge.WasmRuntime.TrapClassification
import FerroEdge.WasmRuntime.GuestAbi
import FerroEdge.Machine.Url
import FerroEdge.Fleet.ModuleUrls
import FerroEdge.ControlPlane.ModuleListing
import FerroEdge.Fleet.MemoryLimits
import FerroEdge.ControlPlane.BatchResults
import FerroEdge.ControlPlane.Requests
import FerroEdge.EdgeNode.Responses
import FerroEdge.Fleet.Platform
import FerroEdge.Fleet.Provenance
import FerroEdge.EdgeNode.Executions
import FerroEdge.Fleet.Attempts
import FerroEdge.Fleet.Prewarming
import FerroEdge.ControlPlane.BreakerHistory
import FerroEdge.ControlPlane.HealthLoop
import FerroEdge.EdgeNode.Admin
import FerroEdge.ControlPlane.Channels
import FerroEdge.EdgeNode.Transparency
import FerroEdge.LoadTester.Report
import FerroEdge.WasmRuntime.CacheStatistics
import FerroEdge.ControlPlane.Views
import FerroEdge.Fleet.Conservation
import FerroEdge.Fleet.Tracing
