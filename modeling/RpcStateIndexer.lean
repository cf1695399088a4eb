import RpcStateIndexer.Reasoning.Program
import RpcStateIndexer.Reasoning.Concurrent
import RpcStateIndexer.Reasoning.Tiling
import RpcStateIndexer.Evm.Json
import RpcStateIndexer.Discovery.Log
import RpcStateIndexer.Discovery.Coverage
import RpcStateIndexer.Discovery.Contract
import RpcStateIndexer.Discovery.Reconfiguration
import RpcStateIndexer.Census.Cancellation
import RpcStateIndexer.Census.RunnerSimulation
import RpcStateIndexer.Anchors.Contract
import RpcStateIndexer.Anchors.Immutability
import RpcStateIndexer.Execution.MulticallContract
import RpcStateIndexer.Execution.Transports
import RpcStateIndexer.Operations.WriterExclusion
import RpcStateIndexer.Rpc.EndpointHealth
import RpcStateIndexer.Storage.MigrationsCorrect
import RpcStateIndexer.Collectors.BatchIndependence
import RpcStateIndexer.Universes.ResolverCorrect
import RpcStateIndexer.Universes.Walkers
import RpcStateIndexer.Collectors.TickEnumeration
import RpcStateIndexer.Compute.ClProfileContract
import RpcStateIndexer.Compute.Convergence
import RpcStateIndexer.Compute.SourceWait
import RpcStateIndexer.Sweep.Contract
import RpcStateIndexer.Execution.BatchDecoding
import RpcStateIndexer.Collectors.HolderSum
import RpcStateIndexer.Collectors.SupplyReconciliation
import RpcStateIndexer.Collectors.ScaledReconciliation
import RpcStateIndexer.Collectors.RevertObservation
import RpcStateIndexer.Execution.LoopCancellation
import RpcStateIndexer.Execution.MulticallExclusion
import RpcStateIndexer.Discovery.CoverageCorrect
import RpcStateIndexer.Evm.Returndata
import RpcStateIndexer.Evm.SignExtension
import RpcStateIndexer.Evm.BalancerDecoding
import RpcStateIndexer.Evm.MetadataDecoding
import RpcStateIndexer.Storage.StatementSplitting
import RpcStateIndexer.Discovery.FailureAccounting
import RpcStateIndexer.Sweep.RangeAccounting
import RpcStateIndexer.Discovery.RequestBound
import RpcStateIndexer.Execution.CodeCache
import RpcStateIndexer.Catalog.AssembleCorrect
import RpcStateIndexer.Catalog.Incremental
import RpcStateIndexer.Census.Completion
import RpcStateIndexer.Census.PublishedTargets
import RpcStateIndexer.Collectors.Metadata
import RpcStateIndexer.Operations.CensusCall
import RpcStateIndexer.Operations.CensusCallCorrect
import RpcStateIndexer.Operations.CensusDiscovery
import RpcStateIndexer.Operations.CensusResume
import RpcStateIndexer.Operations.CensusUniverse
