import Spearhed.Library.StepSystem
import Spearhed.Library.Blocks
import Spearhed.Library.Dag
import Spearhed.Library.Compaction
import Spearhed.Library.Lockstep
import Spearhed.Library.SharedCursor
import Spearhed.Caravan.SubmissionDependencies
import Spearhed.Caravan.GraphTopology
import Spearhed.Caravan.GraphOperation
import Spearhed.Caravan.SubmitExpr
import Spearhed.Caravan.SubmitOperation
import Spearhed.Mpi.ManagedCollectiveLane
import Spearhed.Mpi.Context
import Spearhed.Mpi.RequestTracking
import Spearhed.Mpi.CollectiveOrder
import Spearhed.Mpi.Accounting
import Spearhed.Particles.Geometry
import Spearhed.Particles.Regions
import Spearhed.Particles.FrameDispatch
import Spearhed.Particles.NeighbourRegions
import Spearhed.Particles.RegionBounds
import Spearhed.Particles.FrameIndex
import Spearhed.Particles.FrameIndexRuns
import Spearhed.Particles.Interaction
import Spearhed.Library.AppendList
import Spearhed.Particles.FrameList
import Spearhed.Particles.InitRegions
import Spearhed.Particles.InitParticles
import Spearhed.Particles.InitParticlesRuns
import Spearhed.Particles.InitParticlesExact
import Spearhed.Particles.CopyParticlesToDynSoA
import Spearhed.Caravan.LaneAssignment
import Spearhed.Library.BooleanTerm
import Spearhed.LlamaLite.AccessSet
import Spearhed.Caravan.SharedQueuePool
import Spearhed.Caravan.SharedQueuePoolRuns
import Spearhed.Caravan.LeasePools
import Spearhed.Caravan.PooledOperation
import Spearhed.Caravan.PooledOperationRuns
import Spearhed.Library.SharedMemory
import Spearhed.Particles.InteractionKernel
import Spearhed.Particles.InteractionKernelRuns
import Spearhed.Particles.InteractParticles
import Spearhed.Particles.LaunchForEach
import Spearhed.Sph.Functors
import Spearhed.Library.PairSums
import Spearhed.Particles.PassSums
import Spearhed.Sph.Stages
import Spearhed.Sph.Conservation
import Spearhed.Library.Enumeration
import Spearhed.Library.IntArithmetic
import Spearhed.Mappings.DataSpace
import Spearhed.Mappings.AreaMapping
import Spearhed.Mappings.Mask
import Spearhed.Mappings.ExchangeMapping
import Spearhed.Communication.CommunicatorMPI
import Spearhed.Communication.GridController
import Spearhed.Communication.RankGrid
import Spearhed.LlamaLite.SubRecord
import Spearhed.LlamaLite.Storage
import Spearhed.LlamaLite.View
import Spearhed.LlamaLite.ViewChains
import Spearhed.Library.Transactions
import Spearhed.LlamaLite.DynSoA
import Spearhed.LlamaLite.DynSoAPrograms
import Spearhed.SimulationControl.Signals
import Spearhed.SimulationControl.SimulationHelper
import Spearhed.SimulationControl.SignalRounds
import Spearhed.SimulationControl.CheckpointAgreement
import Spearhed.Communication.RankTopology
import Spearhed.Library.MessageExchange
import Spearhed.Communication.Exchange
import Spearhed.Communication.ExchangeRegions
import Spearhed.Communication.HaloExchange
import Spearhed.Communication.FieldKernels
import Spearhed.Communication.FieldExchange
import Spearhed.Library.LinkedList
import Spearhed.PmaccParticles.ParticlesBox
import Spearhed.PmaccParticles.FrameSlots
import Spearhed.Particles.NeighbourRows
import Spearhed.Particles.NeighbourSearch
import Spearhed.Mpi.RequestHistory
import Spearhed.Caravan.RepeatUntil
import Spearhed.Caravan.AsyncScope
import Spearhed.Caravan.CompletionThread
import Spearhed.Caravan.EagerState
import Spearhed.Caravan.EagerContinuations
import Spearhed.Caravan.WhenAllOperation
import Spearhed.Caravan.WhenAllEvents
import Spearhed.LlamaLite.Algorithm
import Spearhed.LlamaLite.LeafAssignment
import Spearhed.LlamaLite.ValueTransfer
import Spearhed.Particles.RegionBoundsExact
import Spearhed.Particles.LaunchTogether
import Spearhed.Sph.Pusher
import Spearhed.Sph.StageRecords
import Spearhed.Sph.ReferenceStep
import Spearhed.Control.SimulationState
import Spearhed.Control.RunOneStep
import Spearhed.Control.LaunchRefinement
import Spearhed.Control.StepRefinement
import Spearhed.Control.FillSimulation
import Spearhed.Control.FillRefinement
import Spearhed.Particles.PushBack
import Spearhed.Particles.RegionBoundsKernel
import Spearhed.Library.BlockCounters
import Spearhed.PmaccParticles.IdProvider
import Spearhed.Mpi.Operations
import Spearhed.Device.ReduceKernel
import Spearhed.Device.Reduce
import Spearhed.PmaccParticles.ForEachParticle
import Spearhed.Library.TruncatedPower
import Spearhed.Sph.KernelConsistency
import Spearhed.Particles.LazyRebuild
import Spearhed.Library.IndexMap
import Spearhed.Particles.FrameIterator
import Spearhed.Particles.HierarchyForEach
import Spearhed.Particles.LaunchSchedules
import Spearhed.Control.DensitySummation
import Spearhed.Control.SoftRestarts
import Spearhed.Sph.SequentialStep
import Spearhed.Control.SequentialRefinement
import Spearhed.Device.LockstepForEach
import Spearhed.Particles.FrameLocation
import Spearhed.Caravan.RunLoop
import Spearhed.Particles.SC
import Spearhed.Control.LatticePlacement
import Spearhed.PluginSystem.TimeSlices
import Spearhed.Communication.ExchangeTags
import Spearhed.PmaccParticles.ConcatListOfFrames
import Spearhed.PmaccParticles.FillGaps
import Spearhed.PmaccParticles.FrameAppends
import Spearhed.PmaccParticles.ParticlesBase
import Spearhed.PmaccParticles.Restart
import Spearhed.Library.Pipeline
import Spearhed.Mappings.DataSpaceOperations
import Spearhed.PmaccParticles.Communication
import Spearhed.Mappings.StrideMapping
import Spearhed.PmaccParticles.MarkedParticles
import Spearhed.PmaccParticles.ShiftParticles
import Spearhed.PmaccParticles.ShiftParticlesRuns
import Spearhed.PmaccParticles.ShiftPasses
