import RlboxDynamic.Transition
import RlboxDynamic.KeyMap
import RlboxDynamic.PointerTag
import RlboxDynamic.MetaPolicy
import RlboxDynamic.MetaSandbox
import RlboxDynamic.MetaInvoke
import RlboxDynamic.MetaWorld
import RlboxDynamic.MetaSteps
import RlboxDynamic.Ownership
import RlboxDynamic.AllocationRouting
import RlboxDynamic.Dispatch
import RlboxDynamic.PointerCrossing
import RlboxDynamic.StructTranslation
import RlboxDynamic.TagAgreement
import RlboxDynamic.AdaptiveLocality
import RlboxDynamic.ScalarTransparency
import RlboxDynamic.CallbackContext
import RlboxDynamic.FfiCall
import RlboxDynamic.SeccompFilter
import RlboxDynamic.SegmentMessages
import RlboxDynamic.WorkerPool
import RlboxDynamic.FilteredCalls
import RlboxDynamic.ShimHandlers
import RlboxDynamic.RequestChannel
import RlboxDynamic.RequestReplies
import RlboxDynamic.CallbackReentry
import RlboxDynamic.FieldLayout
import RlboxDynamic.CallbackDispatch
import RlboxDynamic.CallbackArguments
import RlboxDynamic.InvokeRoundTrip
import RlboxDynamic.CallbackTables
import RlboxDynamic.CallbackMessages
import RlboxDynamic.CallbackRegistry
import RlboxDynamic.PoolDescriptors
import RlboxDynamic.PoolWiring
import RlboxDynamic.PoolOwnership
import RlboxDynamic.WorkerLifecycle
import RlboxDynamic.ForkedChildren
import RlboxDynamic.PoolInvariant
import RlboxDynamic.DescriptorKeeping
import RlboxDynamic.CallIsolation
import RlboxDynamic.CrashNotice
import RlboxDynamic.LittleEndian
import RlboxDynamic.WireJob
import RlboxDynamic.JobExchange
import RlboxDynamic.JobDelivery
import RlboxDynamic.PoolEqualsInline
import RlboxDynamic.ChildByBytes
import RlboxDynamic.StrayEnds
import RlboxDynamic.MessageFraming
import RlboxDynamic.CallbackStream
import RlboxDynamic.CallbackReplies
import RlboxDynamic.Streaks
import RlboxDynamic.PinTrigger
import RlboxDynamic.SymbolRecords
import RlboxDynamic.PinnedDispatch
import RlboxDynamic.PointerTranslation
import RlboxDynamic.CallbackRefusal
import RlboxDynamic.StructCopy
import RlboxDynamic.ChannelIsolation
import RlboxDynamic.Recreation
import RlboxDynamic.SharedHeapLock
import RlboxDynamic.TransportAgreement
import RlboxDynamic.ClassicBpf
import RlboxDynamic.FilterProgram
import RlboxDynamic.MaskRounding
import RlboxDynamic.AddressRange
import RlboxDynamic.AlignedReservation
import RlboxDynamic.OrderStatistics
import RlboxDynamic.LatencySamples
import RlboxDynamic.ByteMemory
import RlboxDynamic.BootstrapHeap
import RlboxDynamic.BootstrapRuns
import RlboxDynamic.ShimInit
import RlboxDynamic.ShimAtRest
import RlboxDynamic.PoolRefill
import RlboxDynamic.Interleaving
import RlboxDynamic.HeapShares
import RlboxDynamic.SeparatedHeaps
import RlboxDynamic.ConcurrentAllocation
import RlboxDynamic.ConcurrentCustody
import RlboxDynamic.ConcurrentRouting
import RlboxDynamic.ConcurrentEffects
import RlboxDynamic.ConcurrentAtomicity
import RlboxDynamic.SandboxRegions
import RlboxDynamic.SandboxAccounts
import RlboxDynamic.DecimalText
import RlboxDynamic.EnvironmentHandoff
import RlboxDynamic.SymbolHistory
import RlboxDynamic.PolicyContext
import RlboxDynamic.AdaptiveChoice
import RlboxDynamic.InvokeEndToEnd
import RlboxDynamic.RequestOrder
import RlboxDynamic.CopyBrackets
import RlboxDynamic.ConcurrentReads
import RlboxDynamic.ConcurrentInvoke
import RlboxDynamic.KeyedList
import RlboxDynamic.StructRegistry
import RlboxDynamic.CallbackLifetimes
