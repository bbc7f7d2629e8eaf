import Comulator.Types
import Comulator.Ir
import Comulator.Module
import Comulator.TypeHash
import Comulator.Fallible
import Comulator.DepthWalk
import Comulator.QlibTable
import Comulator.FcpPages
import Comulator.QlibCalls
import Comulator.GuestRt
import Comulator.QlibLifecycle
import Comulator.AlignDown
import Comulator.Cpu
import Comulator.CpuLoop
import Comulator.HostSwitch
import Comulator.Signals
import Comulator.Threads
import Comulator.ContextSwitch
import Comulator.OrderedMap
import Comulator.Symtbl
import Comulator.Analyze
import Comulator.AnalyzeSpec
import Comulator.HostIr
import Comulator.IrMap
import Comulator.TakeOut
import Comulator.BlockWalk
import Comulator.WalkRun
import Comulator.ChopOff
import Comulator.HostTable
import Comulator.AnalyzeExits
import Comulator.Lookups
import Comulator.Exec
import Comulator.Simulation
import Comulator.SharedDisk
import Comulator.Approximation
import Comulator.Compose
import Comulator.CallbackRun
import Comulator.OperandRun
import Comulator.InstRun
import Comulator.BodyRun
import Comulator.EntryRun
import Comulator.GeneratedRun
import Comulator.SymtblSpec
import Comulator.CallbackStubs
import Comulator.HashSpec
import Comulator.GuestSymbols
import Comulator.SelfContained
import Comulator.OperandEnds
import Comulator.CalleeList
import Comulator.FcpPrefix
import Comulator.FcpGuard
import Comulator.Outline
import Comulator.SymtblJson
import Comulator.SymtblLoad
import Comulator.StubRun
import Comulator.CallerRun
import Comulator.Visible
import Comulator.Offloading
import Comulator.Preservation
import Comulator.FastCalls
import Comulator.Lockstep
import Comulator.Transparent
import Comulator.Offloadable
import Comulator.OutlineValid
import Comulator.PickUp
import Comulator.FirstSeen
import Comulator.Numbering
import Comulator.LayoutFree
import Comulator.Accounts
import Comulator.Treatment
import Comulator.Pipelines
import Comulator.ConstExpand
import Comulator.Bundles
import Comulator.Replacement
import Comulator.PhiValid
import Comulator.ChopFrame
import Comulator.ConfigJson
import Comulator.GlobHash
import Comulator.CallCopy
import Comulator.FcpCmSplit
import Comulator.WalkBody
import Comulator.WalkResult
import Comulator.WalkShape
import Comulator.BodyTranslates
import Comulator.BodyRewrite
import Comulator.ExecApprox
import Comulator.OutlineRun
import Comulator.CrossCalls
import Comulator.CrossRun
import Comulator.CrossBody
import Comulator.CrossLevels
import Comulator.CrossPreserve
import Comulator.LtoPass
import Comulator.LtoRun
import Comulator.Hqlibs
import Comulator.CallStack
import Comulator.Mock
import Comulator.BwListJson
