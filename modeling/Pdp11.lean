import Pdp11.FaultStatus
import Pdp11.TrapReturn
import Pdp11.IdleSkip
import Pdp11.Privilege
import Pdp11.FloppyRequests
import Pdp11.DiskReadiness
import Pdp11.ModelMasks
import Pdp11.BusInit
import Pdp11.ResetCanonical
import Pdp11.InstalledMemory
import Pdp11.Arbitration
import Pdp11.TapePosition
import Pdp11.TapeTransfer
import Pdp11.FloppyTransfer
import Pdp11.FloatMultiply
import Pdp11.FloatDivide
import Pdp11.FloatAdd
import Pdp11.Shifts
import Pdp11.StackLimit
import Pdp11.Relocation
import Pdp11.ControlFlags
import Pdp11.NestedFaults
import Pdp11.TraceTraps
import Pdp11.WaitState
import Pdp11.StatusStore
import Pdp11.OperandDecoders
import Pdp11.RlcsRefresh
import Pdp11.ByteWrites
import Pdp11.MultiplyDivide
import Pdp11.MarkCalls
import Pdp11.FloatSymmetry
import Pdp11.FloatCompare
import Pdp11.FloatSplit
import Pdp11.FloatIntegers
import Pdp11.PrecisionConversion
import Pdp11.DiskAddresses
import Pdp11.DiskTracks
import Pdp11.MassbusChains
import Pdp11.TimeAdvance
import Pdp11.TapeStatus
import Pdp11.TapeSpacing
import Pdp11.AbortedStores
import Pdp11.CacheHistory
import Pdp11.HashDifference
import Pdp11.UnibusMap
import Pdp11.TapeAddress
import Pdp11.TapeAppend
import Pdp11.FloatNormalize
import Pdp11.DefinedArithmetic
import Pdp11.DispatchFaults
import Pdp11.SinglePrecision
import Pdp11.Frontend.SessionRuns
import Pdp11.Frontend.DialogRuns
import Pdp11.Tools.AssemblerLayout
import Pdp11.Tools.Regress
import Pdp11.Frontend.DemoProgram
import Pdp11.Frontend.BootRom
import Pdp11.PageRegisters
import Pdp11.DiskStore
import Pdp11.EvenBusAddress
