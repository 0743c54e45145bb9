import ProjectMu.ByteRange
import ProjectMu.ByteCodec
import ProjectMu.TwoCopy
import ProjectMu.CrashLogic
import ProjectMu.SlotSwitch
import ProjectMu.SlotSwitchApart
import ProjectMu.SlotSwitchShared
import ProjectMu.BoundedTable
import ProjectMu.PositionedFile
import ProjectMu.PrefixCode
import ProjectMu.IntervalGaps
import ProjectMu.LazyRing
import ProjectMu.RingQueue
import ProjectMu.GptFormat
import ProjectMu.GptLoad
import ProjectMu.GptAccepted
import ProjectMu.GptLayout
import ProjectMu.GptGeometry
import ProjectMu.GptCommit
import ProjectMu.GptCommitRefine
import ProjectMu.GptCommitRun
import ProjectMu.GptCommitLoop
import ProjectMu.GptNames
import ProjectMu.GptPairs
import ProjectMu.GptEntries
import ProjectMu.GptSwitchPair
import ProjectMu.GptSwitchAll
import ProjectMu.GptActivePairs
import ProjectMu.GptSwitchEffect
import ProjectMu.GptStaleSlots
import ProjectMu.GptDetect
import ProjectMu.GptSwitchBack
import ProjectMu.GptCrash
import ProjectMu.GptReload
import ProjectMu.SwitchSlot
import ProjectMu.SwitchSlotRollback
import ProjectMu.SwitchSlotOutcome
import ProjectMu.SwitchSlotAtomic
import ProjectMu.SmmuRegisters
import ProjectMu.SmmuDetach
import ProjectMu.SmmuEffect
import ProjectMu.SmmuRun
import ProjectMu.SmmuMatch
import ProjectMu.SmmuKept
import ProjectMu.SmmuDetached
import ProjectMu.SiPolicy
import ProjectMu.AmlNames
import ProjectMu.AslUpdate
import ProjectMu.AslUpdateLocal
import ProjectMu.RamManager
import ProjectMu.RamManagerExact
import ProjectMu.LogBuffer
import ProjectMu.LogBufferRing
import ProjectMu.FrameBuffer
import ProjectMu.FrameBufferDraw
import ProjectMu.FrameBufferGeometry
import ProjectMu.FrameBufferConfined
import ProjectMu.DebugOutput
import ProjectMu.KeypadQueue
import ProjectMu.KeypadLifecycle
import ProjectMu.KeypadLifecycleRun
import ProjectMu.KeypadLifecycleSafe
import ProjectMu.Arm64Machine
import ProjectMu.Arm64Program
import ProjectMu.ShellCode
import ProjectMu.ShellCodeReference
import ProjectMu.ShellCodeActlr
import ProjectMu.ShellCodeAmcn
import ProjectMu.ShellCodeFaulty
import ProjectMu.ShellCodeBlocks
import ProjectMu.ShellCodePsci
import ProjectMu.ShellCodeIrm
import ProjectMu.ShellCodeInstall
import ProjectMu.ShellCodeRefines
import ProjectMu.AccessLog
import ProjectMu.XblProtocols
import ProjectMu.XblScan
import ProjectMu.Arm64Address
import ProjectMu.XblTracking
import ProjectMu.XblSources
import ProjectMu.Arm64Branch
import ProjectMu.Winload
import ProjectMu.WinloadInside
import ProjectMu.WinloadPatch
import ProjectMu.MemoryInit
import ProjectMu.WinloadLocate
import ProjectMu.AslUpdateInside
import ProjectMu.ReinstallTable
import ProjectMu.RestartSearch
import ProjectMu.FindPattern
import ProjectMu.Arm64System
import ProjectMu.IrmRoutine
import ProjectMu.IrmEmulation
import ProjectMu.DdrSpeeds
import ProjectMu.SmBiosMemory
import ProjectMu.UfpPatch
import ProjectMu.Terminated
import ProjectMu.MmuTable
import ProjectMu.RealTimeClock
import ProjectMu.PoolUse
import ProjectMu.RamManagerPool
import ProjectMu.MapMemoryRegion
import ProjectMu.SmBiosRecord
import ProjectMu.SlotSwitchMatching
import ProjectMu.GptSwitchOnce
import ProjectMu.FrameBufferGlyph
import ProjectMu.GptBounds
import ProjectMu.KeypadTextIn
import ProjectMu.KeypadTextInRefines
import ProjectMu.KeypadTextInSteps
import ProjectMu.KeypadNotify
import ProjectMu.KeypadNotifyRun
import ProjectMu.KeypadTextInDelivery
import ProjectMu.KeypadTextInNotify
import ProjectMu.BootManagerKey
import ProjectMu.KernelErrataHook
import ProjectMu.ForwardCopy
import ProjectMu.BootShim
import ProjectMu.FixedText
import ProjectMu.DpuSnapshot
import ProjectMu.DpuSnapshotPasses
import ProjectMu.DpuSnapshotRun
import ProjectMu.DpuSnapshotLog
import ProjectMu.SkipSearch
import ProjectMu.RuntimeMemAllocation
import ProjectMu.RuntimeMemLookup
import ProjectMu.RuntimeMemBlocks
import ProjectMu.RuntimeMemHeap
import ProjectMu.SecureBootHandler
import ProjectMu.MsBootOptions
import ProjectMu.PivotSort
import ProjectMu.CrtQuickSort
import ProjectMu.BlockPosition
import ProjectMu.CivilTime
import ProjectMu.TimerWrapper
import ProjectMu.DigitText
import ProjectMu.AddressText
import ProjectMu.CrtString
import ProjectMu.InetPton
import ProjectMu.InetPton6
import ProjectMu.InetPtonTexts
import ProjectMu.TlsVerifyHost
