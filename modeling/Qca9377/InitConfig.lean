import Qca9377.Calls
import Qca9377.Diag

namespace Qca9377
open Bytes Interleaving
set_option autoImplicit true

def kHiBaseAddress : Nat := 0x400800
def kHiInterconnectStateOffset : Nat := 0xf8

structure CePipeConfig where
  pipenum : Nat
  pipedir : Nat
  nentries : Nat
  nbytesMax : Nat
  flags : Nat
  reserved : Nat
  deriving DecidableEq, Repr

structure CeSvcToPipe where
  serviceId : Nat
  pipeDir : Nat
  pipeNum : Nat
  deriving DecidableEq, Repr

/-- The packed structure in memory. -/
def CePipeConfig.encode (c : CePipeConfig) : List UInt8 :=
  encodeWords 4 [c.pipenum, c.pipedir, c.nentries, c.nbytesMax, c.flags, c.reserved]

def CeSvcToPipe.encode (m : CeSvcToPipe) : List UInt8 :=
  encodeWords 4 [m.serviceId, m.pipeDir, m.pipeNum]

def kPipeDirIn : Nat := 1
def kPipeDirOut : Nat := 2
def kPipeDirInOut : Nat := 3
def kCeAttrDisIntr : Nat := 0x8

def kSvcWmiControl : Nat := 0x100
def kSvcWmiDataBe : Nat := 0x101
def kSvcWmiDataBk : Nat := 0x102
def kSvcWmiDataVi : Nat := 0x103
def kSvcWmiDataVo : Nat := 0x104
def kSvcRsvdCtrl : Nat := 0x001
def kSvcTestRaw : Nat := 0xFE00
def kSvcHttDataMsg : Nat := 0x300

def kTargetCeConfigWlan : List CePipeConfig :=
  [⟨0, kPipeDirOut, 32, 256, 0, 0⟩,
   ⟨1, kPipeDirIn, 32, 2048, 0, 0⟩,
   ⟨2, kPipeDirIn, 64, 2048, 0, 0⟩,
   ⟨3, kPipeDirOut, 32, 2048, 0, 0⟩,
   ⟨4, kPipeDirOut, 256, 256, 0, 0⟩,
   ⟨5, kPipeDirIn, 32, 512, 0, 0⟩,
   ⟨6, kPipeDirInOut, 32, 4096, 0, 0⟩,
   ⟨7, kPipeDirInOut, 0, 0, 0, 0⟩,
   ⟨8, kPipeDirIn, 64, 2048, kCeAttrDisIntr, 0⟩,
   ⟨9, kPipeDirInOut, 32, 2048, kCeAttrDisIntr, 0⟩]

def kNumTargetCeConfig : Nat := 7

def kTargetSvcToPipeMap : List CeSvcToPipe :=
  [⟨kSvcWmiDataVo, kPipeDirOut, 3⟩,
   ⟨kSvcWmiDataVo, kPipeDirIn, 2⟩,
   ⟨kSvcWmiDataBk, kPipeDirOut, 3⟩,
   ⟨kSvcWmiDataBk, kPipeDirIn, 2⟩,
   ⟨kSvcWmiDataBe, kPipeDirOut, 3⟩,
   ⟨kSvcWmiDataBe, kPipeDirIn, 2⟩,
   ⟨kSvcWmiDataVi, kPipeDirOut, 3⟩,
   ⟨kSvcWmiDataVi, kPipeDirIn, 2⟩,
   ⟨kSvcWmiControl, kPipeDirOut, 3⟩,
   ⟨kSvcWmiControl, kPipeDirIn, 2⟩,
   ⟨kSvcRsvdCtrl, kPipeDirOut, 0⟩,
   ⟨kSvcRsvdCtrl, kPipeDirIn, 1⟩,
   ⟨kSvcTestRaw, kPipeDirOut, 0⟩,
   ⟨kSvcTestRaw, kPipeDirIn, 1⟩,
   ⟨kSvcHttDataMsg, kPipeDirOut, 4⟩,
   ⟨kSvcHttDataMsg, kPipeDirIn, 5⟩,
   ⟨0, 0, 0⟩]

def kNumSvcToPipe : Nat := 17

/-- Every service is routed to a pipe that the target is told about and that goes its way. -/
theorem svcMap_routed : ∀ m ∈ kTargetSvcToPipeMap, m.serviceId ≠ 0 →
    ∃ c ∈ kTargetCeConfigWlan.take kNumTargetCeConfig,
      c.pipenum = m.pipeNum ∧ c.pipedir = m.pipeDir := by decide

/-- The first `kNumTargetCeConfig * sizeof(CePipeConfig)` bytes of the table. -/
def pipeConfigBytes : List UInt8 :=
  (kTargetCeConfigWlan.flatMap CePipeConfig.encode).take (kNumTargetCeConfig * 24)

def svcMapBytes : List UInt8 :=
  (kTargetSvcToPipeMap.flatMap CeSvcToPipe.encode).take (kNumSvcToPipe * 12)

def kPcieStatePipeCfgOff : Nat := 0x00
def kPcieStateSvcMapOff : Nat := 0x04
def kPcieStateConfigFlgOff : Nat := 0x20
def kPcieCfgFlagEnableL1 : Nat := 0x00000001

def kHiOptionFlag2Offset : Nat := 0xcc
def kHiEarlyAllocOffset : Nat := 0x100
def kHiOptionEarlyCfgDone : Nat := 0x10
def kHiEarlyAllocMagic : Nat := 0x6d8a
def kHiEarlyAllocMagicMask : Nat := 0xffff0000
def kHiEarlyAllocMagicShift : Nat := 16
def kHiEarlyAllocBanksMask : Nat := 0x0000000f
def kHiEarlyAllocBanksShift : Nat := 0
def kQca9377NumBanks : Nat := 9

/-- What `initConfig` logs through `qlog`. -/
inductive ConfigLog where
  | stateAddrFailed (addr : Nat)
  | stateAddr (addr : Nat)
  | pipeCfgAddrInvalid
  | svcMapAddrInvalid
  | pipeCfgDownloadFailed
  | svcMapDownloadFailed
  | complete (pipeCfgAddr svcMapAddr ealloc flag2 : Nat)
  deriving DecidableEq, Repr

/-- What `initConfig` asks of the object: an access to the target, a published number, a line of
the log. -/
inductive ConfigCall where
  | diag (c : DiagCall)
  | publishNum (key : String) (val : Nat)
  | qlog (m : ConfigLog)

def DiagResult.word : DiagResult → Option Nat
  | .out (some bytes) => some (decodeLE bytes)
  | _ => none

def DiagResult.ok : DiagResult → Bool
  | .flag ok => ok
  | .out _ => false

namespace InitConfig

def diagRead32 (targAddr : Nat) : Calls ConfigCall DiagResult (Option Nat) := do
  let r ← Calls.make (.diag (.readMem targAddr 4))
  return r.word

def diagWriteMem (targAddr : Nat) (buf : List UInt8) : Calls ConfigCall DiagResult Bool := do
  let r ← Calls.make (.diag (.writeMem targAddr buf))
  return r.ok

def diagWrite32 (targAddr val : Nat) : Calls ConfigCall DiagResult Bool :=
  diagWriteMem targAddr (encodeLE 4 val)

def publishNum (key : String) (val : Nat) : Calls ConfigCall DiagResult Unit := do
  let _ ← Calls.make (.publishNum key val)

def qlog (m : ConfigLog) : Calls ConfigCall DiagResult Unit := do
  let _ ← Calls.make (.qlog m)

def fieldAddr (base off : Nat) : Nat := (base + off) % 2 ^ 32

/-- Tell the target that early configuration is done. -/
def earlyCfgDone (pipeCfgAddr svcMapAddr ealloc : Nat) : Calls ConfigCall DiagResult Bool := do
  let some flag2 ← diagRead32 (kHiBaseAddress + kHiOptionFlag2Offset) | return false
  let flag2 := flag2 ||| kHiOptionEarlyCfgDone
  if !(← diagWrite32 (kHiBaseAddress + kHiOptionFlag2Offset) flag2) then return false
  qlog (.complete pipeCfgAddr svcMapAddr ealloc flag2)
  return true

def magicBits : Nat := (kHiEarlyAllocMagic <<< kHiEarlyAllocMagicShift) &&& kHiEarlyAllocMagicMask

def banksBits : Nat := (kQca9377NumBanks <<< kHiEarlyAllocBanksShift) &&& kHiEarlyAllocBanksMask

/-- Early allocation: the IRAM banks, with the magic in the top half. -/
def earlyAlloc (pipeCfgAddr svcMapAddr : Nat) : Calls ConfigCall DiagResult Bool := do
  let some ealloc ← diagRead32 (kHiBaseAddress + kHiEarlyAllocOffset) | return false
  let ealloc := ealloc ||| magicBits
  let ealloc := ealloc ||| banksBits
  if !(← diagWrite32 (kHiBaseAddress + kHiEarlyAllocOffset) ealloc) then return false
  earlyCfgDone pipeCfgAddr svcMapAddr ealloc

/-- Download the pipe configuration and the service map. -/
def download (pipeCfgAddr svcMapAddr : Nat) : Calls ConfigCall DiagResult Bool := do
  if !(← diagWriteMem pipeCfgAddr pipeConfigBytes) then
    qlog .pipeCfgDownloadFailed
    return false
  if !(← diagWriteMem svcMapAddr svcMapBytes) then
    qlog .svcMapDownloadFailed
    return false
  publishNum "initcfg-pipeaddr" pipeCfgAddr
  publishNum "initcfg-svcaddr" svcMapAddr
  earlyAlloc pipeCfgAddr svcMapAddr

/-- Clear L1 in the configuration flags. -/
def clearL1 (pcieStateAddr pipeCfgAddr svcMapAddr : Nat) : Calls ConfigCall DiagResult Bool := do
  let flagsAddr := fieldAddr pcieStateAddr kPcieStateConfigFlgOff
  let some cfgFlags ← diagRead32 flagsAddr | return false
  let cfgFlags := cfgFlags &&& (2 ^ 32 - 1 - kPcieCfgFlagEnableL1)
  if !(← diagWrite32 flagsAddr cfgFlags) then return false
  download pipeCfgAddr svcMapAddr

/-- An address that the walk reads; a failed read leaves it at 0, which is not valid. -/
def follow (targAddr : Nat) (invalid : Nat → ConfigLog)
    (next : Nat → Calls ConfigCall DiagResult Bool) : Calls ConfigCall DiagResult Bool := do
  let addr := (← diagRead32 targAddr).getD 0
  if addr = 0 then
    qlog (invalid addr)
    return false
  next addr

/-- Walk the interconnect: the PCIe state, then the areas of the pipe configuration and of the
service map. -/
def initConfig : Calls ConfigCall DiagResult Bool :=
  follow (kHiBaseAddress + kHiInterconnectStateOffset) .stateAddrFailed fun pcieStateAddr => do
    qlog (.stateAddr pcieStateAddr)
    follow (fieldAddr pcieStateAddr kPcieStatePipeCfgOff) (fun _ => .pipeCfgAddrInvalid)
      fun pipeCfgAddr =>
        follow (fieldAddr pcieStateAddr kPcieStateSvcMapOff) (fun _ => .svcMapAddrInvalid)
          fun svcMapAddr => clearL1 pcieStateAddr pipeCfgAddr svcMapAddr

end InitConfig

/-- The words that `initConfig` reads. -/
structure ConfigReads where
  pcieStateAddr : Nat
  pipeCfgAddr : Nat
  svcMapAddr : Nat
  cfgFlags : Nat
  ealloc : Nat
  flag2 : Nat

/-- The writes that these words lead to, in order. -/
def ConfigReads.writes (v : ConfigReads) : List (Nat × List UInt8) :=
  [(InitConfig.fieldAddr v.pcieStateAddr kPcieStateConfigFlgOff,
      encodeLE 4 (v.cfgFlags &&& (2 ^ 32 - 1 - kPcieCfgFlagEnableL1))),
   (v.pipeCfgAddr, pipeConfigBytes),
   (v.svcMapAddr, svcMapBytes),
   (kHiBaseAddress + kHiEarlyAllocOffset,
      encodeLE 4 (v.ealloc ||| InitConfig.magicBits ||| InitConfig.banksBits)),
   (kHiBaseAddress + kHiOptionFlag2Offset, encodeLE 4 (v.flag2 ||| kHiOptionEarlyCfgDone))]

end Qca9377
