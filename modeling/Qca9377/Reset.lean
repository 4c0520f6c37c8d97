import Qca9377.Calls
import Qca9377.DiagWindow
import Qca9377.TargetInit

namespace Qca9377
open Bytes Interleaving
set_option autoImplicit true

def kRTC_SOC_BaseAddress : Nat := 0x00000800
def kFWIndicatorAddress : Nat := 0x0003A028
def kSOC_ChipID_Offset : Nat := kRTC_SOC_BaseAddress + 0x000000F0
def kPCIe_SOCWake_Offset : Nat := kPCIe_LocalBaseAddress + 0x00000004
def kPCIe_BARReg_Offset : Nat := 0x00040030
def kSocGlobalResetOffset : Nat := 0x00000008
def kSocResetControlOffset : Nat := 0x00000000
def kSocLfTimerControl0Offset : Nat := 0x00000050

def kSocResetCeRstMask : UInt32 := 0x00000001
def kSocResetCpuWarmRstMask : UInt32 := 0x00000040
def kSocLfTimerEnableMask : UInt32 := 0x00000004

def kColdResetDelay_ms : Nat := 20
def kWarmResetStep_ms : Nat := 10
def kWakeTimeout_us : Nat := 30000
def kWakeStepStart_us : Nat := 5
def kWakeStepMax_us : Nat := 50

/-- What the reset of the chip logs through `qlog`. -/
inductive ResetLog where
  | begin
  | announceFailed
  | coldReset (val : UInt32)
  | coldResetComplete
  | waited (m : InitLog)
  | ceInitFailed (interlude : Nat)
  | neverAnnounced
  | warmResetComplete
  | doorbell (val new : UInt32)
  deriving DecidableEq, Repr

/-- What the reset code asks of the object: a register, a delay, a set-up of the rings, something
published. Where an answer is a truth value, it is whether the word is not 0. -/
inductive RegCall where
  | read32 (offset : Nat)
  | write32 (offset : Nat) (value : UInt32)
  | IODelay (us : Nat)
  | IOSleep (ms : Nat)
  | ensureCE
  | publishStage (text : String)
  | publishNum (key : String) (val : UInt32)
  | qlog (m : ResetLog)
  deriving DecidableEq, Repr

abbrev Regs := Calls RegCall UInt32

namespace Reset

def read32 (offset : Nat) : Regs UInt32 := Calls.make (.read32 offset)

/-- A call whose answer does not matter. -/
def order (c : RegCall) : Regs Unit := .call c fun _ => .ret ()

def write32 (offset : Nat) (value : UInt32) : Regs Unit := order (.write32 offset value)

def IODelay (us : Nat) : Regs Unit := order (.IODelay us)

def IOSleep (ms : Nat) : Regs Unit := order (.IOSleep ms)

def publishStage (text : String) : Regs Unit := order (.publishStage text)

def publishNum (key : String) (val : UInt32) : Regs Unit := order (.publishNum key val)

def qlog (m : ResetLog) : Regs Unit := order (.qlog m)

def ensureCE : Regs Bool := .call .ensureCE fun ok => .ret (decide (ok ≠ 0))

def isAwake : Regs Bool := do
  let state ← read32 (kPCIe_LocalBaseAddress + 0x00000000)
  return decide (state &&& 0x00000007 = kRTCStateValOn)

/-- The step of the loop of `wakeTarget` behind a step. -/
def nextStep (step : Nat) : Nat := if step < kWakeStepMax_us then step + 5 else step

theorem nextStep_pos (h : 0 < step) : 0 < nextStep step := by
  rw [nextStep]
  split
  · exact Nat.succ_pos _
  · exact h

/-- The loop of `wakeTarget`. -/
def pollAwake (elapsed step : Nat) (hstep : 0 < step) : Regs Bool :=
  if _ : elapsed < kWakeTimeout_us then do
    if ← isAwake then return true
    IODelay step
    pollAwake (elapsed + step) (nextStep step) (nextStep_pos hstep)
  else return false
termination_by kWakeTimeout_us - elapsed

def wakeTarget : Regs Bool := do
  write32 kPCIe_SOCWake_Offset 0x00000001
  pollAwake 0 kWakeStepStart_us (by decide)

def coldReset : Regs Bool := do
  let val ← read32 (kPCIe_LocalBaseAddress + kSocGlobalResetOffset)
  qlog (.coldReset val)
  let val := val ||| 1
  write32 (kPCIe_LocalBaseAddress + kSocGlobalResetOffset) val
  IOSleep kColdResetDelay_ms
  let val := val &&& ~~~1
  write32 (kPCIe_LocalBaseAddress + kSocGlobalResetOffset) val
  IOSleep kColdResetDelay_ms
  qlog .coldResetComplete
  return true

def initTimedOut (last : UInt32) : Regs Bool := do
  publishNum "fw-ind-last" last
  qlog (.waited (.timedOut last))
  return false

/-- The samples of one second, and when the next ones are due. -/
def initSample (elapsed nextSample : Nat) (val : UInt32) : Regs Nat := do
  if elapsed < nextSample then return nextSample
  publishNum s!"fw-ind-s{nextSample / 1000}" val
  let rtc ← read32 kPCIe_LocalBaseAddress
  publishNum s!"rtc-s{nextSample / 1000}" (rtc &&& kRTCStateMaskSt)
  return nextSample + kTargetInitSample_ms

/-- The polling loop of `waitForTargetInit`, with the polls left. -/
def pollInit : Nat → Nat → Nat → UInt32 → Regs Bool
  | 0, _, _, last => initTimedOut last
  | n + 1, elapsed, nextSample, _ => do
    let val ← read32 kFWIndicatorAddress
    if val ≠ 0xffffffff ∧ val &&& kFWIndInitialized ≠ 0 then
      publishNum "fw-indicator" val
      qlog (.waited (.initialised elapsed val))
      return true
    if val ≠ 0xffffffff ∧ val &&& kFWIndEventPending ≠ 0 then initTimedOut val
    else
      let next ← initSample elapsed nextSample val
      IOSleep kTargetInitStep_ms
      pollInit n (elapsed + kTargetInitStep_ms) next val

def waitForTargetInit : Regs Bool :=
  pollInit (kTargetInitTimeout_ms / kTargetInitStep_ms) 0 0 0xffffffff

/-- A register of the reset block read and written back changed. -/
def modify32 (offset : Nat) (f : UInt32 → UInt32) : Regs Unit := do
  let val ← read32 offset
  write32 offset (f val)

def resetSi0 : Regs Unit := do
  modify32 (kRTC_SOC_BaseAddress + kSocResetControlOffset) id
  IOSleep kWarmResetStep_ms

def warmResetCpu : Regs Unit := do
  write32 kFWIndicatorAddress 0
  modify32 (kRTC_SOC_BaseAddress + kSocResetControlOffset) (· ||| kSocResetCpuWarmRstMask)

def clearLfTimer : Regs Unit :=
  modify32 (kRTC_SOC_BaseAddress + kSocLfTimerControl0Offset) (· &&& ~~~kSocLfTimerEnableMask)

def resetCe : Regs Unit := do
  let val ← read32 (kRTC_SOC_BaseAddress + kSocResetControlOffset)
  write32 (kRTC_SOC_BaseAddress + kSocResetControlOffset) (val ||| kSocResetCeRstMask)
  IOSleep kWarmResetStep_ms
  write32 (kRTC_SOC_BaseAddress + kSocResetControlOffset) (val &&& ~~~kSocResetCeRstMask)

def warmReset : Regs Bool := do
  resetSi0
  publishStage "warm-si0"
  warmResetCpu
  publishStage "warm-cpu"
  if !(← ensureCE) then
    publishNum "warm-fail" 1
    qlog (.ceInitFailed 1)
    return false
  -- the first wait is not fatal
  let _ ← waitForTargetInit
  publishStage "warm-wait1"
  clearLfTimer
  publishStage "warm-lf"
  resetCe
  publishStage "warm-ce"
  warmResetCpu
  publishStage "warm-cpu2"
  if !(← ensureCE) then
    publishNum "warm-fail" 2
    qlog (.ceInitFailed 2)
    return false
  if !(← waitForTargetInit) then
    publishNum "warm-fail" 3
    qlog .neverAnnounced
    return false
  qlog .warmResetComplete
  return true

def resetChip : Regs Bool := do
  qlog .begin
  if !(← wakeTarget) then
    publishNum "reset-fail" 1
    return false
  if !(← coldReset) then
    publishNum "reset-fail" 2
    return false
  if !(← wakeTarget) then
    publishNum "reset-fail" 3
    return false
  if !(← waitForTargetInit) then
    qlog .announceFailed
    publishNum "postreset-chip-id" (← read32 kSOC_ChipID_Offset)
    publishNum "postreset-bar-reg" (← read32 kPCIe_BARReg_Offset)
    publishNum "postreset-rtc-state" ((← read32 kPCIe_LocalBaseAddress) &&& kRTCStateMaskSt)
    if ← warmReset then
      publishStage "M2-reset"
      return true
    publishNum "reset-fail" 4
    return false
  publishStage "M2-reset"
  return true

def wakeTargetCpu : Regs Unit := do
  let val ← read32 (kSOC_CoreBaseAddress + kSocCoreCtrlOffset)
  write32 (kSOC_CoreBaseAddress + kSocCoreCtrlOffset) (val ||| kCoreCtrlCpuIntrMask)
  qlog (.doorbell val (val ||| kCoreCtrlCpuIntrMask))

end Reset

/-- What a chip with these registers answers. -/
def RegFile.answer (regs : RegFile) : RegCall → UInt32
  | .read32 offset => regs offset
  | _ => 1

def RegFile.write (regs : RegFile) : RegCall → RegFile
  | .write32 offset value => Function.update regs offset value
  | _ => regs

theorem wakeTargetCpu_regs (regs : RegFile) :
    (Reset.wakeTargetCpu.asked regs.answer).foldl RegFile.write regs = wakeTargetCpu regs := rfl

theorem isAwake_regs (regs : RegFile) : Reset.isAwake.answer regs.answer = isAwake regs := rfl

end Qca9377
