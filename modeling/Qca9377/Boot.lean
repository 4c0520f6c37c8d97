import Qca9377.Bmi
import Qca9377.FirmwareFile

namespace Qca9377
open Bytes Interleaving
set_option autoImplicit true

/-- The payload field of a command. -/
def Payload : Type := { bytes : List UInt8 // bytes.length = kBmiMaxDataSize }

namespace Fw

def kPatchLoadAddr : Nat := 0x1234
def kHiBoardDataOff : Nat := 0x54
def kHiBoardDataInitOff : Nat := 0x58
def kPciDevId : Nat := 0x0042
def kBoardDataSz : Nat := 8192

/-- The option word of the target with the flags that the driver adds. -/
def optionFlags (opt : Nat) : Nat := opt ||| (1 <<< 9 ||| 0x2 <<< 0xC ||| 1 <<< 3)

/-- `Fw::configureTarget`; `stack` is what the payload fields of its writes start as. -/
def configureTarget (stack : Payload) : Prog Host Bool := do
  if !(← Bmi.write32 stack.1 0x00 2) then return false
  match ← Bmi.read32 0x10 with
  | none => return false
  | some opt =>
    if !(← Bmi.write32 stack.1 0x10 (optionFlags opt)) then return false
    if !(← Bmi.write32 stack.1 0x44 0) then return false
    if !(← Bmi.write32 stack.1 0x104 0) then return false
    if !(← Bmi.write32 stack.1 0xbc kPciDevId) then return false
    return true

def downloadBoardData (stack : Payload) (boardData : List UInt8) : Prog Host Bool := do
  match ← Bmi.read32 kHiBoardDataOff with
  | none => return false
  | some boardAddr =>
    if boardAddr = 0 then return false
    if !(← Bmi.writeMemory stack.1 boardAddr (boardData.take kBoardDataSz)) then return false
    if !(← Bmi.write32 stack.1 kHiBoardDataInitOff 1) then return false
    return true

/-- `Fw::runOtp`; the board and chip ids, or nothing where it returns false. -/
def runOtp (otp : List UInt8) : Prog Host (Option (Nat × Nat)) := do
  if otp = [] then return none
  if !(← Bmi.fastDownload kPatchLoadAddr otp) then return none
  match ← Bmi.execute kPatchLoadAddr 0x10 with
  | none => return none
  | some result => return some ((result &&& 0x7c00) >>> 10, (result &&& 0x18000) >>> 15)

def downloadFirmware (fw : List UInt8) : Prog Host Bool := Bmi.fastDownload kPatchLoadAddr fw

end Fw

/-- An embedded image and what lies in memory behind it. -/
structure Blob where
  bytes : List UInt8
  behind : Nat → UInt8

/-- The bytes that a pointer into an image and a length name. -/
def Blob.load (b : Blob) (v : View) : List UInt8 :=
  match v.ptr with
  | none => []
  | some off => (List.range v.len).map fun i => b.bytes.getD (off + i) (b.behind (off + i))

/-- The images of the kext. Where a walk reads behind an image, what it finds is not modelled: the
parsers then come up with any result. -/
structure Embedded where
  firmware6 : Blob
  board2 : Blob
  board : List UInt8
  strayImage : Bool × FwImage
  strayBoard : Bool × View

def Embedded.parseFirmware (E : Embedded) : Bool × FwImage :=
  (Qca9377.parseFirmware E.firmware6.bytes freshImage).getD E.strayImage

/-- The board data of the card, or `board.bin`. -/
def Embedded.boardData (E : Embedded) (fSubVendor fSubDevice : UInt16) : List UInt8 :=
  let (haveBoard, data) :=
    (selectBoard E.board2.bytes fSubVendor fSubDevice ⟨none, 0⟩).getD E.strayBoard
  if haveBoard then E.board2.load data else E.board

def Embedded.firmware (E : Embedded) : List UInt8 := E.firmware6.load E.parseFirmware.2.firmware

def Embedded.otp (E : Embedded) : List UInt8 := E.firmware6.load E.parseFirmware.2.otp

/-- What `bootFirmware` works on; `readings` records the values read from FW_INDICATOR. -/
structure Boot where
  host : Host
  fwIndicator : UInt32
  readings : List UInt32
  stages : List String
  live : Bool

namespace Boot

def setHost (b : Boot) (h : Host) : Boot := { b with host := h }

def onHost (p : Prog Host α) : Prog Boot α := p.zoom Boot.host setHost

def publishStage (text : String) : Prog Boot Unit :=
  modify fun b => { b with stages := b.stages ++ [text] }

def teardownHardware : Prog Boot Unit := modify fun b => { b with live := false }

def fail (text : String) : Prog Boot Bool := do
  publishStage text
  teardownHardware
  return false

def readIndicator : Prog Boot UInt32 :=
  .op (fun b => { b with readings := b.readings ++ [b.fwIndicator] }) fun b => .ret b.fwIndicator

def kFwIndEventPending : UInt32 := 1
def kFwIndInitialized : UInt32 := 2

/-- The polling loop of `doneAndWaitTargetInit`, with the polls left and the last reading. -/
def pollIndicator : Nat → UInt32 → Prog Boot UInt32
  | 0, val => return val
  | n + 1, _ => do
    let val ← readIndicator
    if val = 0xffffffff then pollIndicator n val
    else if val &&& kFwIndEventPending ≠ 0 then return val
    else if val &&& kFwIndInitialized ≠ 0 then return val
    else pollIndicator n val

def doneAndWaitTargetInit : Prog Boot Bool := do
  if !(← onHost Bmi.done) then return false
  let val ← pollIndicator (pollDeadline 3000) 0
  if val = 0xffffffff then return false
  if val &&& kFwIndEventPending ≠ 0 then return false
  if val &&& kFwIndInitialized = 0 then return false
  return true

def otpStage (E : Embedded) : Prog Host (Option (Nat × Nat)) :=
  if E.parseFirmware.2.otp.ptr ≠ none ∧ E.parseFirmware.2.otp.len ≠ 0 then Fw.runOtp E.otp
  else return none

/-- The part of the driver's `bootFirmware` from the OTP stage on. -/
def startFirmware (E : Embedded) : Prog Boot Bool := do
  -- a failure of the OTP stage is logged and the boot goes on
  let _ ← onHost (otpStage E)
  if !(← onHost (Fw.downloadFirmware E.firmware)) then fail "M3-FAIL-fw-download"
  else
    publishStage "M3-fw-downloaded"
    if !(← doneAndWaitTargetInit) then fail "M3-FAIL-init-wait"
    else
      publishStage "M3-booted"
      return true

/-- The driver's `bootFirmware`. -/
def bootFirmware (E : Embedded) (fSubVendor fSubDevice : UInt16) (stack : Payload) :
    Prog Boot Bool := do
  if !E.parseFirmware.1 then fail "M3-FAIL-fw-parse"
  else
    publishStage "M3-fw-parsed"
    if !(← onHost (Fw.configureTarget stack)) then fail "M3-FAIL-configure"
    else
      publishStage "M3-configured"
      let boardData := E.boardData fSubVendor fSubDevice
      if !(← onHost (Fw.downloadBoardData stack boardData)) then fail "M3-FAIL-board-data"
      else
        publishStage "M3-board-ok"
        startFirmware E

end Boot

end Qca9377
