import Qca9377.CopyEngine

namespace Qca9377
open Bytes Interleaving
set_option autoImplicit true

/-- The breadcrumb `fLastStage` of the BMI object. -/
inductive BmiStage where
  | idle
  | afterDone
  | postRecv
  | send
  | recvWait
  | shortResp
  | ok
  deriving DecidableEq, Repr

structure Bmi where
  fTargetVersion : Nat
  fTargetType : Nat
  fLastStage : BmiStage
  fDoneSent : Bool
  deriving DecidableEq, Repr

structure Htc where
  fTotalCredits : Nat
  fCreditSize : Nat
  fWmiCredits : Nat
  fWmiEid : UInt8
  fCtrlSeq : UInt8
  fWmiSeq : UInt8
  deriving DecidableEq, Repr

/-- The protocol objects and the two ring pairs they share. -/
structure Host where
  bmi : Bmi
  htc : Htc
  fCtrl : CECopyPair
  fWmi : CECopyPair

def Host.setCtrl (h : Host) (p : CECopyPair) : Host := { h with fCtrl := p }

def Host.setWmi (h : Host) (p : CECopyPair) : Host := { h with fWmi := p }

def Host.setBmi (h : Host) (b : Bmi) : Host := { h with bmi := b }

def Host.setHtc (h : Host) (t : Htc) : Host := { h with htc := t }

def freshHost : Host where
  bmi := ⟨0, 0, .idle, false⟩
  htc := ⟨0, 0, 0, 0xFF, 0, 0⟩
  fCtrl := freshPair
  fWmi := freshPair

namespace CEManager

def send (buf : List UInt8) : Prog Host Bool :=
  (CECopyPair.send buf).zoom Host.fCtrl Host.setCtrl

def postRecv : Prog Host Bool := CECopyPair.postRecv.zoom Host.fCtrl Host.setCtrl

def recvWait (timeoutMs : Nat) : Prog Host Bool :=
  (CECopyPair.recvWait timeoutMs).zoom Host.fCtrl Host.setCtrl

def wmiSend (buf : List UInt8) : Prog Host Bool :=
  (CECopyPair.send buf).zoom Host.fWmi Host.setWmi

def wmiPostRecv : Prog Host Bool := CECopyPair.postRecv.zoom Host.fWmi Host.setWmi

def wmiRecvWait (timeoutMs : Nat) : Prog Host Bool :=
  (CECopyPair.recvWait timeoutMs).zoom Host.fWmi Host.setWmi

def wmiArmRecv : Prog Host Unit := do
  if (← read fun h => h.fWmi.dst.rxArmed) = 0 then
    let _ ← wmiPostRecv

def wmiPostRecvIfIdle : Prog Host Bool := do
  if (← read fun h => h.fWmi.dst.rxArmed) ≠ 0 then return true
  wmiPostRecv

end CEManager

end Qca9377
