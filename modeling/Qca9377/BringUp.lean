import Qca9377.Calls
import Qca9377.Delivery
import Qca9377.Ghost
import Qca9377.TlvTable

namespace Qca9377
open Bytes Interleaving
set_option autoImplicit true

/-- A credit computation of `sendWmi` that has been reached. -/
structure CreditNeed where
  len : Nat
  fCreditSize : Nat
  deriving DecidableEq

/-- A debit of `fWmiCredits`, with the value found and the value left. -/
structure CreditDebit where
  len : Nat
  fCreditSize : Nat
  before : Nat
  after : Nat
  deriving DecidableEq

/-- A response that `connectService` has looked at, and the credit fields at that moment. -/
structure ConnectAnswer where
  raw : List UInt8
  rawLen : Nat
  fWmiEid : UInt8
  fWmiCredits : Nat
  deriving DecidableEq

structure CreditTrace where
  needs : List CreditNeed
  debits : List CreditDebit
  answers : List ConnectAnswer

/-- The host with a record of what the credit code has done; `behind` is what reads behind a
receive buffer make of the credits and of the bytes handed out. -/
structure BringUp where
  host : Host
  behind : Nat × List UInt8
  trace : CreditTrace

namespace BringUp

def setHost (s : BringUp) (h : Host) : BringUp := { s with host := h }

def onHost (p : Prog Host α) : Prog BringUp α := p.zoom host setHost

def noteNeed (k : CreditNeed) (s : BringUp) : BringUp :=
  { s with trace := { s.trace with needs := s.trace.needs ++ [k] } }

def noteDebit (len fCreditSize needed : Nat) (s : BringUp) : BringUp :=
  let before := s.host.htc.fWmiCredits
  { s with trace :=
      { s.trace with debits := s.trace.debits ++ [⟨len, fCreditSize, before, before - needed⟩] } }

def noteAnswer (s : BringUp) : BringUp :=
  let d := s.host.fCtrl.dst
  let c := s.host.htc
  { s with trace :=
      { s.trace with
        answers := s.trace.answers ++ [⟨d.rxBuf, d.fRxNbytes, c.fWmiEid, c.fWmiCredits⟩] } }

def setHtc (c : Htc) (s : BringUp) : BringUp := s.setHost (s.host.setHtc c)

/-- `Htc::connectService`, with its response on record. -/
def connectService (serviceId : Nat) : Prog BringUp (Option (Option (UInt8 × Nat))) := do
  let htc ← read fun s => s.host.htc
  if !(← onHost CEManager.postRecv) then return some none
  if !(← onHost (Htc.sendCtrlFrame (htc.connectPayload serviceId))) then return some none
  if !(← onHost (CEManager.recvWait kQCAExchangeTimeout_ms)) then return some none
  let frame ← .op noteAnswer fun s => .ret (s.host.fCtrl.dst.rxBuf, s.host.fCtrl.dst.fRxNbytes)
  match Htc.connectResp serviceId frame.1 frame.2 with
  | none => return none
  | some none => return some none
  | some (some granted) =>
    if serviceId = kHtcSvcWmiControl then
      modify fun s => s.setHtc
        { s.host.htc with fWmiEid := granted.1, fWmiCredits := s.host.htc.fTotalCredits }
    return some (some granted)

/-- `Htc::sendWmi`, with its credit computation and its debit on record. -/
def sendWmi (payload : List UInt8) : Prog BringUp Bool := do
  let htc ← read fun s => s.host.htc
  let len := payload.length
  if htc.fWmiEid = 0xFF then return false
  if len = 0 ∨ 2040 < len then return false
  modify (noteNeed ⟨len, htc.fCreditSize⟩)
  let needed := (len + htc.fCreditSize - 1) / htc.fCreditSize
  if htc.fWmiCredits < needed then return false
  if !(← onHost CEManager.wmiPostRecvIfIdle) then return false
  modify fun s => s.setHtc { s.host.htc with fWmiSeq := s.host.htc.fWmiSeq + 1 }
  if !(← onHost (CEManager.wmiSend
      (htcHdr htc.fWmiEid kHtcTxFlagNeedCreditUpdate len htc.fWmiSeq ++ payload))) then
    return false
  modify fun s => (s.noteDebit len htc.fCreditSize needed).setHtc
    { s.host.htc with fWmiCredits := s.host.htc.fWmiCredits - needed }
  return true

theorem onHost_covers (p : Prog Host α) : Covers host (onHost p) p := covers_zoom (fun _ _ => rfl) p

/-- On the host, keeping the record changes nothing. -/
theorem connectService_covers (serviceId : Nat) :
    Covers host (connectService serviceId) (Htc.connectService serviceId) := by
  unfold connectService Htc.connectService
  simp only [bind_eq_bind, pure_eq_ret, read_bind, modify_bind, Prog.op_bind, Prog.ret_bind]
  refine .op (fun _ => rfl) fun t => ?_
  apply (onHost_covers _).bind
  rintro (_ | _)
  · exact .ret _
  apply (onHost_covers _).bind
  rintro (_ | _)
  · exact .ret _
  apply (onHost_covers _).bind
  rintro (_ | _)
  · exact .ret _
  refine .op (fun _ => rfl) fun t => ?_
  cases Htc.connectResp serviceId t.host.fCtrl.dst.rxBuf t.host.fCtrl.dst.fRxNbytes with
  | none => exact .ret _
  | some answer =>
    cases answer with
    | none => exact .ret _
    | some granted =>
      dsimp only
      split
      · exact .op (fun _ => rfl) fun _ => .ret _
      · exact .ret _

theorem sendWmi_covers (payload : List UInt8) :
    Covers host (sendWmi payload) (Htc.sendWmi payload) := by
  unfold sendWmi Htc.sendWmi
  simp only [bind_eq_bind, pure_eq_ret, read_bind, modify_bind]
  refine .op (fun _ => rfl) fun t => ?_
  split
  · exact .ret _
  split
  · exact .ret _
  refine .beside (fun _ => rfl) fun _ => ?_
  split
  · exact .ret _
  apply (onHost_covers _).bind
  rintro (_ | _)
  · exact .ret _
  refine .op (fun _ => rfl) fun _ => ?_
  apply (onHost_covers _).bind
  rintro (_ | _)
  · exact .ret _
  · exact .op (fun _ => rfl) fun _ => .ret _

/-- Left alone, `sendWmi` returns the same with and without the record, and leaves the same host. -/
theorem sendWmi_alone (payload : List UInt8) (s : BringUp) :
    (exec id (sendWmi payload) s).1 = (exec id (Htc.sendWmi payload) s.host).1 ∧
      (exec id (sendWmi payload) s).2.host = (exec id (Htc.sendWmi payload) s.host).2 :=
  (sendWmi_covers payload).exec s

/-- `Htc::recvWmi`; a read behind the receive buffer finds whatever lies there. -/
def recvWmi (bufLen timeoutMs : Nat) : Prog BringUp (List UInt8) := do
  match ← onHost (Htc.recvWmi bufLen timeoutMs) with
  | some buf => return buf
  | none =>
    modify fun s => s.setHtc { s.host.htc with fWmiCredits := s.behind.1 % 2 ^ 16 }
    read fun s => s.behind.2

def call : WmiCall → Prog BringUp WmiResult
  | .armRecv => do
    onHost CEManager.wmiArmRecv
    return .armed
  | .sendWmi payload => do return .sent (← sendWmi payload)
  | .recvWmi bufLen timeoutMs => do return .got (some (← recvWmi bufLen timeoutMs))

end BringUp

namespace Wmi

abbrev WmiCalls := Calls WmiCall WmiResult

def armRecv : WmiCalls Unit := do
  let _ ← Calls.make .armRecv

def recvEvent (timeoutMs : Nat) : WmiCalls (List UInt8) := do
  match ← Calls.make (.recvWmi 2048 timeoutMs) with
  | .got (some buf) => return buf
  | _ => return []

/-- Phase 1 of `waitServiceAndReady` for the next `events` events; `none` is a wait that goes on
behind them, or a read outside an event. -/
def waitServiceCalls (w : Wmi) (deadlineMs events : Nat) : WmiCalls (Option (Bool × Wmi)) :=
  if w.fFwBuild = 0 ∧ w.fAbi 0 = 0 then
    match events with
    | 0 => return none
    | events + 1 => do
      let buf ← recvEvent deadlineMs
      if buf.length < 4 then return some (false, w)
      armRecv
      match rd32 buf 0 with
      | none => return none
      | some word =>
        if word &&& kWmiCmdIdMask = kWmiTlvEvtServiceReady then
          match w.parseServiceReady (buf.drop 4) with
          | none => return none
          | some (false, w) => return some (false, w)
          | some (true, w) => waitServiceCalls w kQCAExchangeTimeout_ms events
        else waitServiceCalls w kQCAExchangeTimeout_ms events
  else return some (true, w)

def sendInitCalls : WmiCalls Bool := do
  let (buf, frameLen) := initFrame kAbiWords kRsrcCfg
  if frameLen ≠ 4 + 36 + 184 + 8 then return false
  match ← Calls.make (.sendWmi buf) with
  | .sent ok => return ok
  | _ => return false

/-- Phase 3, with the tries left. -/
def waitReadyCalls (w : Wmi) : Nat → WmiCalls (Option (Bool × Wmi))
  | 0 => return some (false, w)
  | tries + 1 => do
    let buf ← recvEvent kQCAExchangeTimeout_ms
    if buf.length < 4 then return some (false, w)
    armRecv
    match rd32 buf 0 with
    | none => return none
    | some word =>
      if word &&& kWmiCmdIdMask = kWmiTlvEvtReady then return w.parseReady (buf.drop 4)
      else waitReadyCalls w tries

/-- `Wmi::waitServiceAndReady`, as the calls it makes. -/
def waitServiceAndReadyCalls (w : Wmi) (events timeoutMs : Nat) :
    WmiCalls (Option (Bool × Wmi)) := do
  armRecv
  match ← w.waitServiceCalls timeoutMs events with
  | some (true, w) =>
    if !(← sendInitCalls) then return some (false, w)
    w.waitReadyCalls 5
  | r => return r

end Wmi

namespace BringUp

/-- `startHtcWmi`; `pair` is the WMI pair that `initWmi` has made, if it succeeds. -/
def startHtcWmi (pair : Option CECopyPair) (events : Nat) : Prog BringUp Bool := do
  match pair with
  | none => return false
  | some pair =>
    modify fun s => s.setHost (s.host.setWmi pair)
    modify fun s => s.setHtc freshHost.htc
    if (← onHost (Htc.waitTarget 10000)) ≠ some true then return false
    match ← connectService kHtcSvcWmiControl with
    | some (some _) =>
      if !(← onHost Htc.setupComplete) then return false
      let r ← (freshWmi.waitServiceAndReadyCalls events 10000).run call
      return r.map Prod.fst = some true
    | _ => return false

end BringUp

end Qca9377
