import Qca9377.Host
import Qca9377.Tlv

namespace Qca9377
open Bytes Interleaving
set_option autoImplicit true

def kHtcMsgReady : Nat := 1
def kHtcMsgConnectSvc : Nat := 2
def kHtcMsgConnectResp : Nat := 3
def kHtcMsgSetupCompleteEx : Nat := 5
def kHtcSvcWmiControl : Nat := 0x0100
def kHtcConnFlagsDisableCreditFlow : Nat := 1 <<< 3
def kHtcConnFlagsRecvAllocShift : Nat := 8
def kHtcTxFlagNeedCreditUpdate : UInt8 := 0x01
def kHtcRxFlagTrailerPresent : UInt8 := 0x02
def kHtcRecordCredits : UInt8 := 1
def kHtcFrameHdrLen : Nat := 8

/-- Two bytes of a buffer as a little-endian number; `none` is a read outside it. -/
def rd16At (b : List UInt8) (off : Nat) : Option Nat := do
  return rd16 (← b[off]?) (← b[off + 1]?)

/-- The entries of one credit record, from byte `i` of its body on. -/
def creditEntries (eid : UInt8) (trailer : List UInt8) (off recLen i credits : Nat) :
    Option Nat :=
  if i + 4 ≤ recLen then do
    let e ← trailer[off + i]?
    let c ← trailer[off + i + 1]?
    creditEntries eid trailer off recLen (i + 4)
      (if e = eid then (credits + c.toNat) % 2 ^ 16 else credits)
  else some credits
termination_by recLen - i

/-- The record loop of `applyCreditReport`, computing the new `fWmiCredits`. -/
def creditRecords (eid : UInt8) (trailer : List UInt8) (off credits : Nat) : Option Nat :=
  if off + 2 ≤ trailer.length then do
    let recId ← trailer[off]?
    let recLen ← trailer[off + 1]?
    if trailer.length < off + 4 + recLen.toNat then
      return credits
    let credits ←
      if recId = kHtcRecordCredits ∧ 4 ≤ recLen.toNat then
        creditEntries eid trailer (off + 4) recLen.toNat 0 credits
      else some credits
    creditRecords eid trailer (off + 4 + recLen.toNat) credits
  else some credits
termination_by trailer.length - off

def Htc.applyCreditReport (h : Htc) (trailer : List UInt8) : Option Htc := do
  return { h with fWmiCredits := ← creditRecords h.fWmiEid trailer 0 h.fWmiCredits }

/-- The header fields `recvWmi` works with. -/
structure HtcRx where
  flags : UInt8
  len : Nat
  trailerLen : Nat

/-- The checks of `recvWmi` on a frame of `rawLen` bytes; a rejected frame has no fields. -/
def Htc.parseHdr (h : Htc) (raw : List UInt8) (rawLen : Nat) : Option (Option HtcRx) :=
  if rawLen < kHtcFrameHdrLen then some none
  else do
    let eid ← raw[0]?
    let flags ← raw[1]?
    let len ← rd16At raw 2
    let trailerLen ← raw[4]?
    if eid ≠ h.fWmiEid ∧ eid ≠ 0 then return none
    if rawLen - kHtcFrameHdrLen < len then return none
    if len < trailerLen.toNat then return none
    return some ⟨flags, len, trailerLen.toNat⟩

/-- The credit report of an accepted frame. -/
def Htc.rxTrailer (h : Htc) (raw : List UInt8) (rawLen : Nat) (x : HtcRx) : Option Htc :=
  if x.trailerLen ≠ 0 ∧ x.flags &&& kHtcRxFlagTrailerPresent ≠ 0 then
    let trOff := kHtcFrameHdrLen + x.len - x.trailerLen
    if kHtcFrameHdrLen ≤ trOff ∧ trOff + x.trailerLen ≤ rawLen then do
      h.applyCreditReport (← slice raw trOff x.trailerLen)
    else some h
  else some h

/-- What an accepted frame copies out; no bytes stand for the return value 0. -/
def HtcRx.payload (x : HtcRx) (raw : List UInt8) (bufLen : Nat) : Option (List UInt8) :=
  let payloadLen := x.len - x.trailerLen
  if payloadLen = 0 ∨ bufLen < payloadLen then some []
  else slice raw kHtcFrameHdrLen payloadLen

/-- `recvWmi` on a received frame. -/
def Htc.recvFrame (h : Htc) (raw : List UInt8) (rawLen bufLen : Nat) :
    Option (Htc × List UInt8) := do
  match ← h.parseHdr raw rawLen with
  | none => return (h, [])
  | some x => return (← h.rxTrailer raw rawLen x, ← x.payload raw bufLen)

theorem Htc.recvFrame_fault {h : Htc} (bufLen : Nat) (hp : h.parseHdr raw rawLen = none) :
    h.recvFrame raw rawLen bufLen = none := by
  simp only [Htc.recvFrame, hp, Option.bind_eq_bind, Option.bind_none]

theorem Htc.recvFrame_reject {h : Htc} (bufLen : Nat) (hp : h.parseHdr raw rawLen = some none) :
    h.recvFrame raw rawLen bufLen = some (h, []) := by
  simp only [Htc.recvFrame, hp, Option.bind_eq_bind, Option.bind_some, Option.pure_def]

theorem Htc.recvFrame_accept {h : Htc} (bufLen : Nat) (hp : h.parseHdr raw rawLen = some (some x)) :
    h.recvFrame raw rawLen bufLen =
      (h.rxTrailer raw rawLen x).bind fun k =>
        (x.payload raw bufLen).bind fun b => some (k, b) := by
  simp only [Htc.recvFrame, hp, Option.bind_eq_bind, Option.bind_some, Option.pure_def]

/-- The frame header both send paths build. -/
def htcHdr (eid flags : UInt8) (len : Nat) (seq : UInt8) : List UInt8 :=
  [eid, flags] ++ encodeLE 2 len ++ [0, seq, 0, 0]

def Htc.sendWmi (payload : List UInt8) : Prog Host Bool := do
  let htc ← read Host.htc
  let len := payload.length
  if htc.fWmiEid = 0xFF then return false
  if len = 0 ∨ 2040 < len then return false
  let needed := (len + htc.fCreditSize - 1) / htc.fCreditSize
  if htc.fWmiCredits < needed then return false
  if !(← CEManager.wmiPostRecvIfIdle) then return false
  modify fun h => h.setHtc { h.htc with fWmiSeq := h.htc.fWmiSeq + 1 }
  if !(← CEManager.wmiSend
      (htcHdr htc.fWmiEid kHtcTxFlagNeedCreditUpdate len htc.fWmiSeq ++ payload)) then
    return false
  modify fun h => h.setHtc { h.htc with fWmiCredits := h.htc.fWmiCredits - needed }
  return true

/-- `Htc::recvWmi`; `none` is a read outside the receive buffer. -/
def Htc.recvWmi (bufLen timeoutMs : Nat) : Prog Host (Option (List UInt8)) := do
  if !(← CEManager.wmiRecvWait timeoutMs) then return some []
  let hdr ← read fun h => h.htc.parseHdr h.fWmi.dst.rxBuf h.fWmi.dst.fRxNbytes
  match hdr with
  | none => return none
  | some none => return some []
  | some (some x) =>
    let credited ← read fun h => h.htc.rxTrailer h.fWmi.dst.rxBuf h.fWmi.dst.fRxNbytes x
    match credited with
    | none => return none
    | some htc =>
      modify fun h => h.setHtc htc
      read fun h => x.payload h.fWmi.dst.rxBuf bufLen

def Htc.sendCtrlFrame (payload : List UInt8) : Prog Host Bool := do
  if 256 < payload.length then return false
  let seq ← read fun h => h.htc.fCtrlSeq
  modify fun h => h.setHtc { h.htc with fCtrlSeq := h.htc.fCtrlSeq + 1 }
  CEManager.send (htcHdr 0 0 payload.length seq ++ payload)

/-- The polling loop of `waitTarget` with the rounds left: whether READY has been received. -/
def Htc.waitReady (timeoutMs : Nat) : Nat → Prog Host (Option Bool)
  | 0 => return some false
  | n + 1 => do
    if !(← CEManager.postRecv) then return some false
    if !(← CEManager.recvWait timeoutMs) then return some false
    let frame ← read fun h => (h.fCtrl.dst.rxBuf, h.fCtrl.dst.fRxNbytes)
    if frame.2 < kHtcFrameHdrLen + 2 then Htc.waitReady timeoutMs n
    else
      match rd16At frame.1 kHtcFrameHdrLen with
      | none => return none
      | some msgId =>
        if msgId ≠ kHtcMsgReady then Htc.waitReady timeoutMs n else return some true

/-- `Htc::waitTarget`; `none` is a read outside the receive buffer. -/
def Htc.waitTarget (timeoutMs : Nat) : Prog Host (Option Bool) := do
  match ← Htc.waitReady timeoutMs (pollDeadline timeoutMs) with
  | none => return none
  | some false => return some false
  | some true =>
    let frame ← read fun h => (h.fCtrl.dst.rxBuf, h.fCtrl.dst.fRxNbytes)
    if frame.2 < kHtcFrameHdrLen + 2 + 6 then return some false
    match rd16At frame.1 (kHtcFrameHdrLen + 2), rd16At frame.1 (kHtcFrameHdrLen + 4) with
    | some total, some size =>
      modify fun h => h.setHtc { h.htc with fTotalCredits := total, fCreditSize := size }
      return some (0 < total ∧ 0 < size)
    | _, _ => return none

def Htc.connectPayload (c : Htc) (serviceId : Nat) : List UInt8 :=
  let flags :=
    if serviceId = kHtcSvcWmiControl then (c.fTotalCredits % 256) <<< kHtcConnFlagsRecvAllocShift
    else kHtcConnFlagsDisableCreditFlow
  encodeLE 2 kHtcMsgConnectSvc ++ encodeLE 2 serviceId ++ encodeLE 2 flags ++ [0, 0]

/-- The checks of `connectService` on the response: the endpoint and the message size it grants. -/
def Htc.connectResp (serviceId : Nat) (raw : List UInt8) (rawLen : Nat) :
    Option (Option (UInt8 × Nat)) :=
  if rawLen < kHtcFrameHdrLen + 2 + 6 then some none
  else do
    let msgId ← rd16At raw kHtcFrameHdrLen
    if msgId ≠ kHtcMsgConnectResp then return none
    let svc ← rd16At raw (kHtcFrameHdrLen + 2)
    let st ← raw[kHtcFrameHdrLen + 4]?
    let eid ← raw[kHtcFrameHdrLen + 5]?
    let maxMsg ← rd16At raw (kHtcFrameHdrLen + 6)
    if svc ≠ serviceId ∨ st ≠ 0 then return none
    return some (eid, maxMsg)

/-- `Htc::connectService`; `none` is a read outside the receive buffer. -/
def Htc.connectService (serviceId : Nat) : Prog Host (Option (Option (UInt8 × Nat))) := do
  let htc ← read Host.htc
  if !(← CEManager.postRecv) then return some none
  if !(← Htc.sendCtrlFrame (htc.connectPayload serviceId)) then return some none
  if !(← CEManager.recvWait kQCAExchangeTimeout_ms) then return some none
  let frame ← read fun h => (h.fCtrl.dst.rxBuf, h.fCtrl.dst.fRxNbytes)
  match Htc.connectResp serviceId frame.1 frame.2 with
  | none => return none
  | some none => return some none
  | some (some granted) =>
    if serviceId = kHtcSvcWmiControl then
      modify fun h => h.setHtc
        { h.htc with fWmiEid := granted.1, fWmiCredits := h.htc.fTotalCredits }
    return some (some granted)

def Htc.setupComplete : Prog Host Bool :=
  Htc.sendCtrlFrame (encodeLE 2 kHtcMsgSetupCompleteEx ++ List.replicate 10 0)

end Qca9377
