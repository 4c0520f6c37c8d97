import Qca9377.Host

namespace Qca9377
open Bytes Interleaving
set_option autoImplicit true

def kBmiDone : Nat := 1
def kBmiReadMemory : Nat := 2
def kBmiWriteMemory : Nat := 3
def kBmiExecute : Nat := 4
def kBmiGetTargetInfo : Nat := 8
def kBmiLzStreamStart : Nat := 13
def kBmiLzData : Nat := 14
def kBmiMaxDataSize : Nat := 256
def kHostInterestAddress : Nat := 0x00400800

/-- The fixed part of a command: its id and its arguments, as words. -/
def bmiCmd (id : Nat) (args : List Nat) : List UInt8 := encodeWords 4 (id :: args)

def Host.stage (stage : BmiStage) (h : Host) : Host :=
  h.setBmi { h.bmi with fLastStage := stage }

namespace Bmi

def setStage (stage : BmiStage) : Prog Host Unit := modify (Host.stage stage)

/-- `Bmi::exchangeWait`: the bytes copied to `resp` and the length in `gotLen`. -/
def exchangeWait (cmd : List UInt8) (respLen : Nat) : Prog Host (Option (List UInt8 × Nat)) := do
  if (← read fun h => h.bmi.fDoneSent) then
    setStage .afterDone
    return none
  setStage .postRecv
  if !(← CEManager.postRecv) then return none
  setStage .send
  if !(← CEManager.send cmd) then return none
  setStage .recvWait
  if !(← CEManager.recvWait kQCAExchangeTimeout_ms) then return none
  setStage .shortResp
  let nbytes ← read fun h => h.fCtrl.dst.fRxNbytes
  if nbytes < respLen then return none
  let resp ← read fun h => h.fCtrl.dst.rxBuf.take respLen
  setStage .ok
  return some (resp, nbytes)

/-- `Bmi::getTargetInfo`; the response holds a length, the version and the type. -/
def getTargetInfo : Prog Host Bool := do
  match ← exchangeWait (bmiCmd kBmiGetTargetInfo []) 12 with
  | none => return false
  | some (resp, _) =>
    modify fun h => h.setBmi
      { h.bmi with
        fTargetVersion := decodeLE ((resp.drop 4).take 4)
        fTargetType := decodeLE ((resp.drop 8).take 4) }
    return true

def readMemory (addr len : Nat) : Prog Host (Option (List UInt8)) := do
  if len = 0 ∨ kBmiMaxDataSize < len then return none
  match ← exchangeWait (bmiCmd kBmiReadMemory [addr, len]) len with
  | none => return none
  | some (resp, _) => return some resp

def read32 (itemOffset : Nat) : Prog Host (Option Nat) := do
  match ← readMemory (kHostInterestAddress + itemOffset) 4 with
  | none => return none
  | some out => return some (decodeLE out)

def execute (addr param : Nat) : Prog Host (Option Nat) := do
  match ← exchangeWait (bmiCmd kBmiExecute [addr, param]) 4 with
  | none => return none
  | some (resp, _) => return some (decodeLE resp)

/-- The chunks of `writeMemory`; `payload` is the command's payload field, whose old bytes pad a
chunk that is not a whole number of words. -/
def writeChunks (payload : List UInt8) (addr : Nat) (buf : List UInt8) : Prog Host Bool :=
  if _ : buf = [] then return true
  else do
    let tx := min buf.length (kBmiMaxDataSize - 12)
    let filled := poke payload 0 (buf.take tx)
    let padded := (tx + 3) / 4 * 4
    if !(← CEManager.send (bmiCmd kBmiWriteMemory [addr, padded] ++ filled.take padded)) then
      return false
    writeChunks filled (addr + tx) (buf.drop tx)
termination_by buf.length
decreasing_by
  have := List.length_pos_iff.2 ‹buf ≠ []›
  simp only [List.length_drop, kBmiMaxDataSize]
  omega

/-- `Bmi::writeMemory`; `stack` is what the payload field of the local command starts as. -/
def writeMemory (stack : List UInt8) (addr : Nat) (buf : List UInt8) : Prog Host Bool :=
  if buf = [] then return false else writeChunks stack addr buf

def write32 (stack : List UInt8) (itemOffset val : Nat) : Prog Host Bool :=
  writeMemory stack (kHostInterestAddress + itemOffset) (encodeLE 4 val)

/-- The chunks of `fastDownload` up to the last whole word. -/
def lzChunks (buf : List UInt8) : Prog Host Bool :=
  if _ : buf = [] then return true
  else do
    let tx := min buf.length (kBmiMaxDataSize - 8)
    if !(← CEManager.send (bmiCmd kBmiLzData [tx] ++ buf.take tx)) then return false
    lzChunks (buf.drop tx)
termination_by buf.length
decreasing_by
  have := List.length_pos_iff.2 ‹buf ≠ []›
  simp only [List.length_drop, kBmiMaxDataSize]
  omega

def fastDownload (addr : Nat) (buf : List UInt8) : Prog Host Bool := do
  if buf = [] then return false
  if !(← CEManager.send (bmiCmd kBmiLzStreamStart [addr])) then return false
  let tail := buf.length % 4
  if !(← lzChunks (buf.take (buf.length - tail))) then return false
  if tail ≠ 0 then
    let trailer := poke (List.replicate 4 0) 0 (buf.drop (buf.length - tail))
    if !(← CEManager.send (bmiCmd kBmiLzData [4] ++ trailer)) then return false
  if !(← CEManager.send (bmiCmd kBmiLzStreamStart [0])) then return false
  return true

def done : Prog Host Bool := do
  if !(← CEManager.send (bmiCmd kBmiDone [])) then return false
  modify fun h => h.setBmi { h.bmi with fDoneSent := true }
  return true

end Bmi

/-- The commands that the target answers. -/
inductive BmiQuery where
  | getTargetInfo
  | readMemory (addr len : Nat)
  | execute (addr param : Nat)

def BmiQuery.cmd : BmiQuery → List UInt8
  | .getTargetInfo => bmiCmd kBmiGetTargetInfo []
  | .readMemory addr len => bmiCmd kBmiReadMemory [addr, len]
  | .execute addr param => bmiCmd kBmiExecute [addr, param]

def BmiQuery.respLen : BmiQuery → Nat
  | .getTargetInfo => 12
  | .readMemory _ len => len
  | .execute _ _ => 4

/-- The calls of the BMI object, with the exchange that its queries share. -/
inductive BmiCall where
  | exchangeWait (q : BmiQuery)
  | getTargetInfo
  | readMemory (addr len : Nat)
  | read32 (itemOffset : Nat)
  | execute (addr param : Nat)
  | writeMemory (stack : List UInt8) (addr : Nat) (buf : List UInt8)
  | write32 (stack : List UInt8) (itemOffset val : Nat)
  | fastDownload (addr : Nat) (buf : List UInt8)
  | done

inductive BmiResult where
  | flag (ok : Bool)
  | bytes (resp : Option (List UInt8))
  | word (val : Option Nat)
  deriving DecidableEq

def BmiCall.body : BmiCall → Prog Host BmiResult
  | .exchangeWait q => return .bytes ((← Bmi.exchangeWait q.cmd q.respLen).map Prod.fst)
  | .getTargetInfo => return .flag (← Bmi.getTargetInfo)
  | .readMemory addr len => return .bytes (← Bmi.readMemory addr len)
  | .read32 itemOffset => return .word (← Bmi.read32 itemOffset)
  | .execute addr param => return .word (← Bmi.execute addr param)
  | .writeMemory stack addr buf => return .flag (← Bmi.writeMemory stack addr buf)
  | .write32 stack itemOffset val => return .flag (← Bmi.write32 stack itemOffset val)
  | .fastDownload addr buf => return .flag (← Bmi.fastDownload addr buf)
  | .done => return .flag (← Bmi.done)

def BmiCall.query : BmiCall → Option BmiQuery
  | .exchangeWait q => some q
  | .getTargetInfo => some .getTargetInfo
  | .readMemory addr len =>
    if len = 0 ∨ kBmiMaxDataSize < len then none else some (.readMemory addr len)
  | .read32 itemOffset => some (.readMemory (kHostInterestAddress + itemOffset) 4)
  | .execute addr param => some (.execute addr param)
  | _ => none

/-- A command whose id is one of those the target answers. -/
def responseBearing (cmd : List UInt8) : Bool :=
  decodeLE (cmd.take 4) ∈ [kBmiReadMemory, kBmiExecute, kBmiGetTargetInfo]

theorem responseBearing_bmiCmd (id : Nat) (args : List Nat) (rest : List UInt8) :
    responseBearing (bmiCmd id args ++ rest) =
      (id % 256 ^ 4 ∈ [kBmiReadMemory, kBmiExecute, kBmiGetTargetInfo] : Bool) := by
  have hid : (bmiCmd id args ++ rest).take 4 = encodeLE 4 id := by
    rw [bmiCmd, encodeWords, List.flatMap_cons, List.append_assoc]
    exact List.take_left' (encodeLE_length 4 id)
  rw [responseBearing, hid, decodeLE_encodeLE]

theorem BmiQuery.bearing (q : BmiQuery) : responseBearing q.cmd = true := by
  rw [← List.append_nil q.cmd]
  cases q with
  | getTargetInfo => exact responseBearing_bmiCmd _ _ _
  | readMemory addr len => exact responseBearing_bmiCmd _ _ _
  | execute addr param => exact responseBearing_bmiCmd _ _ _

def BmiCall.outOf : BmiCall → Option (List UInt8) → BmiResult
  | .read32 _, resp => .word (resp.map decodeLE)
  | .execute _ _, resp => .word (resp.map decodeLE)
  | _, resp => .bytes resp

theorem readMemory_query (hlen : ¬ (len = 0 ∨ kBmiMaxDataSize < len)) :
    Bmi.readMemory addr len =
      (Bmi.exchangeWait (BmiQuery.readMemory addr len).cmd len).bind fun r =>
        .ret (r.map Prod.fst) := by
  rw [Bmi.readMemory, if_neg hlen]
  congr
  funext r
  cases r <;> rfl

/-- Apart from `getTargetInfo`, a call with a query is its exchange and nothing else. -/
theorem BmiCall.body_query {c : BmiCall} (hc : c.query = some q) (ht : c ≠ .getTargetInfo) :
    c.body =
      (Bmi.exchangeWait q.cmd q.respLen).bind fun r => .ret (c.outOf (r.map Prod.fst)) := by
  cases c with
  | exchangeWait p =>
    obtain rfl := Option.some.inj hc
    rfl
  | getTargetInfo => exact absurd rfl ht
  | readMemory addr len =>
    simp only [BmiCall.query] at hc
    split at hc
    · cases hc
    · next hlen =>
      obtain rfl := Option.some.inj hc
      simp only [BmiCall.body, readMemory_query hlen, bind_eq_bind, Prog.bind_assoc]
      rfl
  | read32 itemOffset =>
    obtain rfl := Option.some.inj hc
    have hlen : ¬ (4 = 0 ∨ kBmiMaxDataSize < 4) := by decide
    simp only [BmiCall.body, Bmi.read32, readMemory_query hlen, bind_eq_bind, Prog.bind_assoc,
      Prog.ret_bind]
    congr
    funext r
    cases r <;> rfl
  | execute addr param =>
    obtain rfl := Option.some.inj hc
    simp only [BmiCall.body, Bmi.execute, bind_eq_bind, Prog.bind_assoc]
    congr
    funext r
    cases r <;> rfl
  | writeMemory => cases hc
  | write32 => cases hc
  | fastDownload => cases hc
  | done => cases hc

end Qca9377
