import Qca9377.Bytes
import Qca9377.Interleaving

namespace Qca9377
open Bytes Interleaving
set_option autoImplicit true

structure CEDescriptor where
  addr : Nat
  nbytes : Nat
  flags : Nat
  deriving DecidableEq, Repr

def kRingN : Nat := 16
def kTxBufSz : Nat := 2048
def kRxBufSz : Nat := 2048
def kQCAPollStep_us : Nat := 50
def kQCAExchangeTimeout_ms : Nat := 10000

/-- Polls that fit into a timeout; the product is computed on 32 bits. -/
def pollDeadline (timeoutMs : Nat) : Nat := timeoutMs * 1000 % 2 ^ 32 / kQCAPollStep_us

/-- The failures that the copy-engine code reports through `IOLog`. -/
inductive CELog where
  | sendBadLen (len : Nat)
  | sendPreWaitTimeout (srri w : Nat)
  | sendCompletionTimeout (srri w : Nat)
  | recvTimeout (drri sw : Nat)
  deriving DecidableEq, Repr

/-- The host-to-target half of a pair: the object's fields, the ring and buffer in the DMA
region, the registers, and the engine's latch. The last two fields record the history. -/
structure SrcRing where
  fSrcDesc : Nat → CEDescriptor
  txBuf : List UInt8
  fTxPhys : Nat
  fSrcWrite : Nat
  srWrIndex : Nat
  currentSRRI : Nat
  gone : Bool
  fetched : Option (List UInt8)
  iolog : List CELog
  posted : List (List UInt8)
  consumed : List (List UInt8)

/-- The target-to-host half of a pair. `unlanded` holds the lengths the engine still has to
write back; the last four fields record the history. -/
structure DstRing where
  fDstDesc : Nat → CEDescriptor
  rxBuf : List UInt8
  fRxPhys : Nat
  fDstWrite : Nat
  fDstSw : Nat
  fRxNbytes : Nat
  dstWrIndex : Nat
  currentDRRI : Nat
  gone : Bool
  fillIdx : Nat
  landIdx : Nat
  unlanded : List Nat
  iolog : List CELog
  posts : Nat
  advanced : Nat
  filled : List (List UInt8)
  received : List (List UInt8)

structure CECopyPair where
  src : SrcRing
  dst : DstRing

def CECopyPair.setSrc (p : CECopyPair) (s : SrcRing) : CECopyPair := { p with src := s }

def CECopyPair.setDst (p : CECopyPair) (d : DstRing) : CECopyPair := { p with dst := d }

/-- What the masked SRRI register reads as. -/
def SrcRing.srri (s : SrcRing) : Nat := (if s.gone then 0xffffffff else s.currentSRRI) % kRingN

/-- What the masked DRRI register reads as. -/
def DstRing.drri (d : DstRing) : Nat := (if d.gone then 0xffffffff else d.currentDRRI) % kRingN

def SrcRing.log (m : CELog) (s : SrcRing) : SrcRing := { s with iolog := s.iolog ++ [m] }

/-- `bcopy(buf, fTxCpu, len)`. -/
def SrcRing.copyIn (buf : List UInt8) (s : SrcRing) : SrcRing :=
  { s with txBuf := poke s.txBuf 0 buf }

def SrcRing.writeDesc (len : Nat) (s : SrcRing) : SrcRing :=
  { s with
    fSrcDesc := Function.update s.fSrcDesc s.fSrcWrite ⟨s.fTxPhys % 2 ^ 32, len % 2 ^ 16, 0⟩ }

def SrcRing.stepWrite (s : SrcRing) : SrcRing :=
  { s with fSrcWrite := (s.fSrcWrite + 1) % kRingN }

/-- The doorbell write; the frame it announces is recorded. -/
def SrcRing.ring (buf : List UInt8) (s : SrcRing) : SrcRing :=
  { s with srWrIndex := s.fSrcWrite, posted := s.posted ++ [buf] }

/-- Read SRRI until it equals the write index, `n` more times at most. -/
def pollSRRI : Nat → Prog SrcRing (Nat × Nat)
  | 0 => read fun s => (s.srri, s.fSrcWrite)
  | n + 1 => do
    let r ← read fun s => (s.srri, s.fSrcWrite)
    if r.1 = r.2 then return r else pollSRRI n

/-- `CECopyPair::send`. -/
def SrcRing.send (buf : List UInt8) : Prog SrcRing Bool := do
  let len := buf.length
  if len = 0 ∨ kTxBufSz < len ∨ 0xFFFF < len then
    modify (SrcRing.log (.sendBadLen len))
    return false
  let (srri, w) ← pollSRRI (pollDeadline kQCAExchangeTimeout_ms)
  if srri ≠ w then
    modify (SrcRing.log (.sendPreWaitTimeout srri w))
    return false
  modify (SrcRing.copyIn buf)
  modify (SrcRing.writeDesc len)
  modify SrcRing.stepWrite
  modify (SrcRing.ring buf)
  let (srri, w) ← pollSRRI (pollDeadline kQCAExchangeTimeout_ms)
  if srri ≠ w then
    modify (SrcRing.log (.sendCompletionTimeout srri w))
    return false
  return true

def DstRing.log (m : CELog) (d : DstRing) : DstRing := { d with iolog := d.iolog ++ [m] }

def DstRing.writeDesc (d : DstRing) : DstRing :=
  { d with fDstDesc := Function.update d.fDstDesc d.fDstWrite ⟨d.fRxPhys % 2 ^ 32, 0, 0⟩ }

def DstRing.stepWrite (d : DstRing) : DstRing :=
  { d with fDstWrite := (d.fDstWrite + 1) % kRingN }

/-- The doorbell write; the number of posted entries is recorded. -/
def DstRing.ring (d : DstRing) : DstRing :=
  { d with dstWrIndex := d.fDstWrite, posts := d.posts + 1 }

/-- `CECopyPair::postRecv`. -/
def DstRing.postRecv : Prog DstRing Bool := do
  modify DstRing.writeDesc
  modify DstRing.stepWrite
  modify DstRing.ring
  return true

/-- `CECopyPair::rxArmed`; the difference is computed on 32 bits. -/
def DstRing.rxArmed (d : DstRing) : Nat :=
  (((d.fDstWrite : Int) - d.fDstSw) % 2 ^ 32).toNat % kRingN

/-- Take the completed entry; the bytes it names are recorded. -/
def DstRing.consume (nbytes : Nat) (d : DstRing) : DstRing :=
  { d with
    fRxNbytes := nbytes
    fDstSw := (d.fDstSw + 1) % kRingN
    received := d.received ++ [d.rxBuf.take nbytes] }

/-- The polling loop of `CECopyPair::recvWait`, with the polls left. -/
def recvPoll : Nat → Prog DstRing Bool
  | 0 => do
    let r ← read fun d => (d.drri, d.fDstSw)
    modify (DstRing.log (.recvTimeout r.1 r.2))
    return false
  | n + 1 => do
    let r ← read fun d => (d.drri, d.fDstSw)
    if r.1 = r.2 then recvPoll n
    else do
      let nbytes ← read fun d => (d.fDstDesc d.fDstSw).nbytes
      if nbytes = 0 then recvPoll n
      else do
        modify (DstRing.consume nbytes)
        return true

/-- `CECopyPair::recvWait`. -/
def DstRing.recvWait (timeoutMs : Nat) : Prog DstRing Bool := recvPoll (pollDeadline timeoutMs)

def CECopyPair.send (buf : List UInt8) : Prog CECopyPair Bool :=
  (SrcRing.send buf).zoom CECopyPair.src CECopyPair.setSrc

def CECopyPair.postRecv : Prog CECopyPair Bool :=
  DstRing.postRecv.zoom CECopyPair.dst CECopyPair.setDst

def CECopyPair.recvWait (timeoutMs : Nat) : Prog CECopyPair Bool :=
  (DstRing.recvWait timeoutMs).zoom CECopyPair.dst CECopyPair.setDst

/-- The bytes a source descriptor names; nothing outside the tx buffer is modelled. -/
def SrcRing.dmaRead (s : SrcRing) (d : CEDescriptor) : List UInt8 :=
  if d.addr = s.fTxPhys % 2 ^ 32 then s.txBuf.take d.nbytes else []

/-- The entry at SRRI and the bytes it names are latched. -/
def SrcRing.fetch (s : SrcRing) : SrcRing :=
  { s with fetched := some (s.dmaRead (s.fSrcDesc s.currentSRRI)) }

def SrcRing.advance (f : List UInt8) (s : SrcRing) : SrcRing :=
  { s with
    fetched := none
    currentSRRI := (s.currentSRRI + 1) % kRingN
    consumed := s.consumed ++ [f] }

/-- The engine reads the entry at SRRI and the buffer it names, then advances SRRI. -/
inductive SrcRing.Engine : SrcRing → SrcRing → Prop
  | fetch (hf : s.fetched = none) (hw : s.currentSRRI ≠ s.srWrIndex) : Engine s s.fetch
  | advance (hf : s.fetched = some f) : Engine s (s.advance f)

theorem SrcRing.Engine.consumed {s t : SrcRing} (hs : SrcRing.Engine s t) :
    s.consumed <+: t.consumed := by
  cases hs with
  | fetch => exact List.prefix_refl _
  | advance => exact List.prefix_append _ _

/-- Frame data written where the entry points. -/
def DstRing.fill (f : List UInt8) (d : DstRing) : DstRing :=
  { d with
    rxBuf := if (d.fDstDesc d.fillIdx).addr = d.fRxPhys % 2 ^ 32 then poke d.rxBuf 0 f else d.rxBuf
    fillIdx := (d.fillIdx + 1) % kRingN
    unlanded := d.unlanded ++ [f.length]
    filled := d.filled ++ [f] }

/-- Length written back into the entry. -/
def DstRing.land (n : Nat) (rest : List Nat) (d : DstRing) : DstRing :=
  { d with
    fDstDesc := Function.update d.fDstDesc d.landIdx { d.fDstDesc d.landIdx with nbytes := n }
    landIdx := (d.landIdx + 1) % kRingN
    unlanded := rest }

def DstRing.advance (d : DstRing) : DstRing :=
  { d with currentDRRI := (d.currentDRRI + 1) % kRingN, advanced := d.advanced + 1 }

/-- The engine completes posted entries in order: the data before the length, DRRI at any time.
Which frames the target has to deliver in a state is a parameter. -/
inductive DstRing.Engine (deliver : DstRing → List UInt8 → Prop) : DstRing → DstRing → Prop
  | fill (hd : deliver d f) (hw : d.fillIdx ≠ d.dstWrIndex) : Engine deliver d (d.fill f)
  | land (hu : d.unlanded = n :: rest) : Engine deliver d (d.land n rest)
  | advance (hw : d.currentDRRI ≠ d.dstWrIndex) : Engine deliver d d.advance

theorem DstRing.Engine.mono {D D' : DstRing → List UInt8 → Prop} (h : ∀ d f, D d f → D' d f)
    (hs : DstRing.Engine D d d') : DstRing.Engine D' d d' := by
  cases hs with
  | fill hd hw => exact .fill (h _ _ hd) hw
  | land hu => exact .land hu
  | advance hw => exact .advance hw

/-- A frame the receive buffer can hold. -/
def fits (_ : DstRing) (f : List UInt8) : Prop := 0 < f.length ∧ f.length ≤ kRxBufSz

def SrcRing.eager (s : SrcRing) : SrcRing :=
  if s.fetched = none ∧ s.currentSRRI ≠ s.srWrIndex then
    s.fetch.advance (s.dmaRead (s.fSrcDesc s.currentSRRI))
  else s

theorem SrcRing.eager_star (s : SrcRing) : Relation.ReflTransGen SrcRing.Engine s s.eager := by
  unfold SrcRing.eager
  split
  · next h => exact .head (.fetch h.1 h.2) (.single (.advance rfl))
  · exact .refl

def freshSrc : SrcRing where
  fSrcDesc := fun _ => ⟨0, 0, 0⟩
  txBuf := []
  fTxPhys := 0x2000
  fSrcWrite := 0
  srWrIndex := 0
  currentSRRI := 0
  gone := false
  fetched := none
  iolog := []
  posted := []
  consumed := []

def freshDst : DstRing where
  fDstDesc := fun _ => ⟨0, 0, 0⟩
  rxBuf := List.replicate kRxBufSz 0
  fRxPhys := 0x3000
  fDstWrite := 0
  fDstSw := 0
  fRxNbytes := 0
  dstWrIndex := 0
  currentDRRI := 0
  gone := false
  fillIdx := 0
  landIdx := 0
  unlanded := []
  iolog := []
  posts := 0
  advanced := 0
  filled := []
  received := []

def freshPair : CECopyPair := ⟨freshSrc, freshDst⟩

end Qca9377
