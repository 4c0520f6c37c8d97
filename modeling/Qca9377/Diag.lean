import Qca9377.CopyEngine

namespace Qca9377
open Bytes Interleaving
set_option autoImplicit true

def kDiagMax : Nat := 512
def kWaitStep_us : Nat := 50
def kWaitTimeout_us : Nat := 10000

/-- Where the interconnect routes the address of a descriptor: the bounce buffer of the host or a
CE address of the target. -/
inductive DiagAddr where
  | bounce
  | target (ceAddr : Nat)
  deriving DecidableEq, Repr

structure DiagDescriptor where
  addr : DiagAddr
  nbytes : Nat
  flags : Nat
  deriving DecidableEq, Repr

/-- The failures that `CEDiag::xfer` reports through `IOLog`. -/
inductive DiagLog where
  | sendCompletionTimeout (srri w : Nat)
  | recvCompletionTimeout (drri sw : Nat)
  | completedNbytes (nbytes len : Nat)
  deriving DecidableEq, Repr

/-- The two memories a transfer runs between. `earlier` holds the contents that the target had
before its present ones, `landed` what transfers have written into it. -/
structure DiagMem where
  fBounce : List UInt8
  contents : Nat → UInt8
  earlier : List (Nat → UInt8)
  landed : List (Nat × List UInt8)

/-- The object's fields, its rings, the registers of CE7, and the engine between two steps:
the data it has read from the entry at SRRI, the data on its way to a destination entry, and the
lengths it still has to write back. -/
structure CEDiag where
  fRegionCpu : Bool
  fSrcDesc : Nat → DiagDescriptor
  fDstDesc : Nat → DiagDescriptor
  fSrcWrite : Nat
  fDstWrite : Nat
  fDstSw : Nat
  iolog : List DiagLog
  coreCtrl : Nat
  srWrIndex : Nat
  dstWrIndex : Nat
  currentSRRI : Nat
  currentDRRI : Nat
  fetched : Option (List UInt8)
  flying : List (List UInt8)
  fillIdx : Nat
  unlanded : List Nat
  landIdx : Nat
  mem : DiagMem

def bytesAt (m : Nat → UInt8) (ceAddr len : Nat) : List UInt8 :=
  (List.range len).map fun i => m (ceAddr + i)

def storeAt (m : Nat → UInt8) (ceAddr : Nat) (data : List UInt8) : Nat → UInt8 :=
  fun a => if ceAddr ≤ a then data.getD (a - ceAddr) (m a) else m a

def DiagMem.dmaRead (m : DiagMem) (d : DiagDescriptor) : List UInt8 :=
  match d.addr with
  | .bounce => m.fBounce.take d.nbytes
  | .target ceAddr => bytesAt m.contents ceAddr d.nbytes

/-- The target's memory takes new contents. -/
def DiagMem.change (contents : Nat → UInt8) (m : DiagMem) : DiagMem :=
  { m with contents := contents, earlier := m.earlier ++ [m.contents] }

/-- Data written where a destination descriptor points. -/
def DiagMem.dmaWrite (data : List UInt8) (m : DiagMem) : DiagAddr → DiagMem
  | .bounce => { m with fBounce := poke m.fBounce 0 data }
  | .target ceAddr =>
    { m.change (storeAt m.contents ceAddr data) with landed := m.landed ++ [(ceAddr, data)] }

/-- `bcopy(buf, fBounce, len)`. -/
def DiagMem.copyIn (buf : List UInt8) (m : DiagMem) : DiagMem :=
  { m with fBounce := poke m.fBounce 0 buf }

def CEDiag.setMem (m : DiagMem) (s : CEDiag) : CEDiag := { s with mem := m }

def CEDiag.log (m : DiagLog) (s : CEDiag) : CEDiag := { s with iolog := s.iolog ++ [m] }

def CEDiag.writeDst (postAddr : DiagAddr) (s : CEDiag) : CEDiag :=
  { s with fDstDesc := Function.update s.fDstDesc s.fDstWrite ⟨postAddr, 0, 0⟩ }

def CEDiag.stepDst (s : CEDiag) : CEDiag := { s with fDstWrite := (s.fDstWrite + 1) % kRingN }

def CEDiag.ringDst (s : CEDiag) : CEDiag := { s with dstWrIndex := s.fDstWrite }

def CEDiag.writeSrc (sendAddr : DiagAddr) (len : Nat) (s : CEDiag) : CEDiag :=
  { s with fSrcDesc := Function.update s.fSrcDesc s.fSrcWrite ⟨sendAddr, len % 2 ^ 16, 0⟩ }

def CEDiag.stepSrc (s : CEDiag) : CEDiag := { s with fSrcWrite := (s.fSrcWrite + 1) % kRingN }

def CEDiag.ringSrc (s : CEDiag) : CEDiag := { s with srWrIndex := s.fSrcWrite }

def CEDiag.stepSw (s : CEDiag) : CEDiag := { s with fDstSw := (s.fDstSw + 1) % kRingN }

def ceAddrOf (coreCtrl addr : Nat) : Nat :=
  ((coreCtrl &&& 0x7ff) <<< 21) |||
    ((if 0x100000 ≤ addr then 0x100000 else 0) ||| (addr &&& 0xfffff))

def CEDiag.targToCeAddr (addr : Nat) : Prog CEDiag Nat := do
  let coreCtrl ← read CEDiag.coreCtrl
  return ceAddrOf coreCtrl addr

/-- Read until `done` holds, `n` times at most. -/
def pollDiag (done : CEDiag → Bool) : Nat → Prog CEDiag Bool
  | 0 => return false
  | n + 1 => do
    let r ← read done
    if r then return true else pollDiag done n

def CEDiag.xfer (postAddr sendAddr : DiagAddr) (len : Nat) : Prog CEDiag Bool := do
  let deadline := kWaitTimeout_us / kWaitStep_us
  modify (CEDiag.writeDst postAddr)
  modify CEDiag.stepDst
  modify CEDiag.ringDst
  modify (CEDiag.writeSrc sendAddr len)
  modify CEDiag.stepSrc
  modify CEDiag.ringSrc
  let sent ← pollDiag (fun s => s.currentSRRI % kRingN == s.fSrcWrite) deadline
  if !sent then
    let r ← read fun s => (s.currentSRRI % kRingN, s.fSrcWrite)
    modify (CEDiag.log (.sendCompletionTimeout r.1 r.2))
    return false
  let completed ← pollDiag (fun s => s.currentDRRI % kRingN != s.fDstSw) deadline
  if !completed then
    let r ← read fun s => (s.currentDRRI % kRingN, s.fDstSw)
    modify (CEDiag.log (.recvCompletionTimeout r.1 r.2))
    return false
  let done ← read fun s => s.fDstDesc s.fDstSw
  modify CEDiag.stepSw
  if done.nbytes ≠ len % 2 ^ 16 then
    modify (CEDiag.log (.completedNbytes done.nbytes len))
    return false
  return true

/-- `CEDiag::readMem`; the result is what is copied to `out` when it returns true. -/
def CEDiag.readMem (targAddr len : Nat) : Prog CEDiag (Option (List UInt8)) := do
  let region ← read CEDiag.fRegionCpu
  if !region ∨ len = 0 ∨ kDiagMax < len then return none
  let ceAddr ← CEDiag.targToCeAddr targAddr
  let ok ← CEDiag.xfer .bounce (.target ceAddr) len
  if !ok then return none
  let out ← read fun s => s.mem.fBounce.take len
  return some out

def CEDiag.writeMem (targAddr : Nat) (buf : List UInt8) : Prog CEDiag Bool := do
  let len := buf.length
  let region ← read CEDiag.fRegionCpu
  if !region ∨ len = 0 ∨ kDiagMax < len then return false
  let ceAddr ← CEDiag.targToCeAddr targAddr
  modify fun s => s.setMem (s.mem.copyIn buf)
  CEDiag.xfer (.target ceAddr) .bounce len

def CEDiag.fetch (s : CEDiag) : CEDiag :=
  { s with fetched := some (s.mem.dmaRead (s.fSrcDesc s.currentSRRI)) }

def CEDiag.consume (data : List UInt8) (s : CEDiag) : CEDiag :=
  { s with
    fetched := none
    currentSRRI := (s.currentSRRI + 1) % kRingN
    flying := s.flying ++ [data] }

def CEDiag.fill (data : List UInt8) (rest : List (List UInt8)) (s : CEDiag) : CEDiag :=
  { s with
    mem := s.mem.dmaWrite data (s.fDstDesc s.fillIdx).addr
    flying := rest
    fillIdx := (s.fillIdx + 1) % kRingN
    unlanded := s.unlanded ++ [data.length] }

def CEDiag.land (n : Nat) (rest : List Nat) (s : CEDiag) : CEDiag :=
  { s with
    fDstDesc := Function.update s.fDstDesc s.landIdx { s.fDstDesc s.landIdx with nbytes := n }
    landIdx := (s.landIdx + 1) % kRingN
    unlanded := rest }

def CEDiag.advance (s : CEDiag) : CEDiag :=
  { s with currentDRRI := (s.currentDRRI + 1) % kRingN }

/-- CE7 consumes source entries and completes destination entries in order: the data before the
length, DRRI at any time. The target changes its own memory at any time. -/
inductive CEDiag.Engine : CEDiag → CEDiag → Prop
  | fetch (hf : s.fetched = none) (hw : s.currentSRRI ≠ s.srWrIndex) : Engine s s.fetch
  | consume (hf : s.fetched = some data) : Engine s (s.consume data)
  | fill (hf : s.flying = data :: rest) (hw : s.fillIdx ≠ s.dstWrIndex) :
      Engine s (s.fill data rest)
  | land (hu : s.unlanded = n :: rest) : Engine s (s.land n rest)
  | advance (hw : s.currentDRRI ≠ s.dstWrIndex) : Engine s s.advance
  | target (contents : Nat → UInt8) : Engine s (s.setMem (s.mem.change contents))

variable {s t : CEDiag}

/-- Between calls both doorbells show the write indices. -/
structure CEDiag.Idle (s : CEDiag) : Prop where
  dst : s.dstWrIndex = s.fDstWrite
  src : s.srWrIndex = s.fSrcWrite

theorem CEDiag.Idle.engine (h : s.Idle) (hs : CEDiag.Engine s t) : t.Idle := by
  cases hs with
  | fetch => exact ⟨h.dst, h.src⟩
  | consume => exact ⟨h.dst, h.src⟩
  | fill => exact ⟨h.dst, h.src⟩
  | land => exact ⟨h.dst, h.src⟩
  | advance => exact ⟨h.dst, h.src⟩
  | target => exact ⟨h.dst, h.src⟩

/-- No source entry is left and no data is on its way. -/
structure CEDiag.Still (s : CEDiag) : Prop where
  fetched : s.fetched = none
  srri : s.currentSRRI = s.srWrIndex
  flying : s.flying = []
  unlanded : s.unlanded = []

/-- Every posted entry is completed, and the host has taken every completion. -/
structure CEDiag.Drained (s : CEDiag) : Prop extends s.Still where
  fill : s.fillIdx = s.dstWrIndex
  land : s.landIdx = s.dstWrIndex
  taken : s.fDstSw = s.fDstWrite

/-- A fact about the memories that outlasts what the target does to its own. -/
def MemKept (P : DiagMem → Prop) : Prop := ∀ m contents, P m → P (m.change contents)

/-- The engine of a still window moves DRRI only; the target changes its memory. -/
theorem CEDiag.Still.engine (h : s.Still) (hs : CEDiag.Engine s t) :
    (∃ drri, t = { s with currentDRRI := drri }) ∨ ∃ c, t = s.setMem (s.mem.change c) := by
  cases hs with
  | fetch _ hw => exact absurd h.srri hw
  | consume hf =>
    rw [h.fetched] at hf
    cases hf
  | fill hf =>
    rw [h.flying] at hf
    cases hf
  | land hu =>
    rw [h.unlanded] at hu
    cases hu
  | advance => exact .inl ⟨_, rfl⟩
  | target c => exact .inr ⟨c, rfl⟩

/-- The states a still window `s` can be found in while `P` holds of the memories. -/
def CEDiag.Rests (s : CEDiag) (P : DiagMem → Prop) (t : CEDiag) : Prop :=
  s.Still ∧ ∃ drri m, t = { s with currentDRRI := drri, mem := m } ∧ P m

theorem rests_assertion (s : CEDiag) (hP : MemKept P) :
    Assertion CEDiag.Engine (fun _ => True) (s.Rests P) where
  step := by
    rintro t u ⟨hs, drri, m, rfl, hm⟩ hu
    have ht : CEDiag.Still { s with currentDRRI := drri, mem := m } := ⟨hs.1, hs.2, hs.3, hs.4⟩
    rcases ht.engine hu with ⟨drri', rfl⟩ | ⟨c, rfl⟩
    · exact ⟨hs, drri', m, rfl, hm⟩
    · exact ⟨hs, drri, _, rfl, hP m c hm⟩
  inv := fun _ _ => trivial

theorem CEDiag.Rests.op {u : CEDiag → CEDiag} (h : s.Rests P t) (hP : MemKept P)
    (hs : s.Still → (u s).Still)
    (hu : ∀ drri m, u { s with currentDRRI := drri, mem := m } =
      { u s with currentDRRI := drri, mem := m })
    (hp : ∀ t, (u s).Rests P t → Safe CEDiag.Engine (fun _ => True) (fun _ _ => True) Q p t) :
    Safe CEDiag.Engine (fun _ => True) (fun _ _ => True) Q (.op u fun _ => p) t := by
  apply Safe.op (rests_assertion s hP) h (fun _ _ => trivial)
  rintro t ⟨hstill, drri, m, rfl, hm⟩
  exact hp _ ⟨hs hstill, drri, m, hu drri m, hm⟩

/-- One transfer: where its entries point, what is `ready` before its data is read, `good` of the
data on its way, and `done` once it has arrived. -/
structure Transfer where
  post : DiagAddr
  send : DiagAddr
  len : Nat
  ready : DiagMem → Prop
  good : List UInt8 → DiagMem → Prop
  done : DiagMem → Prop
  ready_kept : MemKept ready
  good_kept : ∀ data, MemKept (good data)
  done_kept : MemKept done
  fetch : ∀ m, ready m → good (m.dmaRead ⟨send, len, 0⟩) m
  length : ∀ data m, good data m → data.length = len
  fill : ∀ data m, good data m → done (m.dmaWrite data post)

/-- Where the engine is, for destination entry `w`. -/
structure CEDiag.At (w : Nat) (fetched : Option (List UInt8)) (srri : Nat)
    (flying : List (List UInt8)) (fill : Nat) (unlanded : List Nat) (land nbytes : Nat)
    (s : CEDiag) : Prop where
  fetched : s.fetched = fetched
  srri : s.currentSRRI = srri
  flying : s.flying = flying
  fill : s.fillIdx = fill
  unlanded : s.unlanded = unlanded
  land : s.landIdx = land
  nbytes : (s.fDstDesc w).nbytes = nbytes

/-- How far the engine has come with a transfer posted in source entry `x` and destination
entry `w`. -/
inductive Transfer.Stage (T : Transfer) (w x : Nat) (s : CEDiag) : Prop
  | queued (h : s.At w none x [] w [] w 0) (hm : T.ready s.mem)
  | fetched (h : s.At w (some data) x [] w [] w 0) (hm : T.good data s.mem)
  | consumed (h : s.At w none ((x + 1) % kRingN) [data] w [] w 0) (hm : T.good data s.mem)
  | filled (h : s.At w none ((x + 1) % kRingN) [] ((w + 1) % kRingN) [T.len] w 0)
      (hm : T.done s.mem)
  | landed (h : s.At w none ((x + 1) % kRingN) [] ((w + 1) % kRingN) [] ((w + 1) % kRingN) T.len)
      (hm : T.done s.mem)

/-- The one transfer that is outstanding. -/
structure Transfer.Outstanding (T : Transfer) (w x : Nat) (s : CEDiag) : Prop where
  idle : s.Idle
  srWrIndex : s.srWrIndex = (x + 1) % kRingN
  dstWrIndex : s.dstWrIndex = (w + 1) % kRingN
  src : s.fSrcDesc x = ⟨T.send, T.len, 0⟩
  dst : (s.fDstDesc w).addr = T.post
  taken : s.fDstSw = w
  stage : T.Stage w x s

variable {T : Transfer} {w x : Nat}

theorem Transfer.Stage.fetch (h : T.Stage w x s) (hx : s.srWrIndex = (x + 1) % kRingN)
    (hd : s.fSrcDesc x = ⟨T.send, T.len, 0⟩) (hf : s.fetched = none)
    (hw : s.currentSRRI ≠ s.srWrIndex) : T.Stage w x s.fetch := by
  cases h with
  | queued h hm =>
    have hdata : s.mem.dmaRead (s.fSrcDesc s.currentSRRI) = s.mem.dmaRead ⟨T.send, T.len, 0⟩ := by
      rw [h.srri, hd]
    exact .fetched ⟨congrArg some hdata, h.2, h.3, h.4, h.5, h.6, h.7⟩ (T.fetch _ hm)
  | fetched h =>
    rw [h.fetched] at hf
    cases hf
  | consumed h => exact absurd (h.srri.trans hx.symm) hw
  | filled h => exact absurd (h.srri.trans hx.symm) hw
  | landed h => exact absurd (h.srri.trans hx.symm) hw

theorem Transfer.Stage.consume (h : T.Stage w x s) (hf : s.fetched = some data) :
    T.Stage w x (s.consume data) := by
  cases h with
  | fetched h hm =>
    obtain rfl := Option.some.inj (h.fetched.symm.trans hf)
    refine .consumed ⟨rfl, ?_, ?_, h.4, h.5, h.6, h.7⟩ hm
    · rw [CEDiag.consume, h.srri]
    · rw [CEDiag.consume, h.flying, List.nil_append]
  | queued h => exact absurd (h.fetched.symm.trans hf) nofun
  | consumed h => exact absurd (h.fetched.symm.trans hf) nofun
  | filled h => exact absurd (h.fetched.symm.trans hf) nofun
  | landed h => exact absurd (h.fetched.symm.trans hf) nofun

theorem Transfer.Stage.fill (h : T.Stage w x s) (hd : (s.fDstDesc w).addr = T.post)
    (hf : s.flying = data :: rest) : T.Stage w x (s.fill data rest) := by
  cases h with
  | consumed h hm =>
    obtain ⟨rfl, rfl⟩ := List.cons.inj (h.flying.symm.trans hf)
    refine .filled ⟨h.1, h.2, rfl, ?_, ?_, h.6, h.7⟩ ?_
    · rw [CEDiag.fill, h.fill]
    · rw [CEDiag.fill, h.unlanded, T.length _ _ hm, List.nil_append]
    · rw [CEDiag.fill, h.fill, hd]
      exact T.fill _ _ hm
  | queued h => exact absurd (h.flying.symm.trans hf) nofun
  | fetched h => exact absurd (h.flying.symm.trans hf) nofun
  | filled h => exact absurd (h.flying.symm.trans hf) nofun
  | landed h => exact absurd (h.flying.symm.trans hf) nofun

theorem Transfer.Stage.land (h : T.Stage w x s) (hu : s.unlanded = n :: rest) :
    T.Stage w x (s.land n rest) := by
  cases h with
  | filled h hm =>
    obtain ⟨rfl, rfl⟩ := List.cons.inj (h.unlanded.symm.trans hu)
    refine .landed ⟨h.1, h.2, h.3, h.4, rfl, ?_, ?_⟩ hm
    · rw [CEDiag.land, h.land]
    · simp only [CEDiag.land, h.land, Function.update_self]
  | queued h => exact absurd (h.unlanded.symm.trans hu) nofun
  | fetched h => exact absurd (h.unlanded.symm.trans hu) nofun
  | consumed h => exact absurd (h.unlanded.symm.trans hu) nofun
  | landed h => exact absurd (h.unlanded.symm.trans hu) nofun

/-- A step of the engine or the target that only changes the target's own memory, or DRRI. -/
theorem Transfer.Stage.keep (h : T.Stage w x s) (drri : Nat)
    (hm : m = s.mem ∨ ∃ c, m = s.mem.change c) :
    T.Stage w x { s with currentDRRI := drri, mem := m } := by
  have hkept {P : DiagMem → Prop} (hP : MemKept P) (h : P s.mem) : P m := by
    rcases hm with rfl | ⟨c, rfl⟩
    · exact h
    · exact hP _ c h
  cases h with
  | queued h hm => exact .queued ⟨h.1, h.2, h.3, h.4, h.5, h.6, h.7⟩ (hkept T.ready_kept hm)
  | fetched h hm => exact .fetched ⟨h.1, h.2, h.3, h.4, h.5, h.6, h.7⟩ (hkept (T.good_kept _) hm)
  | consumed h hm => exact .consumed ⟨h.1, h.2, h.3, h.4, h.5, h.6, h.7⟩ (hkept (T.good_kept _) hm)
  | filled h hm => exact .filled ⟨h.1, h.2, h.3, h.4, h.5, h.6, h.7⟩ (hkept T.done_kept hm)
  | landed h hm => exact .landed ⟨h.1, h.2, h.3, h.4, h.5, h.6, h.7⟩ (hkept T.done_kept hm)

theorem Transfer.Outstanding.engine (h : T.Outstanding w x s) (hs : CEDiag.Engine s t) :
    T.Outstanding w x t := by
  have hidle := h.idle.engine hs
  cases hs with
  | fetch hf hw => exact ⟨hidle, h.2, h.3, h.4, h.5, h.6, h.stage.fetch h.srWrIndex h.src hf hw⟩
  | consume hf => exact ⟨hidle, h.2, h.3, h.4, h.5, h.6, h.stage.consume hf⟩
  | fill hf => exact ⟨hidle, h.2, h.3, h.4, h.5, h.6, h.stage.fill h.dst hf⟩
  | @land n rest _ hu =>
    refine ⟨hidle, h.2, h.3, h.4, ?_, h.6, h.stage.land hu⟩
    by_cases hw : s.landIdx = w
    · simp only [CEDiag.land, hw, Function.update_self, h.dst]
    · simp only [CEDiag.land, Function.update_of_ne (Ne.symm hw), h.dst]
  | advance => exact ⟨hidle, h.2, h.3, h.4, h.5, h.6, h.stage.keep _ (.inl rfl)⟩
  | target c => exact ⟨hidle, h.2, h.3, h.4, h.5, h.6, h.stage.keep s.currentDRRI (.inr ⟨c, rfl⟩)⟩

theorem outstanding_assertion (T : Transfer) (w x : Nat) :
    Assertion CEDiag.Engine (fun _ => True) (T.Outstanding w x) :=
  ⟨fun _ _ => Transfer.Outstanding.engine, fun _ _ => trivial⟩

theorem idle_assertion : Assertion CEDiag.Engine (fun _ => True) CEDiag.Idle :=
  ⟨fun _ _ => CEDiag.Idle.engine, fun _ _ => trivial⟩

/-- The write-back of the length comes last. -/
theorem Transfer.Outstanding.landed (h : T.Outstanding w x s) (hpos : 0 < T.len)
    (hn : (s.fDstDesc s.fDstSw).nbytes = T.len) : s.Still ∧ T.done s.mem := by
  rw [h.taken] at hn
  have hzero (h0 : (s.fDstDesc w).nbytes = 0) : s.Still ∧ T.done s.mem := by
    rw [hn] at h0
    exact absurd h0 (Nat.ne_of_gt hpos)
  cases h.stage with
  | queued hat => exact hzero hat.nbytes
  | fetched hat => exact hzero hat.nbytes
  | consumed hat => exact hzero hat.nbytes
  | filled hat => exact hzero hat.nbytes
  | landed hat hm =>
    exact ⟨⟨hat.fetched, hat.srri.trans h.srWrIndex.symm, hat.flying, hat.unlanded⟩, hm⟩

structure CEDiag.Completed (P : DiagMem → Prop) (s : CEDiag) : Prop where
  idle : s.Idle
  still : s.Still
  mem : P s.mem

theorem completed_assertion (hP : MemKept P) :
    Assertion CEDiag.Engine (fun _ => True) (CEDiag.Completed P) where
  step := by
    intro s t h hs
    rcases h.still.engine hs with ⟨drri, rfl⟩ | ⟨c, rfl⟩
    · exact ⟨h.idle.engine hs, ⟨h.still.1, h.still.2, h.still.3, h.still.4⟩, h.mem⟩
    · exact ⟨h.idle.engine hs, ⟨h.still.1, h.still.2, h.still.3, h.still.4⟩, hP _ c h.mem⟩
  inv := fun _ _ => trivial

theorem pollDiag_safe (hP : Assertion CEDiag.Engine (fun _ => True) P) (done : CEDiag → Bool)
    (n : Nat) (h : P t) :
    Safe CEDiag.Engine (fun _ => True) (fun _ _ => True) (fun _ u => P u) (pollDiag done n) t := by
  induction n generalizing t with
  | zero => exact .ret hP h fun _ => id
  | succ n ih =>
    apply Safe.op hP h (fun _ _ => trivial)
    intro u hu
    dsimp only [Prog.ret_bind, bind_eq_bind, id_eq]
    split
    · exact .ret hP hu fun _ => id
    · exact ih hu

theorem CEDiag.Engine.setSw (h : CEDiag.Engine s t) (w : Nat) :
    CEDiag.Engine { s with fDstSw := w } { t with fDstSw := w } := by
  cases h with
  | fetch hf hw => exact .fetch hf hw
  | consume hf => exact .consume hf
  | fill hf hw => exact .fill hf hw
  | land hu => exact .land hu
  | advance hw => exact .advance hw
  | target c => exact .target c

theorem CEDiag.Engine.fDstSw (h : CEDiag.Engine s t) : t.fDstSw = s.fDstSw := by
  cases h <;> rfl

theorem Transfer.Stage.log (h : T.Stage w x s) (m : DiagLog) : T.Stage w x (s.log m) := by
  cases h with
  | queued h hm => exact .queued ⟨h.1, h.2, h.3, h.4, h.5, h.6, h.7⟩ hm
  | fetched h hm => exact .fetched ⟨h.1, h.2, h.3, h.4, h.5, h.6, h.7⟩ hm
  | consumed h hm => exact .consumed ⟨h.1, h.2, h.3, h.4, h.5, h.6, h.7⟩ hm
  | filled h hm => exact .filled ⟨h.1, h.2, h.3, h.4, h.5, h.6, h.7⟩ hm
  | landed h hm => exact .landed ⟨h.1, h.2, h.3, h.4, h.5, h.6, h.7⟩ hm

/-- The transfer is outstanding, whether or not the host has gone past its completion. -/
def Transfer.Posted (T : Transfer) (w x : Nat) (s : CEDiag) : Prop :=
  T.Outstanding w x { s with fDstSw := w }

/-- How far a transfer can have come with the memories. -/
def Transfer.Touched (T : Transfer) (m : DiagMem) : Prop :=
  T.ready m ∨ (∃ data, T.good data m) ∨ T.done m

theorem Transfer.Outstanding.posted (h : T.Outstanding w x s) : T.Posted w x s := by
  obtain rfl := h.taken
  exact h

theorem Transfer.Posted.idle (h : T.Posted w x s) : s.Idle := by
  have hidle := Transfer.Outstanding.idle h
  exact ⟨hidle.dst, hidle.src⟩

theorem Transfer.Posted.touched (h : T.Posted w x s) : T.Touched s.mem := by
  cases h.stage with
  | queued _ hm => exact .inl hm
  | fetched _ hm => exact .inr (.inl ⟨_, hm⟩)
  | consumed _ hm => exact .inr (.inl ⟨_, hm⟩)
  | filled _ hm => exact .inr (.inr hm)
  | landed _ hm => exact .inr (.inr hm)

theorem Transfer.Posted.log (h : T.Posted w x s) (m : DiagLog) : T.Posted w x (s.log m) :=
  ⟨⟨h.idle.dst, h.idle.src⟩, h.srWrIndex, h.dstWrIndex, h.src, h.dst, h.taken, h.stage.log m⟩

theorem posted_assertion (T : Transfer) (w x : Nat) :
    Assertion CEDiag.Engine (fun _ => True) (T.Posted w x) :=
  ⟨fun _ _ h hs => Transfer.Outstanding.engine h (hs.setSw w), fun _ _ => trivial⟩

/-- Nothing is outstanding, and `P` holds of the memories. -/
structure CEDiag.Settled (P : DiagMem → Prop) (s : CEDiag) : Prop extends s.Idle, s.Drained where
  mem : P s.mem

theorem settled_assertion (hP : MemKept P) :
    Assertion CEDiag.Engine (fun _ => True) (CEDiag.Settled P) where
  step := by
    intro s t h hs
    have hidle := h.toIdle.engine hs
    rcases h.toStill.engine hs with ⟨drri, rfl⟩ | ⟨c, rfl⟩
    · exact ⟨hidle, ⟨⟨h.fetched, h.srri, h.flying, h.unlanded⟩, h.fill, h.land, h.taken⟩, h.mem⟩
    · exact ⟨hidle, ⟨⟨h.fetched, h.srri, h.flying, h.unlanded⟩, h.fill, h.land, h.taken⟩,
        hP _ c h.mem⟩
  inv := fun _ _ => trivial

/-- The host has only to step past the completion. -/
theorem landed_assertion (hP : MemKept P) :
    Assertion CEDiag.Engine (fun _ => True) fun s => s.stepSw.Settled P where
  step := by
    intro s t h hs
    have hstep := (settled_assertion hP).step h (hs.setSw ((s.fDstSw + 1) % kRingN))
    rw [← hs.fDstSw] at hstep
    exact hstep
  inv := fun _ _ => trivial

theorem Transfer.Outstanding.settled (h : T.Outstanding w x s) (hpos : 0 < T.len)
    (hn : (s.fDstDesc s.fDstSw).nbytes = T.len) : s.stepSw.Settled T.done := by
  obtain ⟨hstill, hdone⟩ := h.landed hpos hn
  have hnone {nbytes : Nat} (hat : (s.fDstDesc w).nbytes = nbytes) : nbytes = T.len := by
    rw [← hat, ← hn, h.taken]
  have hsettled (hfill : s.fillIdx = (w + 1) % kRingN) (hland : s.landIdx = (w + 1) % kRingN) :
      s.stepSw.Settled T.done := by
    refine ⟨⟨h.idle.dst, h.idle.src⟩, ⟨⟨hstill.1, hstill.2, hstill.3, hstill.4⟩, ?_, ?_, ?_⟩,
      hdone⟩
    · exact hfill.trans h.dstWrIndex.symm
    · exact hland.trans h.dstWrIndex.symm
    · change (s.fDstSw + 1) % kRingN = s.fDstWrite
      rw [h.taken, ← h.dstWrIndex, h.idle.dst]
  cases h.stage with
  | queued hat => exact absurd (hnone hat.nbytes) (Nat.ne_of_lt hpos)
  | fetched hat => exact absurd (hnone hat.nbytes) (Nat.ne_of_lt hpos)
  | consumed hat => exact absurd (hnone hat.nbytes) (Nat.ne_of_lt hpos)
  | filled hat => exact absurd (hnone hat.nbytes) (Nat.ne_of_lt hpos)
  | landed hat => exact hsettled hat.fill hat.land

/-- What holds when `xfer` has returned. -/
def Transfer.Returned (T : Transfer) (r : Bool) (s : CEDiag) : Prop :=
  s.Idle ∧ (r = true → s.Completed T.done)

/-- A transfer that has succeeded leaves nothing outstanding; one that has failed may still
happen. -/
def Transfer.Ended (T : Transfer) (r : Bool) (s : CEDiag) : Prop :=
  s.Idle ∧ if r then s.Settled T.done else T.Touched s.mem

theorem Transfer.Posted.ended (h : T.Posted w x s) : T.Ended false s := ⟨h.idle, h.touched⟩

theorem Transfer.Ended.returned (h : T.Ended r s) : T.Returned r s := by
  refine ⟨h.1, ?_⟩
  rintro rfl
  have hs : s.Settled T.done := h.2
  exact ⟨h.1, hs.toStill, hs.mem⟩

/-- A timeout is logged with what the registers show by then. -/
theorem timeout_safe (f : CEDiag → DiagLog) (h : T.Posted w x t) :
    Safe CEDiag.Engine (fun _ => True) (fun _ _ => True) T.Ended
      (.op id fun s => .op (CEDiag.log (f s)) fun _ => .ret false) t := by
  apply Safe.op (posted_assertion T w x) h (fun _ _ => trivial)
  intro u hu
  apply Safe.op (posted_assertion T w x) hu (fun _ _ => trivial)
  intro v hv
  exact .ret (posted_assertion T w x) (hv.log _) fun _ => Transfer.Posted.ended

theorem await_safe {f g : CEDiag → DiagLog} (hpos : 0 < T.len) (hlen : T.len ≤ kDiagMax)
    (h : T.Outstanding w x t) :
    Safe CEDiag.Engine (fun _ => True) (fun _ _ => True) T.Ended
      ((pollDiag sent n).bind fun r =>
        if (!r) = true then
          .op id fun s => .op (CEDiag.log (f s)) fun _ => .ret false
        else (pollDiag completed n).bind fun r =>
          if (!r) = true then
            .op id fun s => .op (CEDiag.log (g s)) fun _ => .ret false
          else .op id fun s => .op CEDiag.stepSw fun _ =>
            if (s.fDstDesc s.fDstSw).nbytes ≠ T.len % 2 ^ 16 then
              .op (CEDiag.log (.completedNbytes (s.fDstDesc s.fDstSw).nbytes T.len))
                fun _ => .ret false
            else .ret true) t := by
  apply Safe.bind
  apply (pollDiag_safe (outstanding_assertion T w x) _ _ h).mono (fun _ => id) (fun _ _ => id)
  intro r t h
  split
  · exact timeout_safe f h.posted
  apply Safe.bind
  apply (pollDiag_safe (outstanding_assertion T w x) _ _ h).mono (fun _ => id) (fun _ _ => id)
  intro r t h
  split
  · exact timeout_safe g h.posted
  apply Safe.op (outstanding_assertion T w x) h (fun _ _ => trivial)
  intro t h
  have hsmall : T.len % 2 ^ 16 = T.len := by
    rw [kDiagMax] at hlen
    omega
  rw [hsmall]
  by_cases hn : (t.fDstDesc t.fDstSw).nbytes = T.len
  · apply Safe.op (landed_assertion T.done_kept) (h.settled hpos hn) (fun _ _ => trivial)
    intro u hu
    rw [if_neg (not_not.2 hn)]
    exact .ret (settled_assertion T.done_kept) hu fun v hv => ⟨hv.toIdle, hv⟩
  · apply Safe.op (posted_assertion T w x) h.posted (fun _ _ => trivial)
    intro u hu
    rw [if_pos hn]
    have hstep : T.Posted w x u.stepSw := hu
    apply Safe.op (posted_assertion T w x) hstep (fun _ _ => trivial)
    intro v hv
    exact .ret (posted_assertion T w x) (hv.log _) fun _ => Transfer.Posted.ended

/-- The window with both entries of a transfer written and the source doorbell not rung. -/
def CEDiag.posting (T : Transfer) (s : CEDiag) : CEDiag :=
  (((s.writeDst T.post).stepDst.ringDst).writeSrc T.send T.len).stepSrc

theorem CEDiag.Drained.outstanding (hd : s.Drained) (hi : s.Idle) (hlen : T.len ≤ kDiagMax)
    (hm : T.ready m) :
    T.Outstanding s.fDstWrite s.fSrcWrite
      (CEDiag.ringSrc { s.posting T with currentDRRI := drri, mem := m }) := by
  have hsmall : T.len % 2 ^ 16 = T.len := by
    rw [kDiagMax] at hlen
    omega
  refine ⟨⟨rfl, rfl⟩, rfl, rfl, ?_, ?_, hd.taken, .queued ⟨?_, ?_, ?_, ?_, ?_, ?_, ?_⟩ hm⟩
  · simp only [CEDiag.ringSrc, CEDiag.posting, CEDiag.stepSrc, CEDiag.writeSrc, CEDiag.ringDst,
      CEDiag.stepDst, CEDiag.writeDst, Function.update_self, hsmall]
  · simp only [CEDiag.ringSrc, CEDiag.posting, CEDiag.stepSrc, CEDiag.writeSrc, CEDiag.ringDst,
      CEDiag.stepDst, CEDiag.writeDst, Function.update_self]
  · exact hd.fetched
  · exact hd.srri.trans hi.src
  · exact hd.flying
  · exact hd.fill.trans hi.dst
  · exact hd.unlanded
  · exact hd.land.trans hi.dst
  · simp only [CEDiag.ringSrc, CEDiag.posting, CEDiag.stepSrc, CEDiag.writeSrc, CEDiag.ringDst,
      CEDiag.stepDst, CEDiag.writeDst, Function.update_self]

theorem xfer_ended (T : Transfer) (hpos : 0 < T.len) (hlen : T.len ≤ kDiagMax) (hi : s.Idle)
    (hd : s.Drained) (h : s.Rests T.ready t) :
    Safe CEDiag.Engine (fun _ => True) (fun _ _ => True) T.Ended
      (CEDiag.xfer T.post T.send T.len) t := by
  have hk := T.ready_kept
  unfold CEDiag.xfer
  simp only [bind_eq_bind, pure_eq_ret, read_bind, modify_bind]
  apply h.op hk (fun hs => ⟨hs.1, hs.2, hs.3, hs.4⟩) (fun _ _ => rfl)
  intro t h
  apply h.op hk (fun hs => ⟨hs.1, hs.2, hs.3, hs.4⟩) (fun _ _ => rfl)
  intro t h
  apply h.op hk (fun hs => ⟨hs.1, hs.2, hs.3, hs.4⟩) (fun _ _ => rfl)
  intro t h
  apply h.op hk (fun hs => ⟨hs.1, hs.2, hs.3, hs.4⟩) (fun _ _ => rfl)
  intro t h
  apply h.op hk (fun hs => ⟨hs.1, hs.2, hs.3, hs.4⟩) (fun _ _ => rfl)
  intro t h
  apply Safe.op (rests_assertion (s.posting T) hk) h (fun _ _ => trivial)
  rintro t ⟨-, drri, m, rfl, hm⟩
  exact await_safe hpos hlen (hd.outstanding hi hlen hm)

theorem xfer_safe (T : Transfer) (hpos : 0 < T.len) (hlen : T.len ≤ kDiagMax) (hi : s.Idle)
    (hd : s.Drained) (h : s.Rests T.ready t) :
    Safe CEDiag.Engine (fun _ => True) (fun _ _ => True) T.Returned
      (CEDiag.xfer T.post T.send T.len) t :=
  (xfer_ended T hpos hlen hi hd h).mono (fun _ => id) (fun _ _ => id)
    fun _ _ => Transfer.Ended.returned

/-- Contents that the target has held since its history was `e₀`. -/
def DiagMem.HeldSince (e₀ : List (Nat → UInt8)) (m : DiagMem) (contents : Nat → UInt8) : Prop :=
  ∃ l, m.earlier = e₀ ++ l ∧ contents ∈ l ++ [m.contents]

theorem heldSince_kept (e₀ : List (Nat → UInt8)) (contents : Nat → UInt8) :
    MemKept fun m => m.HeldSince e₀ contents := by
  rintro m c ⟨l, hl, hm⟩
  refine ⟨l ++ [m.contents], ?_, List.mem_append_left _ hm⟩
  rw [DiagMem.change, hl, List.append_assoc]

def readTransfer (e₀ : List (Nat → UInt8)) (ceAddr len : Nat) : Transfer where
  post := .bounce
  send := .target ceAddr
  len := len
  ready := fun m => e₀ <+: m.earlier
  good := fun data m => ∃ c, m.HeldSince e₀ c ∧ data = bytesAt c ceAddr len
  done := fun m => ∃ c, m.HeldSince e₀ c ∧ m.fBounce.take len = bytesAt c ceAddr len
  ready_kept := fun _ _ h => h.trans (List.prefix_append _ _)
  good_kept := by
    rintro data m c ⟨f, hf, hd⟩
    exact ⟨f, heldSince_kept e₀ f m c hf, hd⟩
  done_kept := by
    rintro m c ⟨f, hf, hd⟩
    exact ⟨f, heldSince_kept e₀ f m c hf, hd⟩
  fetch := by
    rintro m ⟨l, hl⟩
    exact ⟨m.contents, ⟨l, hl.symm, List.mem_append_right _ (List.mem_singleton_self _)⟩, rfl⟩
  length := by
    rintro data m ⟨c, -, rfl⟩
    rw [bytesAt, List.length_map, List.length_range]
  fill := by
    rintro data m ⟨c, hc, rfl⟩
    refine ⟨c, hc, ?_⟩
    rw [DiagMem.dmaWrite, poke, List.take_zero, List.nil_append, List.take_left']
    rw [bytesAt, List.length_map, List.length_range]

def writeTransfer (l₀ : List (Nat × List UInt8)) (ceAddr : Nat) (buf : List UInt8) : Transfer where
  post := .target ceAddr
  send := .bounce
  len := buf.length
  ready := fun m => m.landed = l₀ ∧ m.fBounce.take buf.length = buf
  good := fun data m => m.landed = l₀ ∧ data = buf
  done := fun m => m.landed = l₀ ++ [(ceAddr, buf)]
  ready_kept := fun _ _ h => h
  good_kept := fun _ _ _ h => h
  done_kept := fun _ _ h => h
  fetch := fun _ h => h
  length := fun _ _ h => congrArg List.length h.2
  fill := by
    rintro data m ⟨hl, rfl⟩
    rw [DiagMem.dmaWrite, hl]

inductive DiagCall where
  | readMem (targAddr len : Nat)
  | writeMem (targAddr : Nat) (buf : List UInt8)

inductive DiagResult where
  | out (bytes : Option (List UInt8))
  | flag (ok : Bool)
  deriving DecidableEq

def DiagCall.body : DiagCall → Prog CEDiag DiagResult
  | .readMem targAddr len => do return .out (← CEDiag.readMem targAddr len)
  | .writeMem targAddr buf => do return .flag (← CEDiag.writeMem targAddr buf)

/-- A window right after `init`, with all registers at zero. -/
structure CEDiag.Fresh (s : CEDiag) : Prop extends s.Drained where
  dst : s.fDstWrite = 0
  dstWrIndex : s.dstWrIndex = 0
  src : s.fSrcWrite = 0
  srWrIndex : s.srWrIndex = 0
  drri : s.currentDRRI = 0

def diagSystem : System CEDiag DiagCall DiagResult where
  init := CEDiag.Fresh
  body := DiagCall.body
  env := CEDiag.Engine

theorem diagSystem_body (c : DiagCall) : diagSystem.body c = c.body := rfl

/-- A call begins with every earlier transfer completed and taken. -/
def drained (_ : DiagCall) (s : CEDiag) : Prop := s.Drained

/-- A successful read hands out what the target held at its CE address at some moment of the
call; a successful write has landed its bytes at its CE address by the end of the call. -/
def DiagPost (c : DiagCall) (s₀ : CEDiag) (r : DiagResult) (s : CEDiag) : Prop :=
  match c, r with
  | .readMem targAddr len, .out (some out) =>
    ∃ contents, s.mem.HeldSince s₀.mem.earlier contents ∧
      out = bytesAt contents (ceAddrOf s₀.coreCtrl targAddr) len
  | .writeMem targAddr buf, .flag true =>
    ∃ l, s.mem.landed = s₀.mem.landed ++ l ∧ (ceAddrOf s₀.coreCtrl targAddr, buf) ∈ l
  | _, _ => True

theorem CEDiag.Rests.idle (h : s.Rests P t) (hi : s.Idle) : t.Idle := by
  obtain ⟨-, drri, m, rfl, -⟩ := h
  exact ⟨hi.dst, hi.src⟩

theorem entry_safe {len : Nat} {fail : Prog CEDiag α} {k : CEDiag → Prog CEDiag α}
    (hd : s.Drained) (hP : MemKept P) (hm : P s.mem)
    (hfail : ∀ t, s.Rests P t →
      Safe CEDiag.Engine (fun _ => True) (fun _ _ => True) Q fail t)
    (hk : 0 < len → len ≤ kDiagMax → ∀ t, s.Rests P t → t.coreCtrl = s.coreCtrl →
      Safe CEDiag.Engine (fun _ => True) (fun _ _ => True) Q (k t) t) :
    Safe CEDiag.Engine (fun _ => True) (fun _ _ => True) Q
      (.op id fun t => if (!t.fRegionCpu) = true ∨ len = 0 ∨ kDiagMax < len then fail
        else .op id k) s := by
  have hrest : s.Rests P s := ⟨hd.toStill, s.currentDRRI, s.mem, rfl, hm⟩
  apply Safe.op (rests_assertion s hP) hrest (fun _ _ => trivial)
  intro t ht
  split
  · exact hfail t ht
  next hlen =>
  obtain ⟨-, hlen⟩ := not_or.1 hlen
  obtain ⟨hpos, hmax⟩ := not_or.1 hlen
  apply Safe.op (rests_assertion s hP) ht (fun _ _ => trivial)
  intro t ht
  have haddr : t.coreCtrl = s.coreCtrl := by
    obtain ⟨-, drri, m, rfl, -⟩ := ht
    rfl
  exact hk (Nat.pos_of_ne_zero hpos) (not_lt.1 hmax) t ht haddr

theorem readMem_safe (targAddr len : Nat) (hi : s.Idle) (hd : s.Drained) :
    Safe CEDiag.Engine (fun _ => True) (fun _ _ => True)
      (fun r t => t.Idle ∧ DiagPost (.readMem targAddr len) s (.out r) t)
      (CEDiag.readMem targAddr len) s := by
  have hfail {t : CEDiag} (ht : t.Idle) :
      Safe CEDiag.Engine (fun _ => True) (fun _ _ => True)
        (fun r t => t.Idle ∧ DiagPost (.readMem targAddr len) s (.out r) t) (.ret none) t :=
    .ret idle_assertion ht fun u hu => ⟨hu, trivial⟩
  let T := readTransfer s.mem.earlier (ceAddrOf s.coreCtrl targAddr) len
  unfold CEDiag.readMem CEDiag.targToCeAddr
  simp only [bind_eq_bind, pure_eq_ret, read_bind, Prog.op_bind, Prog.ret_bind]
  apply entry_safe hd T.ready_kept (List.prefix_refl _) fun t ht => hfail (ht.idle hi)
  intro hpos hmax t ht haddr
  rw [haddr]
  apply Safe.bind
  apply (xfer_safe T hpos hmax hi hd ht).mono (fun _ => id) (fun _ _ => id)
  intro r t ht
  cases r with
  | false => exact hfail ht.1
  | true =>
    apply Safe.op (completed_assertion T.done_kept) (ht.2 rfl) (fun _ _ => trivial)
    intro t ht
    obtain ⟨c, hc, hout⟩ := ht.mem
    have hkept := heldSince_kept s.mem.earlier c
    apply Safe.ret (completed_assertion hkept) ⟨ht.idle, ht.still, hc⟩
    exact fun u hu => ⟨hu.idle, c, hu.mem, hout⟩

theorem writeMem_safe (targAddr : Nat) (buf : List UInt8) (hi : s.Idle) (hd : s.Drained) :
    Safe CEDiag.Engine (fun _ => True) (fun _ _ => True)
      (fun r t => t.Idle ∧ DiagPost (.writeMem targAddr buf) s (.flag r) t)
      (CEDiag.writeMem targAddr buf) s := by
  let T := writeTransfer s.mem.landed (ceAddrOf s.coreCtrl targAddr) buf
  have hkept : MemKept fun m => m.landed = s.mem.landed := fun _ _ h => h
  unfold CEDiag.writeMem CEDiag.targToCeAddr
  simp only [bind_eq_bind, pure_eq_ret, read_bind, modify_bind, Prog.op_bind, Prog.ret_bind]
  apply entry_safe hd hkept rfl
  · intro t ht
    exact .ret idle_assertion (ht.idle hi) fun u hu => ⟨hu, trivial⟩
  intro hpos hmax t ht haddr
  rw [haddr]
  apply Safe.op (rests_assertion s hkept) ht (fun _ _ => trivial)
  rintro t ⟨hs, drri, m, rfl, hm⟩
  have hready : s.Rests T.ready
      (CEDiag.setMem (m.copyIn buf) { s with currentDRRI := drri, mem := m }) := by
    refine ⟨hs, drri, m.copyIn buf, rfl, hm, ?_⟩
    rw [DiagMem.copyIn, poke, List.take_zero, List.nil_append, List.take_left]
  apply (xfer_safe T hpos hmax hi hd hready).mono (fun _ => id) (fun _ _ => id)
  rintro r t ⟨hidle, hdone⟩
  refine ⟨hidle, ?_⟩
  cases r with
  | false => trivial
  | true => exact ⟨_, (hdone rfl).mem, List.mem_singleton_self _⟩

theorem diagSystem_sound (h : Reachable diagSystem drained cfg) :
    Sound diagSystem CEDiag.Idle (fun _ _ _ => True) (fun _ _ => True) DiagPost cfg := by
  apply h.sound
  · exact fun s hs => ⟨hs.dstWrIndex.trans hs.dst.symm, hs.srWrIndex.trans hs.src.symm⟩
  · exact fun _ _ => CEDiag.Idle.engine
  · intro c s hd hi
    cases c with
    | readMem targAddr len => exact Safe.map (readMem_safe targAddr len hi hd)
    | writeMem targAddr buf => exact Safe.map (writeMem_safe targAddr buf hi hd)

/-- As long as every call begins with all earlier transfers completed and taken, a successful
access is a correct one. -/
theorem success_correct (h : Reachable diagSystem drained (.busy c s₀ (.ret r) s)) :
    DiagPost c s₀ r s := (diagSystem_sound h).post

/-- A window over a target whose low memory holds one byte and whose other memory another. -/
def sampleDiag : CEDiag where
  fRegionCpu := true
  fSrcDesc := fun _ => ⟨.bounce, 0, 0⟩
  fDstDesc := fun _ => ⟨.bounce, 0, 0⟩
  fSrcWrite := 0
  fDstWrite := 0
  fDstSw := 0
  iolog := []
  coreCtrl := 0
  srWrIndex := 0
  dstWrIndex := 0
  currentSRRI := 0
  currentDRRI := 0
  fetched := none
  flying := []
  fillIdx := 0
  unlanded := []
  landIdx := 0
  mem := ⟨List.replicate kDiagMax 0, fun a => if a < 0x400 then 0xaa else 0x55, [], []⟩

theorem sampleDiag_fresh : sampleDiag.Fresh :=
  ⟨⟨⟨rfl, rfl, rfl, rfl⟩, rfl, rfl, rfl⟩, rfl, rfl, rfl, rfl, rfl⟩

def CEDiag.consuming (s : CEDiag) : CEDiag :=
  if s.fetched = none ∧ s.currentSRRI ≠ s.srWrIndex then
    s.fetch.consume (s.mem.dmaRead (s.fSrcDesc s.currentSRRI))
  else s

def CEDiag.completing (s : CEDiag) : CEDiag :=
  match s.flying with
  | [] => s
  | data :: rest =>
    if s.fillIdx ≠ s.dstWrIndex ∧ s.unlanded = [] ∧ s.currentDRRI ≠ s.dstWrIndex then
      ((s.fill data rest).land data.length []).advance
    else s

theorem CEDiag.consuming_star (s : CEDiag) :
    Relation.ReflTransGen CEDiag.Engine s s.consuming := by
  unfold CEDiag.consuming
  split
  · next h => exact .head (.fetch h.1 h.2) (.single (.consume rfl))
  · exact .refl

theorem CEDiag.completing_star (s : CEDiag) :
    Relation.ReflTransGen CEDiag.Engine s s.completing := by
  unfold CEDiag.completing
  split
  · exact .refl
  · next data rest hf =>
    split
    · next h =>
      obtain ⟨hw, hu, ha⟩ := h
      have hfill : (s.fill data rest).unlanded = [data.length] := by
        rw [CEDiag.fill, hu, List.nil_append]
      exact .head (.fill hf hw) (.head (.land hfill) (.single (.advance ha)))
    · exact .refl

theorem sampleDiag_reachable (guard : DiagCall → CEDiag → Prop) :
    Reachable diagSystem guard (.idle sampleDiag) := .init sampleDiag_fresh

def readDiag : CEDiag :=
  (exec (fun s => s.consuming.completing) (DiagCall.body (.readMem 0 4)) sampleDiag).2

theorem readDiag_reachable :
    Reachable diagSystem drained (.busy (.readMem 0 4) sampleDiag
      (.ret (.out (some [0xaa, 0xaa, 0xaa, 0xaa]))) readDiag) := by
  have hcall : drained (.readMem 0 4) sampleDiag := sampleDiag_fresh.toDrained
  have hrun := ((sampleDiag_reachable drained).step (.call hcall)).exec
    fun s => s.consuming_star.trans s.consuming.completing_star
  have hr : (exec (fun s => s.consuming.completing) (DiagCall.body (.readMem 0 4)) sampleDiag).1 =
      .out (some [0xaa, 0xaa, 0xaa, 0xaa]) := by decide +kernel
  rw [diagSystem_body, hr] at hrun
  exact hrun

theorem success_correct_read :
    ∃ contents, readDiag.mem.HeldSince [] contents ∧
      [0xaa, 0xaa, 0xaa, 0xaa] = bytesAt contents (ceAddrOf 0 0) 4 :=
  success_correct readDiag_reachable

/-- The window after a read of four low bytes that nobody completes in time. -/
def expiredDiag : CEDiag := (exec id (DiagCall.body (.readMem 0 4)) sampleDiag).2

def lateDiag : CEDiag := expiredDiag.consuming.completing

theorem lateDiag_reachable : Reachable diagSystem anyCall (.idle lateDiag) := by
  have hcall := ((sampleDiag_reachable anyCall).step (.call (c := .readMem 0 4) trivial)).alone
  rw [diagSystem_body] at hcall
  exact (hcall.step .finish).envs
    (expiredDiag.consuming_star.trans expiredDiag.consuming.completing_star)

/-- The window after a further read, of four high bytes, whose data never arrives. -/
def staleDiag : CEDiag := (exec CEDiag.consuming (DiagCall.body (.readMem 0x400 4)) lateDiag).2

/-- The second read takes the first one's completion and hands out the low bytes. -/
theorem stale_completion_taken :
    Reachable diagSystem anyCall (.busy (.readMem 0x400 4) lateDiag
      (.ret (.out (some [0xaa, 0xaa, 0xaa, 0xaa]))) staleDiag) ∧
    ¬ DiagPost (.readMem 0x400 4) lateDiag (.out (some [0xaa, 0xaa, 0xaa, 0xaa])) staleDiag := by
  constructor
  · have hrun := (lateDiag_reachable.step (.call (c := .readMem 0x400 4) trivial)).exec
      CEDiag.consuming_star
    have hr : (exec CEDiag.consuming (DiagCall.body (.readMem 0x400 4)) lateDiag).1 =
        .out (some [0xaa, 0xaa, 0xaa, 0xaa]) := by decide +kernel
    rw [diagSystem_body, hr] at hrun
    exact hrun
  · rintro ⟨c, ⟨l, hl, hc⟩, hout⟩
    have hnone : staleDiag.mem.earlier.length = 0 := by decide +kernel
    have hlen := congrArg List.length hl
    rw [hnone, List.length_append] at hlen
    obtain rfl : l = [] := List.eq_nil_of_length_eq_zero (by omega)
    obtain rfl := List.mem_singleton.1 hc
    revert hout
    decide +kernel

end Qca9377
