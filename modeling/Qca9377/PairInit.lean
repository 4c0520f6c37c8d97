import Qca9377.CopyEngine
import Qca9377.Manager

namespace Qca9377
set_option autoImplicit true

def freshName (s : Finset Nat) : Nat := s.sup id + 1

theorem freshName_notMem (s : Finset Nat) : freshName s ∉ s := by
  intro h
  exact Nat.not_succ_le_self _ (Finset.le_sup (f := id) h)

/-- The memory descriptors and DMA commands of the kernel: the descriptors not released, those of
them (or of any owner) that are prepared and not completed, the commands not released, and the
commands with a memory descriptor set. -/
structure Kernel where
  descriptors : Finset Nat
  prepared : Finset Nat
  commands : Finset Nat
  mapped : Finset Nat
  deriving DecidableEq

/-- The live DMA regions. -/
def Kernel.live (k : Kernel) : Finset Nat × Finset Nat := (k.prepared, k.commands)

/-- What the kernel answers in one call of `allocRegion`; a segment is its number, its length and
its address. -/
structure RegionAnswers where
  inTaskWithPhysicalMask : Bool
  prepare : Bool
  getBytesNoCopy : Bool
  withSpecification : Bool
  setMemoryDescriptor : Bool
  gen64IOVMSegments : Option (Nat × Nat × Nat)
  deriving DecidableEq

/-- The fields of a `CECopyPair` or a `CEDiag` that its set-up works on. -/
structure CEObject where
  fRegionCpu : Bool
  fRegionPhys : Nat
  fRegionSize : Nat
  fBmd : Option Nat
  fDma : Option Nat
  fBmdPrepared : Bool
  fDmaPrepared : Bool
  fSrcSw : Nat
  fSrcWrite : Nat
  fDstSw : Nat
  fDstWrite : Nat
  deriving DecidableEq

def CEObject.new : CEObject := ⟨false, 0, 0, none, none, false, false, 0, 0, 0, 0⟩

structure Alloc where
  object : CEObject
  kernel : Kernel
  deriving DecidableEq

namespace Alloc

def setSize (size : Nat) (s : Alloc) : Alloc := { s with object.fRegionSize := size }

def noDescriptor (s : Alloc) : Alloc := { s with object.fBmd := none }

/-- `fBmd = inTaskWithPhysicalMask(..)`. -/
def newDescriptor (s : Alloc) : Alloc :=
  let i := freshName (s.kernel.descriptors ∪ s.kernel.prepared)
  { s with
    object.fBmd := some i
    kernel.descriptors := insert i s.kernel.descriptors }

/-- `fBmd->prepare()`. -/
def prepare (s : Alloc) : Alloc :=
  { s with
    object.fBmdPrepared := true
    kernel.prepared := s.kernel.prepared ∪ s.object.fBmd.toFinset }

def setCpu (s : Alloc) : Alloc := { s with object.fRegionCpu := true }

def noCommand (s : Alloc) : Alloc := { s with object.fDma := none }

/-- `fDma = withSpecification(..)`. -/
def newCommand (s : Alloc) : Alloc :=
  let j := freshName s.kernel.commands
  { s with
    object.fDma := some j
    kernel.commands := insert j s.kernel.commands }

/-- `fDma->setMemoryDescriptor(fBmd)`. -/
def setMemoryDescriptor (s : Alloc) : Alloc :=
  { s with
    object.fDmaPrepared := true
    kernel.mapped := s.kernel.mapped ∪ s.object.fDma.toFinset }

def setPhys (addr : Nat) (s : Alloc) : Alloc := { s with object.fRegionPhys := addr }

/-- The first part of `freeRegion`. -/
def freeCommand (s : Alloc) : Alloc :=
  { s with
    object.fDma := none
    kernel.mapped :=
      if s.object.fDmaPrepared then s.kernel.mapped \ s.object.fDma.toFinset else s.kernel.mapped
    kernel.commands := s.kernel.commands \ s.object.fDma.toFinset }

/-- The second part of `freeRegion`. -/
def freeDescriptor (s : Alloc) : Alloc :=
  { s with
    object.fBmd := none
    kernel.prepared :=
      if s.object.fBmdPrepared then s.kernel.prepared \ s.object.fBmd.toFinset
      else s.kernel.prepared
    kernel.descriptors := s.kernel.descriptors \ s.object.fBmd.toFinset }

def freeRegion (s : Alloc) : Alloc :=
  let s := s.freeCommand.freeDescriptor
  { s with
    object.fBmdPrepared := false
    object.fDmaPrepared := false
    object.fRegionCpu := false
    object.fRegionPhys := 0 }

/-- `allocRegion`, for a region of a given size. -/
def allocRegion (size : Nat) (a : RegionAnswers) (s : Alloc) : Bool × Alloc :=
  let s := s.setSize size
  if !a.inTaskWithPhysicalMask then (false, s.noDescriptor.freeRegion)
  else
    let s := s.newDescriptor
    if !a.prepare then (false, s.freeRegion)
    else
      let s := s.prepare
      if !a.getBytesNoCopy then (false, s.freeRegion)
      else
        let s := s.setCpu
        if !a.withSpecification then (false, s.noCommand.freeRegion)
        else
          let s := s.newCommand
          if !a.setMemoryDescriptor then (false, s.freeRegion)
          else
            let s := s.setMemoryDescriptor
            match a.gen64IOVMSegments with
            | none => (false, s.freeRegion)
            | some (nseg, length, addr) =>
              if nseg = 0 ∨ length < size then (false, s.freeRegion) else (true, s.setPhys addr)

def zeroIndices (s : Alloc) : Alloc :=
  { s with
    object.fSrcSw := 0
    object.fSrcWrite := 0
    object.fDstSw := 0
    object.fDstWrite := 0 }

end Alloc

/-- A size rounded up to whole pages, the source's `kAlign`. -/
def aligned (n : Nat) : Nat := (n + 4095) / 4096 * 4096

def CECopyPair.regionSize : Nat := 2 * aligned (kRingN * 8) + aligned kTxBufSz + aligned kRxBufSz

def CEDiag.regionSize : Nat := 2 * aligned (kRingN * 8) + aligned 512

def CECopyPair.allocRegion : RegionAnswers → Alloc → Bool × Alloc :=
  Alloc.allocRegion CECopyPair.regionSize

def CEDiag.allocRegion : RegionAnswers → Alloc → Bool × Alloc :=
  Alloc.allocRegion CEDiag.regionSize

/-- What one initialisation meets: whether `new` returns an object, the kernel's answers, and what
SRRI and DRRI read as. -/
structure InitAnswers where
  object : Bool
  region : RegionAnswers
  srri : UInt32
  drri : UInt32
  deriving DecidableEq

/-- The heartbeat probe reads a dead engine. -/
def InitAnswers.Dead (a : InitAnswers) : Prop := a.srri = 0xffffffff ∨ a.drri = 0xffffffff

instance (a : InitAnswers) : Decidable a.Dead := inferInstanceAs (Decidable (_ ∨ _))

def CECopyPair.init (fBar0 : Bool) (a : InitAnswers) (s : Alloc) : Bool × Alloc :=
  if !fBar0 then (false, s)
  else
    match CECopyPair.allocRegion a.region s with
    | (false, s) => (false, s)
    | (true, s) => if a.Dead then (false, s.zeroIndices) else (true, s.zeroIndices)

def CEDiag.init (fBar0 : Bool) (a : InitAnswers) (s : Alloc) : Bool × Alloc :=
  if !fBar0 then (false, s)
  else
    match CEDiag.allocRegion a.region s with
    | (false, s) => (false, s)
    | (true, s) => if a.Dead then (false, s) else (true, s)

/-- `CEDiag::teardown`, which the destructor calls. -/
def CEDiag.teardown (s : Alloc) : Alloc := s.freeRegion

structure CEObjects where
  fBar0 : Bool
  fCtrl : Option CEObject
  fWmi : Option CEObject
  fDiag : Option CEObject
  deriving DecidableEq

/-- `CEManager::init`; `CECopyPair` has no destructor, so `delete` releases the object alone. -/
def CEObjects.init (a : InitAnswers) (m : CEObjects) (k : Kernel) : Bool × CEObjects × Kernel :=
  if !a.object then (false, { m with fCtrl := none }, k)
  else
    match CECopyPair.init m.fBar0 a ⟨.new, k⟩ with
    | (false, s) => (false, { m with fCtrl := none }, s.kernel)
    | (true, s) => (true, { m with fCtrl := some s.object }, s.kernel)

/-- `CEManager::initWmi`. -/
def CEObjects.initWmi (a : InitAnswers) (m : CEObjects) (k : Kernel) : Bool × CEObjects × Kernel :=
  if m.fWmi.isSome then (true, m, k)
  else if !a.object then (false, { m with fWmi := none }, k)
  else
    match CECopyPair.init m.fBar0 a ⟨.new, k⟩ with
    | (false, s) => (false, { m with fWmi := none }, s.kernel)
    | (true, s) => (true, { m with fWmi := some s.object }, s.kernel)

/-- `CEManager::initDiag`. -/
def CEObjects.initDiag (a : InitAnswers) (m : CEObjects) (k : Kernel) : Bool × CEObjects × Kernel :=
  if m.fDiag.isSome then (true, m, k)
  else if !a.object then (false, { m with fDiag := none }, k)
  else
    match CEDiag.init m.fBar0 a ⟨.new, k⟩ with
    | (false, s) => (false, { m with fDiag := none }, (CEDiag.teardown s).kernel)
    | (true, s) => (true, { m with fDiag := some s.object }, s.kernel)

/-- Next to what was live in `k`, an object holds its own prepared descriptor and its own
command. -/
structure Owns (k : Kernel) (s : Alloc) : Prop where
  prepared : s.kernel.prepared =
    k.prepared ∪ if s.object.fBmdPrepared then s.object.fBmd.toFinset else ∅
  commands : s.kernel.commands = k.commands ∪ s.object.fDma.toFinset
  descriptor_apart : Disjoint k.prepared s.object.fBmd.toFinset
  command_apart : Disjoint k.commands s.object.fDma.toFinset

theorem owns_new (k : Kernel) : Owns k ⟨.new, k⟩ where
  prepared := (Finset.union_empty _).symm
  commands := (Finset.union_empty _).symm
  descriptor_apart := Finset.disjoint_empty_right _
  command_apart := Finset.disjoint_empty_right _

theorem Owns.noDescriptor (h : Owns k s) (hp : s.object.fBmdPrepared = false) :
    Owns k s.noDescriptor where
  prepared := by
    have hprepared := h.prepared
    rw [hp] at hprepared
    exact hprepared.trans (by simp only [Alloc.noDescriptor, hp, Bool.false_eq_true, if_false])
  commands := h.commands
  descriptor_apart := Finset.disjoint_empty_right _
  command_apart := h.command_apart

theorem Owns.newDescriptor (h : Owns k s) (hp : s.object.fBmdPrepared = false) :
    Owns k s.newDescriptor where
  prepared := by
    have hprepared := h.prepared
    rw [hp] at hprepared
    exact hprepared.trans (by simp only [Alloc.newDescriptor, hp, Bool.false_eq_true, if_false])
  commands := h.commands
  descriptor_apart := by
    apply Finset.disjoint_singleton_right.2
    intro hin
    apply freshName_notMem (s.kernel.descriptors ∪ s.kernel.prepared)
    rw [Finset.mem_union, h.prepared, Finset.mem_union]
    rw [h.prepared] at hin
    exact .inr (.inl hin)
  command_apart := h.command_apart

theorem Owns.prepare (h : Owns k s) (hp : s.object.fBmdPrepared = false) : Owns k s.prepare where
  prepared := by
    have hprepared : s.prepare.kernel.prepared = s.kernel.prepared ∪ s.object.fBmd.toFinset := rfl
    rw [hprepared, h.prepared, hp, if_neg Bool.false_ne_true, Finset.union_empty]
    rfl
  commands := h.commands
  descriptor_apart := h.descriptor_apart
  command_apart := h.command_apart

theorem Owns.noCommand (h : Owns k s) (hd : s.object.fDma = none) : Owns k s.noCommand where
  prepared := h.prepared
  commands := by
    have hcommands := h.commands
    rw [hd] at hcommands
    exact hcommands
  descriptor_apart := h.descriptor_apart
  command_apart := Finset.disjoint_empty_right _

theorem Owns.newCommand (h : Owns k s) (hd : s.object.fDma = none) : Owns k s.newCommand where
  prepared := h.prepared
  commands := by
    have hcommands := h.commands
    rw [hd, Option.toFinset_none, Finset.union_empty] at hcommands
    have hnew : s.newCommand.kernel.commands =
        insert (freshName s.kernel.commands) s.kernel.commands := rfl
    rw [hnew, hcommands, Finset.insert_eq, Finset.union_comm]
    rw [← hcommands]
    rfl
  descriptor_apart := h.descriptor_apart
  command_apart := by
    apply Finset.disjoint_singleton_right.2
    intro hin
    apply freshName_notMem s.kernel.commands
    have hold : k.commands ⊆ s.kernel.commands := by
      rw [h.commands]
      exact Finset.subset_union_left
    exact hold hin

theorem Owns.freeRegion (h : Owns k s) : s.freeRegion.kernel.live = k.live := by
  have hcommands : s.freeRegion.kernel.commands = s.kernel.commands \ s.object.fDma.toFinset := rfl
  have hprepared : s.freeRegion.kernel.prepared = if s.object.fBmdPrepared then
      s.kernel.prepared \ s.object.fBmd.toFinset else s.kernel.prepared := rfl
  rw [Kernel.live, Kernel.live, hcommands, hprepared, h.commands, h.prepared,
    Finset.union_sdiff_cancel_right h.command_apart]
  cases s.object.fBmdPrepared with
  | false => rw [if_neg Bool.false_ne_true, if_neg Bool.false_ne_true, Finset.union_empty]
  | true => rw [if_pos rfl, if_pos rfl, Finset.union_sdiff_cancel_right h.descriptor_apart]

/-- Every answer is what `allocRegion` needs. -/
def RegionAnswers.Good (size : Nat) (a : RegionAnswers) : Prop :=
  a.inTaskWithPhysicalMask ∧ a.prepare ∧ a.getBytesNoCopy ∧ a.withSpecification ∧
    a.setMemoryDescriptor ∧
    ∃ nseg length addr, a.gen64IOVMSegments = some (nseg, length, addr) ∧ nseg ≠ 0 ∧ size ≤ length

/-- What `allocRegion` makes of a new object: on success the object holds a prepared descriptor and
a command, otherwise nothing more is live than before. -/
inductive AllocPost (size : Nat) (a : RegionAnswers) (k : Kernel) : Bool × Alloc → Prop
  | failed (hbad : ¬ a.Good size) (hlive : s.kernel.live = k.live)
      (howns : Owns k s) : AllocPost size a k (false, s)
  | done (hgood : a.Good size) (howns : Owns k s) (hdma : s.object.fDma.isSome) :
      AllocPost size a k (true, s)

theorem Owns.freed (h : Owns k s) : Owns k s.freeRegion where
  prepared := by
    rw [show s.freeRegion.kernel.prepared = k.prepared from congrArg Prod.fst h.freeRegion]
    exact (Finset.union_empty _).symm
  commands := by
    rw [show s.freeRegion.kernel.commands = k.commands from congrArg Prod.snd h.freeRegion]
    exact (Finset.union_empty _).symm
  descriptor_apart := Finset.disjoint_empty_right _
  command_apart := Finset.disjoint_empty_right _

theorem AllocPost.fail (h : Owns k s) (hbad : ¬ a.Good size) :
    AllocPost size a k (false, s.freeRegion) :=
  .failed hbad h.freeRegion h.freed

theorem Owns.of_same (h : Owns k s) (hkp : t.kernel.prepared = s.kernel.prepared)
    (hkc : t.kernel.commands = s.kernel.commands) (hb : t.object.fBmd = s.object.fBmd)
    (hp : t.object.fBmdPrepared = s.object.fBmdPrepared) (hd : t.object.fDma = s.object.fDma) :
    Owns k t where
  prepared := by rw [hkp, hp, hb, h.prepared]
  commands := by rw [hkc, hd, h.commands]
  descriptor_apart := by
    rw [hb]
    exact h.descriptor_apart
  command_apart := by
    rw [hd]
    exact h.command_apart

theorem Owns.setSize (h : Owns k s) (size : Nat) : Owns k (s.setSize size) :=
  h.of_same rfl rfl rfl rfl rfl

theorem Owns.setCpu (h : Owns k s) : Owns k s.setCpu := h.of_same rfl rfl rfl rfl rfl

theorem Owns.setMemoryDescriptor (h : Owns k s) : Owns k s.setMemoryDescriptor :=
  h.of_same rfl rfl rfl rfl rfl

theorem Owns.setPhys (h : Owns k s) (addr : Nat) : Owns k (s.setPhys addr) :=
  h.of_same rfl rfl rfl rfl rfl

theorem Owns.zeroIndices (h : Owns k s) : Owns k s.zeroIndices := h.of_same rfl rfl rfl rfl rfl

theorem allocRegion_post (size : Nat) (a : RegionAnswers) (k : Kernel) :
    AllocPost size a k (Alloc.allocRegion size a ⟨.new, k⟩) := by
  have h0 := (owns_new k).setSize size
  have h1 := h0.newDescriptor rfl
  have h2 := h1.prepare rfl
  have h3 := h2.setCpu
  have h4 := h3.newCommand rfl
  have h5 := h4.setMemoryDescriptor
  unfold Alloc.allocRegion
  dsimp only
  cases hmask : a.inTaskWithPhysicalMask with
  | false =>
    exact .fail (h0.noDescriptor rfl) fun hg => Bool.false_ne_true (hmask.symm.trans hg.1)
  | true =>
  cases hprepare : a.prepare with
  | false => exact .fail h1 fun hg => Bool.false_ne_true (hprepare.symm.trans hg.2.1)
  | true =>
  cases hbytes : a.getBytesNoCopy with
  | false => exact .fail h2 fun hg => Bool.false_ne_true (hbytes.symm.trans hg.2.2.1)
  | true =>
  cases hspec : a.withSpecification with
  | false =>
    exact .fail (h3.noCommand rfl) fun hg => Bool.false_ne_true (hspec.symm.trans hg.2.2.2.1)
  | true =>
  cases hset : a.setMemoryDescriptor with
  | false => exact .fail h4 fun hg => Bool.false_ne_true (hset.symm.trans hg.2.2.2.2.1)
  | true =>
  cases hseg : a.gen64IOVMSegments with
  | none =>
    refine .fail h5 fun hg => ?_
    obtain ⟨nseg, length, addr, hsome, -⟩ := hg.2.2.2.2.2
    rw [hseg] at hsome
    cases hsome
  | some seg =>
    obtain ⟨nseg, length, addr⟩ := seg
    by_cases hbad : nseg = 0 ∨ length < size
    · simp only [Bool.not_true, Bool.false_eq_true, if_false, if_pos hbad]
      refine .fail h5 fun hg => ?_
      obtain ⟨nseg', length', addr', hsome, hn, hl⟩ := hg.2.2.2.2.2
      rw [hseg] at hsome
      cases hsome
      exact hbad.elim hn (Nat.not_lt.2 hl)
    · simp only [Bool.not_true, Bool.false_eq_true, if_false, if_neg hbad]
      obtain ⟨hn, hl⟩ := not_or.1 hbad
      exact .done ⟨hmask, hprepare, hbytes, hspec, hset, nseg, length, addr, hseg, hn,
        Nat.le_of_not_lt hl⟩ (h5.setPhys addr) rfl

/-- What the set-up of a new object comes to: no region, a region in front of a dead engine, or a
region in front of a live one. -/
inductive InitPost (size : Nat) (fBar0 : Bool) (a : InitAnswers) (k : Kernel) :
    Bool × Alloc → Prop
  | refused (hno : ¬ (fBar0 = true ∧ a.region.Good size)) (howns : Owns k s)
      (hlive : s.kernel.live = k.live) : InitPost size fBar0 a k (false, s)
  | dead (hregion : fBar0 = true ∧ a.region.Good size) (hdead : a.Dead) (howns : Owns k s)
      (hdma : s.object.fDma.isSome) : InitPost size fBar0 a k (false, s)
  | done (hregion : fBar0 = true ∧ a.region.Good size) (halive : ¬ a.Dead) (howns : Owns k s)
      (hdma : s.object.fDma.isSome) : InitPost size fBar0 a k (true, s)

/-- The part that both initialisations share; `f` is what one does with the object once it has its
region. -/
theorem init_post (size : Nat) (fBar0 : Bool) (a : InitAnswers) (k : Kernel) {f : Alloc → Alloc}
    (hf : ∀ s, Owns k s → Owns k (f s)) (hdma : ∀ s, (f s).object.fDma = s.object.fDma) :
    InitPost size fBar0 a k
      (if !fBar0 then (false, ⟨.new, k⟩)
      else
        match Alloc.allocRegion size a.region ⟨.new, k⟩ with
        | (false, s) => (false, s)
        | (true, s) => if a.Dead then (false, f s) else (true, f s)) := by
  cases fBar0 with
  | false => exact .refused (fun h => Bool.false_ne_true h.1) (owns_new k) rfl
  | true =>
    have hpost := allocRegion_post size a.region k
    simp only [Bool.not_true, Bool.false_eq_true, if_false]
    generalize Alloc.allocRegion size a.region ⟨.new, k⟩ = r at hpost
    cases hpost with
    | failed hbad hlive howns => exact .refused (fun h => hbad h.2) howns hlive
    | @done s hgood howns hsome =>
      have hheld := (congrArg Option.isSome (hdma s)).trans hsome
      dsimp only
      split
      · next hdead => exact .dead ⟨rfl, hgood⟩ hdead (hf s howns) hheld
      · next halive => exact .done ⟨rfl, hgood⟩ halive (hf s howns) hheld

theorem pairInit_post (fBar0 : Bool) (a : InitAnswers) (k : Kernel) :
    InitPost CECopyPair.regionSize fBar0 a k (CECopyPair.init fBar0 a ⟨.new, k⟩) :=
  init_post _ fBar0 a k (fun _ h => h.zeroIndices) fun _ => rfl

theorem diagInit_post (fBar0 : Bool) (a : InitAnswers) (k : Kernel) :
    InitPost CEDiag.regionSize fBar0 a k (CEDiag.init fBar0 a ⟨.new, k⟩) :=
  init_post _ fBar0 a k (f := id) (fun _ h => h) fun _ => rfl

theorem Owns.live_ne (h : Owns k s) (hdma : s.object.fDma.isSome) : s.kernel.live ≠ k.live := by
  obtain ⟨j, hj⟩ := Option.isSome_iff_exists.1 hdma
  intro heq
  have hcommands : s.kernel.commands = k.commands := congrArg Prod.snd heq
  have hmem : j ∈ s.kernel.commands := by
    rw [h.commands, hj, Finset.mem_union]
    exact .inr (Finset.mem_singleton_self j)
  have hapart := h.command_apart
  rw [hj] at hapart
  exact Finset.disjoint_singleton_right.1 hapart (hcommands ▸ hmem)

inductive InitCall where
  | init
  | initWmi
  | initDiag
  deriving DecidableEq

def InitCall.run (a : InitAnswers) (m : CEObjects) (k : Kernel) :
    InitCall → Bool × CEObjects × Kernel
  | .init => m.init a k
  | .initWmi => m.initWmi a k
  | .initDiag => m.initDiag a k

/-- A failed initialisation leaves the live DMA regions as they were. -/
def LeavesNothing (a : InitAnswers) (m : CEObjects) (k : Kernel) (c : InitCall) : Prop :=
  (c.run a m k).1 = false → (c.run a m k).2.2.live = k.live

/-- A pair is to be made, gets its region, and reads a dead engine. -/
def DeadPair (a : InitAnswers) (m : CEObjects) (c : InitCall) : Prop :=
  (c = .init ∨ c = .initWmi ∧ m.fWmi = none) ∧ a.object = true ∧
    (m.fBar0 = true ∧ a.region.Good CECopyPair.regionSize) ∧ a.Dead

theorem pair_leaves (a : InitAnswers) (fBar0 : Bool) (k : Kernel) :
    ((CECopyPair.init fBar0 a ⟨.new, k⟩).1 = false →
      (CECopyPair.init fBar0 a ⟨.new, k⟩).2.kernel.live = k.live) ↔
      ¬ ((fBar0 = true ∧ a.region.Good CECopyPair.regionSize) ∧ a.Dead) := by
  have hpost := pairInit_post fBar0 a k
  generalize CECopyPair.init fBar0 a ⟨.new, k⟩ = r at hpost
  cases hpost with
  | refused hno howns hlive => exact iff_of_true (fun _ => hlive) fun h => hno h.1
  | dead hregion hdead howns hdma =>
    exact iff_of_false (fun h => howns.live_ne hdma (h rfl)) fun h => h ⟨hregion, hdead⟩
  | done hregion halive howns hdma => exact iff_of_true nofun fun h => halive h.2

theorem CEObjects.init_pair (m : CEObjects) (k : Kernel) (ho : a.object = true) :
    (m.init a k).1 = (CECopyPair.init m.fBar0 a ⟨.new, k⟩).1 ∧
      (m.init a k).2.2 = (CECopyPair.init m.fBar0 a ⟨.new, k⟩).2.kernel := by
  simp only [CEObjects.init, ho, Bool.not_true, Bool.false_eq_true, if_false]
  obtain ⟨ok, s⟩ := CECopyPair.init m.fBar0 a ⟨.new, k⟩
  cases ok with
  | false => exact ⟨rfl, rfl⟩
  | true => exact ⟨rfl, rfl⟩

theorem CEObjects.initWmi_pair {m : CEObjects} (k : Kernel) (hw : m.fWmi = none)
    (ho : a.object = true) :
    (m.initWmi a k).1 = (CECopyPair.init m.fBar0 a ⟨.new, k⟩).1 ∧
      (m.initWmi a k).2.2 = (CECopyPair.init m.fBar0 a ⟨.new, k⟩).2.kernel := by
  simp only [CEObjects.initWmi, hw, ho, Option.isSome_none, Bool.not_true, Bool.false_eq_true,
    if_false]
  obtain ⟨ok, s⟩ := CECopyPair.init m.fBar0 a ⟨.new, k⟩
  cases ok with
  | false => exact ⟨rfl, rfl⟩
  | true => exact ⟨rfl, rfl⟩

/-- The destructor of the window frees what its set-up has allocated. -/
theorem CEObjects.initDiag_leaves (a : InitAnswers) (m : CEObjects) (k : Kernel)
    (h : (m.initDiag a k).1 = false) : (m.initDiag a k).2.2.live = k.live := by
  have hpost := diagInit_post m.fBar0 a k
  unfold CEObjects.initDiag at h ⊢
  split
  · rfl
  next hup =>
  rw [if_neg hup] at h
  split
  · rfl
  next hobject =>
  rw [if_neg hobject] at h
  generalize CEDiag.init m.fBar0 a ⟨.new, k⟩ = r at hpost h
  cases hpost with
  | refused hno howns hlive => exact howns.freeRegion
  | dead hregion hdead howns hdma => exact howns.freeRegion
  | done => cases h

/-- A failed initialisation leaves nothing allocated except when a new pair gets its region and
then reads a dead engine. -/
theorem leavesNothing_iff (a : InitAnswers) (m : CEObjects) (k : Kernel) (c : InitCall) :
    LeavesNothing a m k c ↔ ¬ DeadPair a m c := by
  cases c with
  | init =>
    cases ho : a.object with
    | false =>
      refine iff_of_true ?_ fun h => Bool.false_ne_true (ho.symm.trans h.2.1)
      simp only [LeavesNothing, InitCall.run, CEObjects.init, ho, Bool.not_false, if_true,
        imp_self]
    | true =>
      obtain ⟨hok, hkernel⟩ := m.init_pair k ho
      rw [LeavesNothing, InitCall.run, hok, hkernel, pair_leaves]
      apply not_congr
      exact ⟨fun h => ⟨.inl rfl, ho, h⟩, fun h => h.2.2⟩
  | initWmi =>
    cases hw : m.fWmi with
    | some wmi =>
      refine iff_of_true (fun h => ?_) fun h => ?_
      · simp only [InitCall.run, CEObjects.initWmi, hw, Option.isSome_some, if_true] at h
        cases h
      · rcases h.1 with hc | hc
        · cases hc
        · rw [hw] at hc
          cases hc.2
    | none =>
    cases ho : a.object with
    | false =>
      refine iff_of_true ?_ fun h => Bool.false_ne_true (ho.symm.trans h.2.1)
      simp only [LeavesNothing, InitCall.run, CEObjects.initWmi, hw, ho, Option.isSome_none,
        Bool.not_false, Bool.false_eq_true, if_false, if_true, imp_self]
    | true =>
      obtain ⟨hok, hkernel⟩ := CEObjects.initWmi_pair k hw ho
      rw [LeavesNothing, InitCall.run, hok, hkernel, pair_leaves]
      apply not_congr
      exact ⟨fun h => ⟨.inr ⟨rfl, hw⟩, ho, h⟩, fun h => h.2.2⟩
  | initDiag =>
    refine iff_of_true (m.initDiag_leaves a k) fun h => ?_
    rcases h.1 with hc | hc
    · cases hc
    · cases hc.1

section Regions

/-- The answers as the model of whole regions sees them. -/
structure Agrees (size : Nat) (fBar0 : Bool) (a : InitAnswers) (s : Setup) : Prop where
  object : s.object = a.object
  region : s.region = true ↔ fBar0 = true ∧ a.region.Good size
  engine : s.engine = true ↔ ¬ a.Dead

theorem Driver.allocRegion_live {d : Driver} (hd : d.allocated ∉ d.live) :
    d.allocRegion.2.live ≠ d.live := fun h =>
  hd (h ▸ Finset.mem_insert_self d.allocated d.live)

/-- `CEManager::init` succeeds, and changes what is live, just when it does in the model of whole
regions. -/
theorem init_agrees (m : CEObjects) (k : Kernel) {d : Driver} (mgr : CEManager)
    (hd : d.allocated ∉ d.live) (h : Agrees CECopyPair.regionSize m.fBar0 a s) :
    (m.init a k).1 = (d.init s mgr).1 ∧
      ((m.init a k).2.2.live = k.live ↔ (d.init s mgr).2.live = d.live) := by
  have hdriver : (d.init s mgr).1 = (d.newPair s).1.isSome ∧
      (d.init s mgr).2.live = (d.newPair s).2.live := ⟨rfl, rfl⟩
  rw [hdriver.1, hdriver.2, Driver.newPair, h.object]
  cases ho : a.object with
  | false =>
    simp only [CEObjects.init, ho, Bool.not_false, Bool.true_or, if_true]
    exact ⟨rfl, trivial⟩
  | true =>
    obtain ⟨hok, hkernel⟩ := m.init_pair k ho
    have hpost := pairInit_post m.fBar0 a k
    rw [hok, hkernel]
    generalize CECopyPair.init m.fBar0 a ⟨.new, k⟩ = r at hpost
    cases hpost with
    | refused hno howns hlive =>
      have hregion : s.region = false := Bool.eq_false_iff.2 fun hr => hno (h.region.1 hr)
      rw [hregion]
      exact ⟨rfl, iff_of_true hlive rfl⟩
    | dead hin hdead howns hdma =>
      have hengine : s.engine = false := Bool.eq_false_iff.2 fun he => h.engine.1 he hdead
      rw [h.region.2 hin, hengine]
      exact ⟨rfl, iff_of_false (howns.live_ne hdma) (Driver.allocRegion_live hd)⟩
    | done hin halive howns hdma =>
      rw [h.region.2 hin, h.engine.2 halive]
      exact ⟨rfl, iff_of_false (howns.live_ne hdma) (Driver.allocRegion_live hd)⟩

end Regions

def deadAnswers : InitAnswers :=
  ⟨true, ⟨true, true, true, true, true, some (1, CECopyPair.regionSize, 0x10000)⟩, 0xffffffff, 0⟩

/-- `CEManager::init` fails and leaves a prepared descriptor and a command behind. -/
theorem dead_pair_leaks :
    ((CEObjects.mk true none none none).init deadAnswers ⟨∅, ∅, ∅, ∅⟩).1 = false ∧
      ((CEObjects.mk true none none none).init deadAnswers ⟨∅, ∅, ∅, ∅⟩).2.2.live = ({1}, {1}) ∧
      ¬ LeavesNothing deadAnswers ⟨true, none, none, none⟩ ⟨∅, ∅, ∅, ∅⟩ .init := by
  have hfalse : ((CEObjects.mk true none none none).init deadAnswers ⟨∅, ∅, ∅, ∅⟩).1 = false := by
    decide
  have hlive : ((CEObjects.mk true none none none).init deadAnswers ⟨∅, ∅, ∅, ∅⟩).2.2.live =
      ({1}, {1}) := by decide
  refine ⟨hfalse, hlive, fun h => ?_⟩
  have heq := hlive.symm.trans (h hfalse)
  revert heq
  decide

end Qca9377
