import Qca9377.Diag

namespace Qca9377
open Bytes Interleaving
set_option autoImplicit true

/-- What the mapped registers hold. -/
def RegFile : Type := Nat → UInt32

def kPcieLocalBase : Nat := 0x80000
def kCoreCtrlOffset : Nat := 0

def kSOC_CoreBaseAddress : Nat := 0x3a000
def kPCIe_LocalBaseAddress : Nat := 0x80000
def kSocCoreCtrlOffset : Nat := 0
def kCoreCtrlCpuIntrMask : UInt32 := 0x2000
def kRTCStateValOn : UInt32 := 3

/-- The register that the driver knows as CORE_CTRL. -/
def RegFile.coreCtrl (regs : RegFile) : UInt32 := regs (kSOC_CoreBaseAddress + kSocCoreCtrlOffset)

def wakeTargetCpu (regs : RegFile) : RegFile :=
  Function.update regs (kSOC_CoreBaseAddress + kSocCoreCtrlOffset)
    (regs.coreCtrl ||| kCoreCtrlCpuIntrMask)

def isAwake (regs : RegFile) : Bool := regs (kPCIe_LocalBaseAddress + 0) &&& 7 == kRTCStateValOn

/-- The window of a device with these registers. -/
def CEDiag.over (regs : RegFile) (s : CEDiag) : CEDiag :=
  { s with coreCtrl := (regs (kPcieLocalBase + kCoreCtrlOffset)).toNat }

def DiagCall.targAddr : DiagCall → Nat
  | .readMem targAddr _ => targAddr
  | .writeMem targAddr _ => targAddr

/-- An access puts a descriptor for the CE address `a` of the target into a ring. -/
def Gives (a : Nat) (s t : CEDiag) : Prop :=
  (∃ i, t.fSrcDesc i ≠ s.fSrcDesc i ∧ (t.fSrcDesc i).addr = .target a) ∨
    ∃ i, t.fDstDesc i ≠ s.fDstDesc i ∧ (t.fDstDesc i).addr = .target a

def GivesOnly (a : Nat) (s t : CEDiag) : Prop := ∀ b, Gives b s t → b = a

/-- Anything beside the call that leaves the register alone. -/
def KeepsRegister (s t : CEDiag) : Prop := t.coreCtrl = s.coreCtrl

/-- Every descriptor for target memory that a call gives to the engine points to the CE address
that CORE_CTRL and the target address make up. -/
def UsesCoreCtrl (regs : RegFile) (targAddr : Nat) : Prop :=
  ∀ c : DiagCall, c.targAddr = targAddr → ∀ s : CEDiag,
    Safe KeepsRegister (fun _ => True) (GivesOnly (ceAddrOf regs.coreCtrl.toNat targAddr))
      (fun _ _ => True) c.body (s.over regs)

variable {s t : CEDiag}

theorem window_assertion : Assertion KeepsRegister (fun _ => True) (fun _ : CEDiag => True) :=
  ⟨fun _ _ _ _ => trivial, fun _ _ => trivial⟩

theorem register_assertion (v : Nat) :
    Assertion KeepsRegister (fun _ => True) (fun s : CEDiag => s.coreCtrl = v) :=
  ⟨fun _ _ h hs => hs.trans h, fun _ _ => trivial⟩

theorem givesOnly_same (hs : t.fSrcDesc = s.fSrcDesc) (hd : t.fDstDesc = s.fDstDesc) :
    GivesOnly a s t := by
  rintro b (⟨i, hne, -⟩ | ⟨i, hne, -⟩)
  · exact absurd (congrFun hs i) hne
  · exact absurd (congrFun hd i) hne

theorem givesOnly_dst {post : DiagAddr} (hp : ∀ b, post = .target b → b = a) (s : CEDiag) :
    GivesOnly a s (s.writeDst post) := by
  rintro b (⟨i, hne, -⟩ | ⟨i, hne, haddr⟩)
  · exact absurd rfl hne
  · by_cases hi : i = s.fDstWrite
    · subst hi
      simp only [CEDiag.writeDst, Function.update_self] at haddr
      exact hp b haddr
    · exact absurd (Function.update_of_ne hi _ _) hne

theorem givesOnly_src {send : DiagAddr} (hp : ∀ b, send = .target b → b = a) (len : Nat)
    (s : CEDiag) : GivesOnly a s (s.writeSrc send len) := by
  rintro b (⟨i, hne, haddr⟩ | ⟨i, hne, -⟩)
  · by_cases hi : i = s.fSrcWrite
    · subst hi
      simp only [CEDiag.writeSrc, Function.update_self] at haddr
      exact hp b haddr
    · exact absurd (Function.update_of_ne hi _ _) hne
  · exact absurd rfl hne

theorem pollDiag_gives (done : CEDiag → Bool) (n : Nat) (s : CEDiag) :
    Safe KeepsRegister (fun _ => True) (GivesOnly a) (fun _ _ => True) (pollDiag done n) s := by
  induction n generalizing s with
  | zero => exact .ret window_assertion trivial fun _ _ => trivial
  | succ n ih =>
    apply Safe.op window_assertion trivial (fun _ _ => givesOnly_same rfl rfl)
    intro t _
    dsimp only [Prog.ret_bind, bind_eq_bind, id_eq]
    split
    · exact .ret window_assertion trivial fun _ _ => trivial
    · exact ih t

theorem xfer_gives {post send : DiagAddr} (hp : ∀ b, post = .target b → b = a)
    (hs : ∀ b, send = .target b → b = a) (len : Nat) (s : CEDiag) :
    Safe KeepsRegister (fun _ => True) (GivesOnly a) (fun _ _ => True)
      (CEDiag.xfer post send len) s := by
  have hlog (m : DiagLog) (t : CEDiag) :
      Safe KeepsRegister (fun _ => True) (GivesOnly a) (fun _ _ => True)
        (.op (CEDiag.log m) fun _ => .ret false) t := by
    apply Safe.op window_assertion trivial (fun _ _ => givesOnly_same rfl rfl)
    intro t _
    exact .ret window_assertion trivial fun _ _ => trivial
  unfold CEDiag.xfer
  simp only [bind_eq_bind, pure_eq_ret, read_bind, modify_bind]
  apply Safe.op window_assertion trivial (fun t _ => givesOnly_dst hp t)
  intro t _
  apply Safe.op window_assertion trivial (fun _ _ => givesOnly_same rfl rfl)
  intro t _
  apply Safe.op window_assertion trivial (fun _ _ => givesOnly_same rfl rfl)
  intro t _
  apply Safe.op window_assertion trivial (fun t _ => givesOnly_src hs len t)
  intro t _
  apply Safe.op window_assertion trivial (fun _ _ => givesOnly_same rfl rfl)
  intro t _
  apply Safe.op window_assertion trivial (fun _ _ => givesOnly_same rfl rfl)
  intro t _
  apply Safe.bind
  apply (pollDiag_gives _ _ _).mono (fun _ => id) (fun _ _ => id)
  intro sent t _
  split
  · apply Safe.op window_assertion trivial (fun _ _ => givesOnly_same rfl rfl)
    intro t _
    exact hlog _ _
  apply Safe.bind
  apply (pollDiag_gives _ _ _).mono (fun _ => id) (fun _ _ => id)
  intro completed t _
  split
  · apply Safe.op window_assertion trivial (fun _ _ => givesOnly_same rfl rfl)
    intro t _
    exact hlog _ _
  apply Safe.op window_assertion trivial (fun _ _ => givesOnly_same rfl rfl)
  intro t _
  apply Safe.op window_assertion trivial (fun _ _ => givesOnly_same rfl rfl)
  intro u _
  split
  · exact hlog _ _
  · exact .ret window_assertion trivial fun _ _ => trivial

/-- A call uses one CE address, the one of the register that `targToCeAddr` reads. -/
theorem call_gives (c : DiagCall) (h : s.coreCtrl = v) :
    Safe KeepsRegister (fun _ => True) (GivesOnly (ceAddrOf v c.targAddr)) (fun _ _ => True)
      c.body s := by
  have hr := register_assertion v
  have hbounce (a : Nat) : ∀ b, DiagAddr.bounce = .target b → b = a := fun _ hb => nomatch hb
  have htarget (a : Nat) : ∀ b, DiagAddr.target a = .target b → b = a :=
    fun _ hb => (DiagAddr.target.inj hb).symm
  cases c with
  | readMem targAddr len =>
    apply Safe.map
    unfold CEDiag.readMem CEDiag.targToCeAddr
    simp only [bind_eq_bind, pure_eq_ret, read_bind, Prog.op_bind, Prog.ret_bind]
    apply Safe.op hr h (fun _ _ => givesOnly_same rfl rfl)
    intro t ht
    split
    · exact .ret window_assertion trivial fun _ _ => trivial
    apply Safe.op hr ht (fun _ _ => givesOnly_same rfl rfl)
    intro t ht
    rw [ht]
    apply Safe.bind
    apply (xfer_gives (hbounce _) (htarget _) _ _).mono (fun _ => id) (fun _ _ => id)
    intro ok t _
    split
    · exact .ret window_assertion trivial fun _ _ => trivial
    apply Safe.op window_assertion trivial (fun _ _ => givesOnly_same rfl rfl)
    intro t _
    exact .ret window_assertion trivial fun _ _ => trivial
  | writeMem targAddr buf =>
    apply Safe.map
    unfold CEDiag.writeMem CEDiag.targToCeAddr
    simp only [bind_eq_bind, pure_eq_ret, read_bind, modify_bind, Prog.op_bind, Prog.ret_bind]
    apply Safe.op hr h (fun _ _ => givesOnly_same rfl rfl)
    intro t ht
    split
    · exact .ret window_assertion trivial fun _ _ => trivial
    apply Safe.op hr ht (fun _ _ => givesOnly_same rfl rfl)
    intro t ht
    rw [ht]
    apply Safe.op window_assertion trivial (fun _ _ => givesOnly_same rfl rfl)
    intro t _
    exact xfer_gives (htarget _) (hbounce _) _ _

/-- A read of one byte through `sampleDiag` gives its CE address to the engine. -/
theorem read_gives (targAddr v : Nat) :
    ∃ t u, Gives (ceAddrOf v targAddr) t u ∧ ∀ G : CEDiag → CEDiag → Prop,
      Safe KeepsRegister (fun _ => True) G (fun _ _ => True)
        (DiagCall.readMem targAddr 1).body { sampleDiag with coreCtrl := v } → G t u := by
  let s := { sampleDiag with coreCtrl := v }
  let t := (s.writeDst .bounce).stepDst.ringDst
  refine ⟨t, t.writeSrc (.target (ceAddrOf v targAddr)) 1, .inl ⟨0, ?_, rfl⟩, fun G h => ?_⟩
  · exact fun he => nomatch congrArg DiagDescriptor.addr he
  · have hregion := (h _ .refl).2.2
    have hregister := (hregion _ .refl).2.2
    have hwrite := (hregister _ .refl).2.2
    have hstep := (hwrite _ .refl).2.2
    have hring := (hstep _ .refl).2.2
    exact (hring _ .refl).2.1

theorem ceAddrOf_shift (v addr : Nat) : ceAddrOf v addr >>> 21 = v &&& 0x7ff := by
  have hlow : ((if 0x100000 ≤ addr then 0x100000 else 0) ||| (addr &&& 0xfffff)) < 2 ^ 21 := by
    apply Nat.or_lt_two_pow
    · split
      · decide
      · decide
    · exact Nat.lt_of_le_of_lt Nat.and_le_right (by decide)
  rw [ceAddrOf, Nat.shiftRight_or_distrib, Nat.shiftLeft_shiftRight, Nat.shiftRight_eq_div_pow,
    Nat.div_eq_of_lt hlow, Nat.or_zero]

theorem ceAddrOf_eq_iff (addr : Nat) :
    ceAddrOf v addr = ceAddrOf v' addr ↔ v &&& 0x7ff = v' &&& 0x7ff := by
  constructor
  · intro h
    rw [← ceAddrOf_shift v addr, h, ceAddrOf_shift]
  · intro h
    rw [ceAddrOf, ceAddrOf, h]

/-- The window is the one of CORE_CTRL exactly when the register that is read in its place agrees
with it in its low eleven bits. -/
theorem usesCoreCtrl_iff (regs : RegFile) (targAddr : Nat) : UsesCoreCtrl regs targAddr ↔
    (regs (kPcieLocalBase + kCoreCtrlOffset)).toNat &&& 0x7ff = regs.coreCtrl.toNat &&& 0x7ff := by
  rw [← ceAddrOf_eq_iff targAddr]
  constructor
  · intro h
    obtain ⟨t, u, hgives, hall⟩ :=
      read_gives targAddr (regs (kPcieLocalBase + kCoreCtrlOffset)).toNat
    exact hall _ (h (.readMem targAddr 1) rfl sampleDiag) _ hgives
  · rintro h c rfl s
    rw [← h]
    exact call_gives c rfl

/-- A device that is awake and whose CPU has been woken. -/
def awakeRegs : RegFile :=
  wakeTargetCpu fun offset => if offset = kPCIe_LocalBaseAddress then 3 else 0

/-- The window of an awake device is built from its power state. -/
theorem window_of_power_state :
    isAwake awakeRegs = true ∧ awakeRegs.coreCtrl = 0x2000 ∧
      kPcieLocalBase + kCoreCtrlOffset = kPCIe_LocalBaseAddress + 0 ∧
      ¬ UsesCoreCtrl awakeRegs 0x400000 := by
  refine ⟨by decide, by decide, rfl, fun h => ?_⟩
  obtain ⟨t, u, hgives, hall⟩ := read_gives 0x400000
    (awakeRegs (kPcieLocalBase + kCoreCtrlOffset)).toNat
  have haddr := hall _ (h (.readMem 0x400000 1) rfl sampleDiag) _ hgives
  exact absurd ((ceAddrOf_eq_iff _).1 haddr) (by decide)

end Qca9377
