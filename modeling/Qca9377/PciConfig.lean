import Qca9377.Bytes
import Qca9377.Polling
import Qca9377.StageCap

namespace Qca9377
open Bytes Interleaving
set_option autoImplicit true

/-- The configuration space as `configRead8` shows it. -/
abbrev ConfigSpace := Nat → UInt8

def configRead8 (cfg : ConfigSpace) (off : Nat) : UInt8 := cfg off

def configRead16 (cfg : ConfigSpace) (off : Nat) : UInt16 :=
  UInt16.ofNat (decodeLE [cfg off, cfg (off + 1)])

def configWrite16 (cfg : ConfigSpace) (off : Nat) (v : UInt16) : ConfigSpace :=
  store cfg off (encodeLE 2 v.toNat)

theorem configRead16_write (cfg : ConfigSpace) (off : Nat) (v : UInt16) :
    configRead16 (configWrite16 cfg off v) off = v := by
  have hlen : (encodeLE 2 v.toNat).length = 2 := encodeLE_length 2 _
  have hlow : configWrite16 cfg off v off = UInt8.ofNat v.toNat :=
    store_inside cfg off (x := encodeLE 2 v.toNat) (i := 0) (hlen ▸ Nat.zero_lt_two)
  have hhigh : configWrite16 cfg off v (off + 1) = UInt8.ofNat (v.toNat / 256) :=
    store_inside cfg off (x := encodeLE 2 v.toNat) (i := 1) (hlen ▸ Nat.one_lt_two)
  have hbytes : [configWrite16 cfg off v off, configWrite16 cfg off v (off + 1)] =
      encodeLE 2 v.toNat := by
    rw [hlow, hhigh]
    rfl
  rw [configRead16, hbytes, decodeLE_encodeLE_of_lt v.toNat_lt, UInt16.ofNat_toNat]

theorem configRead16_write_other (cfg : ConfigSpace) (v : UInt16)
    (h : off' + 2 ≤ off ∨ off + 2 ≤ off') :
    configRead16 (configWrite16 cfg off v) off' = configRead16 cfg off' := by
  have hlen : (encodeLE 2 v.toNat).length = 2 := encodeLE_length 2 _
  have hlow : configWrite16 cfg off v off' = cfg off' := store_outside cfg (by omega)
  have hhigh : configWrite16 cfg off v (off' + 1) = cfg (off' + 1) := store_outside cfg (by omega)
  rw [configRead16, configRead16, hlow, hhigh]

/-- Where the driver object stands between `start` and the end of `stop`. -/
inductive PciPhase where
  | starting
  | walked
  | stopping
  deriving DecidableEq, Repr

structure PciHost where
  cfg : ConfigSpace
  fPci : Bool
  fAspmCapOff : UInt8
  fAspmCtl : UInt16
  phase : PciPhase

namespace PciHost

def configWrite16 (off : Nat) (v : UInt16) (s : PciHost) : PciHost :=
  { s with cfg := Qca9377.configWrite16 s.cfg off v }

/-- Set or clear a bit of the command register. -/
def setCommand (bit : UInt16) (enable : Bool) (s : PciHost) : PciHost :=
  let command := configRead16 s.cfg 0x04
  s.configWrite16 0x04 (if enable then command ||| bit else command &&& ~~~bit)

def setMemoryEnable (enable : Bool) (s : PciHost) : PciHost := s.setCommand 0x0002 enable

def setBusMasterEnable (enable : Bool) (s : PciHost) : PciHost := s.setCommand 0x0004 enable

def saveAspm (capOff : UInt8) (s : PciHost) : PciHost :=
  { s with fAspmCapOff := capOff, fAspmCtl := configRead16 s.cfg (capOff.toNat + 0x10) }

def enter (phase : PciPhase) (s : PciHost) : PciHost := { s with phase := phase }

end PciHost

/-- The PCI Express capability is found at `capOff`. -/
def disableAspm (capOff : UInt8) : Prog PciHost Unit := do
  modify (PciHost.saveAspm capOff)
  let fAspmCtl ← read PciHost.fAspmCtl
  if fAspmCtl &&& 0x0003 ≠ 0 then
    modify (PciHost.configWrite16 (capOff.toNat + 0x10) (fAspmCtl &&& ~~~0x0003))

def walkCapabilities : Nat → UInt8 → Prog PciHost Unit
  | 0, _ => pure ()
  | hops + 1, capOff =>
    if capOff = 0 then pure ()
    else do
      let capId ← read fun s => configRead8 s.cfg capOff.toNat
      if capId = 0x10 then disableAspm capOff
      else
        let next ← read fun s => configRead8 s.cfg (capOff.toNat + 0x01)
        walkCapabilities hops (next &&& 0xFC)

def aspmOff : Prog PciHost Unit := do
  let status ← read fun s => configRead16 s.cfg 0x06
  if status &&& 0x0010 ≠ 0 then
    let capPtr ← read fun s => configRead8 s.cfg 0x34
    walkCapabilities 48 (capPtr &&& 0xFC)

/-- What `start` does to the configuration space, once the provider is known to be a PCI device. -/
def startPci : Prog PciHost Unit := do
  modify fun s => { s with fPci := true }
  modify (PciHost.setMemoryEnable true)
  modify (PciHost.setBusMasterEnable true)
  aspmOff
  modify (PciHost.enter .walked)

def stopPci : Prog PciHost Unit := do
  modify (PciHost.enter .stopping)
  let fPci ← read PciHost.fPci
  if fPci then
    modify (PciHost.setBusMasterEnable false)
    modify (PciHost.setMemoryEnable false)
    let (fAspmCapOff, fAspmCtl) ← read fun s => (s.fAspmCapOff, s.fAspmCtl)
    if fAspmCapOff ≠ 0 ∧ fAspmCtl &&& 0x03 ≠ 0 then
      modify (PciHost.configWrite16 (fAspmCapOff.toNat + 0x10) fAspmCtl)

/-- A driver object's `start` and, if it returns true, the `stop` that ends it. -/
def lifetime (bootArg : Option Nat) (o : Outcomes) : Prog PciHost Bool := do
  if o.superStart ∧ o.provider then startPci
  if (start bootArg o).1 then
    stopPci
    return true
  else return false

/-- The pointer that follows `capOff` in the capability list; 0 ends the list. -/
def nextCap (cfg : ConfigSpace) (capOff : UInt8) : UInt8 :=
  if capOff = 0 then 0 else cfg (capOff.toNat + 1) &&& 0xFC

/-- The `n`-th pointer of the capability list, followed without any bound. -/
def capAt (cfg : ConfigSpace) (n : Nat) : UInt8 := (nextCap cfg)^[n] (cfg 0x34 &&& 0xFC)

def IsPciExpress (cfg : ConfigSpace) (capOff : UInt8) : Prop :=
  capOff ≠ 0 ∧ cfg capOff.toNat = 0x10

theorem nextCap_iterate_zero (cfg : ConfigSpace) (n : Nat) : (nextCap cfg)^[n] 0 = 0 := by
  induction n with
  | zero => rfl
  | succ n ih => rw [Function.iterate_succ_apply', ih, nextCap, if_pos rfl]

theorem exec_walk_none (s : PciHost)
    (h : ∀ k < hops, ¬ IsPciExpress s.cfg ((nextCap s.cfg)^[k] capOff)) :
    (exec id (walkCapabilities hops capOff) s).2 = s := by
  induction hops generalizing capOff with
  | zero => rfl
  | succ hops ih =>
    by_cases hz : capOff = 0
    · rw [walkCapabilities, if_pos hz]
      rfl
    · have hid : ¬ configRead8 s.cfg capOff.toNat = 0x10 :=
        fun hid => h 0 (Nat.succ_pos hops) ⟨hz, hid⟩
      have hnext : configRead8 s.cfg (capOff.toNat + 0x01) &&& 0xFC = nextCap s.cfg capOff := by
        rw [nextCap, if_neg hz, configRead8]
      have hrest : ∀ k < hops,
          ¬ IsPciExpress s.cfg ((nextCap s.cfg)^[k] (nextCap s.cfg capOff)) := by
        intro k hk
        rw [← Function.iterate_succ_apply]
        exact h (k + 1) (Nat.succ_lt_succ hk)
      have hwalk := ih hrest
      rw [← hnext] at hwalk
      simpa only [walkCapabilities, if_neg hz, bind_eq_bind, read_bind, exec_op, id_eq, if_neg hid]
        using hwalk

theorem exec_disableAspm (s : PciHost) (capOff : UInt8) :
    (exec id (disableAspm capOff) s).2.fAspmCapOff = capOff := by
  simp only [disableAspm, bind_eq_bind, modify_bind, exec_op, id_eq, read_bind]
  split <;> rfl

/-- The walk stops at the first PCI Express capability of the list, when it lies within its hops. -/
theorem exec_walk_first (s : PciHost) (hi : i < hops)
    (h : FirstAt (fun k => IsPciExpress s.cfg ((nextCap s.cfg)^[k] capOff)) i) :
    (exec id (walkCapabilities hops capOff) s).2.fAspmCapOff = (nextCap s.cfg)^[i] capOff := by
  induction hops generalizing i capOff with
  | zero => exact absurd hi (Nat.not_lt_zero i)
  | succ hops ih =>
    have hz : capOff ≠ 0 := by
      intro hz
      exact h.1.1 (hz ▸ nextCap_iterate_zero s.cfg i)
    cases i with
    | zero =>
      have hid : configRead8 s.cfg capOff.toNat = 0x10 := h.1.2
      simp only [walkCapabilities, if_neg hz, bind_eq_bind, read_bind, exec_op, id_eq, if_pos hid]
      exact exec_disableAspm s capOff
    | succ i =>
      have hid : ¬ configRead8 s.cfg capOff.toNat = 0x10 :=
        fun hid => h.2 0 (Nat.succ_pos i) ⟨hz, hid⟩
      have hnext : configRead8 s.cfg (capOff.toNat + 0x01) &&& 0xFC = nextCap s.cfg capOff := by
        rw [nextCap, if_neg hz, configRead8]
      have hrest : FirstAt
          (fun k => IsPciExpress s.cfg ((nextCap s.cfg)^[k] (nextCap s.cfg capOff))) i :=
        ⟨h.1, fun k hk => h.2 (k + 1) (Nat.succ_lt_succ hk)⟩
      have hwalk := ih (Nat.lt_of_succ_lt_succ hi) hrest
      rw [← hnext] at hwalk
      simpa only [walkCapabilities, if_neg hz, bind_eq_bind, read_bind, exec_op, id_eq, if_neg hid,
        Function.iterate_succ_apply, hnext] using hwalk

/-- The places a capability can have. -/
def capSlots : Finset UInt8 := (Finset.range 48).image fun k => UInt8.ofNat (0x40 + 4 * k)

theorem masked_aligned (b : UInt8) : (b &&& 0xFC).toNat % 4 = 0 := by
  have h : (b.toNat &&& 252) % 2 ^ 2 = (b.toNat % 2 ^ 2) &&& (252 % 2 ^ 2) := Nat.and_mod_two_pow
  rw [UInt8.toNat_and]
  exact h.trans (Nat.and_zero _)

theorem mem_capSlots {p : UInt8} (h : p.toNat % 4 = 0) (hlow : 0x40 ≤ p.toNat) : p ∈ capSlots := by
  have hhigh := p.toNat_lt
  refine Finset.mem_image.2 ⟨(p.toNat - 0x40) / 4, Finset.mem_range.2 (by omega), ?_⟩
  have hp : 0x40 + 4 * ((p.toNat - 0x40) / 4) = p.toNat := by omega
  rw [hp, UInt8.ofNat_toNat]

theorem capSlots_card : capSlots.card ≤ 48 := by
  have h := Finset.card_image_le (s := Finset.range 48) (f := fun k => UInt8.ofNat (0x40 + 4 * k))
  rwa [Finset.card_range] at h

theorem capAt_aligned (cfg : ConfigSpace) (n : Nat) : (capAt cfg n).toNat % 4 = 0 := by
  cases n with
  | zero => exact masked_aligned _
  | succ n =>
    rw [capAt, Function.iterate_succ_apply', nextCap]
    split
    · rfl
    · exact masked_aligned _

/-- The list ends for good at its first null pointer. -/
theorem capAt_zero (hk : k ≤ n) (h : capAt cfg k = 0) : capAt cfg n = 0 := by
  have hadd : capAt cfg n = (nextCap cfg)^[n - k] (capAt cfg k) := by
    rw [capAt, capAt, ← Function.iterate_add_apply, Nat.sub_add_cancel hk]
  rw [hadd, h, nextCap_iterate_zero]

/-- A list whose pointers stay out of the header comes to its first PCI Express capability within
48 places, whether or not it ends. -/
theorem firstPcie_lt (hptr : ∀ n, capAt cfg n = 0 ∨ 0x40 ≤ (capAt cfg n).toNat)
    (h : FirstAt (fun k => IsPciExpress cfg (capAt cfg k)) i) : i < 48 := by
  have hslot : ∀ k ≤ i, (nextCap cfg)^[k] (cfg 0x34 &&& 0xFC) ∈ capSlots := by
    intro k hk
    rcases hptr k with hz | hlow
    · exact absurd (capAt_zero hk hz) h.1.1
    · exact mem_capSlots (capAt_aligned cfg k) hlow
  exact (FirstAt.iterate_lt_card capSlots h hslot).trans_le capSlots_card

def HasCapList (cfg : ConfigSpace) : Prop := configRead16 cfg 0x06 &&& 0x0010 ≠ 0

theorem aspmOff_walks (hlist : HasCapList s.cfg) :
    (exec id aspmOff s).2 = (exec id (walkCapabilities 48 (capAt s.cfg 0)) s).2 := by
  have h : configRead16 s.cfg 0x06 &&& 0x0010 ≠ 0 := hlist
  simp only [aspmOff, bind_eq_bind, read_bind, exec_op, id_eq, if_pos h]
  rfl

/-- The walk finds a PCI Express capability if the list has one at all, and then its first. -/
theorem aspmOff_finds (hfresh : s.fAspmCapOff = 0) (hlist : HasCapList s.cfg)
    (hptr : ∀ n, capAt s.cfg n = 0 ∨ 0x40 ≤ (capAt s.cfg n).toNat) :
    ((exec id aspmOff s).2.fAspmCapOff ≠ 0 ↔ ∃ n, IsPciExpress s.cfg (capAt s.cfg n)) ∧
      ∀ i, FirstAt (fun n => IsPciExpress s.cfg (capAt s.cfg n)) i →
        (exec id aspmOff s).2.fAspmCapOff = capAt s.cfg i := by
  have hfirst (i : Nat) (hi : FirstAt (fun n => IsPciExpress s.cfg (capAt s.cfg n)) i) :
      (exec id aspmOff s).2.fAspmCapOff = capAt s.cfg i := by
    rw [aspmOff_walks hlist]
    exact exec_walk_first s (firstPcie_lt hptr hi) hi
  refine ⟨?_, hfirst⟩
  rcases firstAt_or (fun n => IsPciExpress s.cfg (capAt s.cfg n)) 48 with ⟨i, -, hi⟩ | hnone
  · rw [hfirst i hi]
    exact ⟨fun _ => ⟨i, hi.1⟩, fun _ => hi.1.1⟩
  · constructor
    · intro hfound
      have hwalk : (exec id (walkCapabilities 48 (capAt s.cfg 0)) s).2 = s :=
        exec_walk_none s hnone
      rw [aspmOff_walks hlist, hwalk] at hfound
      exact absurd hfresh hfound
    · intro hex
      classical
      have hi : FirstAt (fun n => IsPciExpress s.cfg (capAt s.cfg n)) (Nat.find hex) :=
        ⟨Nat.find_spec hex, fun k hk => Nat.find_min hex hk⟩
      exact absurd hi.1 (hnone _ (firstPcie_lt hptr hi))

/-- What the driver object and the link-control word of the capability at `a` hold. -/
structure AspmView where
  fPci : Bool
  fAspmCapOff : UInt8
  fAspmCtl : UInt16
  phase : PciPhase
  word : UInt16

def PciHost.view (a : UInt8) (s : PciHost) : AspmView :=
  ⟨s.fPci, s.fAspmCapOff, s.fAspmCtl, s.phase, configRead16 s.cfg (a.toNat + 0x10)⟩

/-- Others may change the configuration space, but not that word. -/
def PciOthers (a : UInt8) (s t : PciHost) : Prop := t.view a = s.view a

def FreshObject (s : PciHost) : Prop :=
  s.fPci = false ∧ s.fAspmCapOff = 0 ∧ s.fAspmCtl = 0 ∧ s.phase = .starting

def pciSystem (a : UInt8) : System PciHost (Option Nat × Outcomes) Bool where
  init := FreshObject
  body c := lifetime c.1 c.2
  env := PciOthers a

/-- Once the walk has ended at `a`, the two ASPM bits are clear until `stop`. -/
def AspmHeld (a : UInt8) (s : PciHost) : Prop :=
  s.fAspmCapOff = a → s.phase = .walked → (s.view a).word &&& 0x0003 = 0

namespace AspmView

structure Unsaved (a : UInt8) (w : UInt16) (v : AspmView) : Prop where
  pci : v.fPci = true
  off : v.fAspmCapOff ≠ a
  phase : v.phase = .starting
  word : v.word = w

/-- The control word has been read at `capOff` and not yet been changed. -/
structure Loaded (a : UInt8) (w : UInt16) (capOff : UInt8) (ctl : UInt16) (v : AspmView) :
    Prop where
  pci : v.fPci = true
  off : v.fAspmCapOff = capOff
  held : v.fAspmCtl = ctl
  phase : v.phase = .starting
  loaded : capOff = a → ctl = w ∧ v.word = w

structure Saved (a : UInt8) (w : UInt16) (phase : PciPhase) (v : AspmView) : Prop where
  phase : v.phase = phase
  saved : v.fAspmCapOff = a → v.fPci = true ∧ v.fAspmCtl = w ∧ v.word = w &&& ~~~0x0003

structure Restored (a : UInt8) (w : UInt16) (v : AspmView) : Prop where
  phase : v.phase = .stopping
  restored : v.fAspmCapOff = a → v.word = w

/-- What `stop` reads of the saved fields before it puts the word back. -/
structure Reread (a : UInt8) (w : UInt16) (off : UInt8) (ctl : UInt16) (v : AspmView) : Prop
    extends v.Saved a w .stopping where
  off : v.fAspmCapOff = off
  ctl : v.fAspmCtl = ctl

end AspmView

theorem and_clear_low (w : UInt16) : (w &&& ~~~0x0003) &&& 0x0003 = 0 := by
  rw [UInt16.and_assoc]
  exact UInt16.and_zero

theorem clear_low_of_zero {w : UInt16} (h : w &&& 0x0003 = 0) : w &&& ~~~0x0003 = w := by
  calc w &&& ~~~0x0003 = (w &&& ~~~0x0003) ||| (w &&& 0x0003) := by rw [h, UInt16.or_zero]
    _ = w &&& (~~~0x0003 ||| 0x0003) := 
        (UInt16.toBitVec_inj.1 BitVec.and_or_distrib_left).symm
    _ = w := UInt16.and_neg_one

theorem view_assertion {P : AspmView → Prop} (hJ : ∀ s, P (s.view a) → AspmHeld a s) :
    Assertion (PciOthers a) (AspmHeld a) fun s => P (s.view a) where
  step := by
    intro s t hP hst
    have hview : t.view a = s.view a := hst
    rw [hview]
    exact hP
  inv := hJ

theorem unsaved_assertion (a : UInt8) (w : UInt16) :
    Assertion (PciOthers a) (AspmHeld a) fun s => (s.view a).Unsaved a w :=
  view_assertion fun _ h hoff => absurd hoff h.off

theorem saved_assertion (a : UInt8) (w : UInt16) (phase : PciPhase) :
    Assertion (PciOthers a) (AspmHeld a) fun s => (s.view a).Saved a w phase := by
  apply view_assertion
  intro s h hoff _
  rw [(h.saved hoff).2.2]
  exact and_clear_low w

theorem loaded_assertion (a : UInt8) (w : UInt16) (capOff : UInt8) (ctl : UInt16) :
    Assertion (PciOthers a) (AspmHeld a) fun s => (s.view a).Loaded a w capOff ctl := by
  apply view_assertion
  intro s h _ hphase
  have hstart : s.phase = .starting := h.phase
  rw [hstart] at hphase
  cases hphase

theorem AspmView.Unsaved.load {s : PciHost} (h : (s.view a).Unsaved a w) (capOff : UInt8) :
    ((s.saveAspm capOff).view a).Loaded a w capOff
      (configRead16 s.cfg (capOff.toNat + 0x10)) where
  pci := h.pci
  off := rfl
  held := rfl
  phase := h.phase
  loaded := by
    intro heq
    rw [heq]
    exact ⟨h.word, h.word⟩

theorem AspmView.Loaded.clear {s : PciHost} (h : (s.view a).Loaded a w capOff ctl) :
    ((s.configWrite16 (capOff.toNat + 0x10) (ctl &&& ~~~0x0003)).view a).Saved a w .starting where
  phase := h.phase
  saved := by
    intro hoff
    have hcap : capOff = a := h.off.symm.trans hoff
    refine ⟨h.pci, h.held.trans (h.loaded hcap).1, ?_⟩
    rw [hcap, (h.loaded hcap).1]
    exact configRead16_write _ _ _

theorem AspmView.Loaded.keep (h : Loaded a w capOff ctl v) (hclear : ctl &&& 0x0003 = 0) :
    v.Saved a w .starting where
  phase := h.phase
  saved := by
    intro hoff
    obtain ⟨hctl, hword⟩ := h.loaded (h.off.symm.trans hoff)
    rw [hctl] at hclear
    exact ⟨h.pci, h.held.trans hctl, hword.trans (clear_low_of_zero hclear).symm⟩

theorem disableAspm_safe (h : (s.view a).Unsaved a w) (capOff : UInt8) :
    Safe (PciOthers a) (AspmHeld a) (fun _ _ => True)
      (fun _ t => (t.view a).Saved a w .starting) (disableAspm capOff) s := by
  simp only [disableAspm, bind_eq_bind, modify_bind, read_bind]
  apply Safe.op (unsaved_assertion a w) h (fun _ _ => trivial)
  intro t ht
  apply Safe.op (loaded_assertion a w capOff _) (ht.load capOff) (fun _ _ => trivial)
  intro t₁ ht₁
  have hctl : t₁.fAspmCtl = configRead16 t.cfg (capOff.toNat + 0x10) := ht₁.held
  rw [hctl]
  by_cases hclear : configRead16 t.cfg (capOff.toNat + 0x10) &&& 0x0003 = 0
  · rw [if_neg (not_not.2 hclear)]
    exact Safe.ret (saved_assertion a w .starting) (ht₁.keep hclear) fun _ hu => hu
  · rw [if_pos hclear]
    apply Safe.op (loaded_assertion a w capOff _) ht₁ (fun _ _ => trivial)
    intro t₂ ht₂
    exact Safe.ret (saved_assertion a w .starting) ht₂.clear fun _ hu => hu

theorem AspmView.Unsaved.saved (h : Unsaved a w v) : v.Saved a w .starting where
  phase := h.phase
  saved := fun hoff => absurd hoff h.off

theorem walkCapabilities_safe (h : (s.view a).Unsaved a w) (hops : Nat) (capOff : UInt8) :
    Safe (PciOthers a) (AspmHeld a) (fun _ _ => True)
      (fun _ t => (t.view a).Saved a w .starting) (walkCapabilities hops capOff) s := by
  induction hops generalizing capOff s with
  | zero => exact Safe.ret (unsaved_assertion a w) h fun _ ht => ht.saved
  | succ hops ih =>
    rw [walkCapabilities]
    by_cases hz : capOff = 0
    · rw [if_pos hz]
      exact Safe.ret (unsaved_assertion a w) h fun _ ht => ht.saved
    · rw [if_neg hz, bind_eq_bind, read_bind]
      apply Safe.op (unsaved_assertion a w) h (fun _ _ => trivial)
      intro t ht
      by_cases hid : configRead8 t.cfg capOff.toNat = 0x10
      · rw [if_pos hid]
        exact disableAspm_safe ht capOff
      · rw [if_neg hid, bind_eq_bind, read_bind]
        exact Safe.op (unsaved_assertion a w) ht (fun _ _ => trivial) fun t₁ ht₁ => ih ht₁ _

theorem aspmOff_safe (h : (s.view a).Unsaved a w) :
    Safe (PciOthers a) (AspmHeld a) (fun _ _ => True)
      (fun _ t => (t.view a).Saved a w .starting) aspmOff s := by
  simp only [aspmOff, bind_eq_bind, read_bind]
  apply Safe.op (unsaved_assertion a w) h (fun _ _ => trivial)
  intro t ht
  by_cases hlist : configRead16 t.cfg 0x06 &&& 0x0010 = 0
  · rw [if_neg (not_not.2 hlist)]
    exact Safe.ret (unsaved_assertion a w) ht fun _ hu => hu.saved
  · rw [if_pos hlist]
    exact Safe.op (unsaved_assertion a w) ht (fun _ _ => trivial)
      fun t₁ ht₁ => walkCapabilities_safe ht₁ 48 _

/-- The command register lies below every link-control word. -/
theorem view_setCommand (s : PciHost) (bit : UInt16) (enable : Bool) (a : UInt8) :
    (s.setCommand bit enable).view a = s.view a := by
  have hother : 0x04 + 2 ≤ a.toNat + 0x10 := by omega
  simp only [PciHost.setCommand, PciHost.configWrite16, PciHost.view,
    configRead16_write_other s.cfg _ (.inr hother)]

theorem fresh_assertion (a : UInt8) (w : UInt16) :
    Assertion (PciOthers a) (AspmHeld a) fun s => s.view a = ⟨false, 0, 0, .starting, w⟩ := by
  apply view_assertion (P := (· = ⟨false, 0, 0, .starting, w⟩))
  intro s h _ hphase
  have hstart : s.phase = .starting := congrArg AspmView.phase h
  rw [hstart] at hphase
  cases hphase

theorem startPci_safe (ha : a ≠ 0) (h : s.view a = ⟨false, 0, 0, .starting, w⟩) :
    Safe (PciOthers a) (AspmHeld a) (fun _ _ => True)
      (fun _ t => (t.view a).Saved a w .walked) startPci s := by
  simp only [startPci, bind_eq_bind, modify_bind]
  apply Safe.op (fresh_assertion a w) h (fun _ _ => trivial)
  intro t ht
  have hunsaved : (PciHost.view a { t with fPci := true }).Unsaved a w := by
    have hoff : t.fAspmCapOff = 0 := congrArg AspmView.fAspmCapOff ht
    have hne : t.fAspmCapOff ≠ a := fun h => ha (h.symm.trans hoff)
    exact ⟨rfl, hne, congrArg AspmView.phase ht, congrArg AspmView.word ht⟩
  apply Safe.op (unsaved_assertion a w) hunsaved (fun _ _ => trivial)
  intro t₁ ht₁
  rw [← view_setCommand t₁ 0x0002 true a] at ht₁
  apply Safe.op (unsaved_assertion a w) ht₁ (fun _ _ => trivial)
  intro t₂ ht₂
  rw [← view_setCommand t₂ 0x0004 true a] at ht₂
  apply Safe.bind
  apply (aspmOff_safe ht₂).mono (fun _ hJ => hJ) (fun _ _ hG => hG)
  intro _ t₃ ht₃
  apply Safe.op (saved_assertion a w .starting) ht₃ (fun _ _ => trivial)
  intro t₄ ht₄
  have hwalked : ((t₄.enter .walked).view a).Saved a w .walked := ⟨rfl, ht₄.saved⟩
  exact Safe.ret (saved_assertion a w .walked) hwalked fun _ hu => hu

theorem restored_assertion (a : UInt8) (w : UInt16) :
    Assertion (PciOthers a) (AspmHeld a) fun s => (s.view a).Restored a w := by
  apply view_assertion
  intro s h _ hphase
  have hstop : s.phase = .stopping := h.phase
  rw [hstop] at hphase
  cases hphase

theorem reread_assertion (a : UInt8) (w : UInt16) (off : UInt8) (c : UInt16) :
    Assertion (PciOthers a) (AspmHeld a) fun s => (s.view a).Reread a w off c := by
  apply view_assertion
  intro s h
  exact (saved_assertion a w .stopping).inv h.toSaved

theorem AspmView.Reread.restore {s : PciHost} (h : (s.view a).Reread a w capOff c) :
    ((s.configWrite16 (capOff.toNat + 0x10) c).view a).Restored a w where
  phase := h.phase
  restored := by
    intro hoff
    have hcap : capOff = a := h.off.symm.trans hoff
    have hc : c = w := h.ctl.symm.trans (h.saved hoff).2.1
    rw [hcap, hc]
    exact configRead16_write _ _ _

theorem AspmView.Reread.untouched (ha : a ≠ 0) (h : Reread a w capOff c v)
    (hskip : ¬ (capOff ≠ 0 ∧ c &&& 0x03 ≠ 0)) : v.Restored a w where
  phase := h.phase
  restored := by
    intro hoff
    obtain ⟨-, hctl, hword⟩ := h.saved hoff
    have hcap : capOff ≠ 0 := by
      rw [← h.off, hoff]
      exact ha
    have hclear : w &&& 0x0003 = 0 := by
      rw [← hctl, h.ctl]
      exact not_not.1 fun hc => hskip ⟨hcap, hc⟩
    exact hword.trans (clear_low_of_zero hclear)

/-- `stop` puts back what the walk saved. -/
theorem stopPci_safe (ha : a ≠ 0) (h : (s.view a).Saved a w phase) :
    Safe (PciOthers a) (AspmHeld a) (fun _ _ => True)
      (fun _ t => (t.view a).Restored a w) stopPci s := by
  have hstopping := saved_assertion a w .stopping
  simp only [stopPci, bind_eq_bind, modify_bind, read_bind]
  apply Safe.op (saved_assertion a w phase) h (fun _ _ => trivial)
  intro t ht
  have hstop : ((t.enter .stopping).view a).Saved a w .stopping := ⟨rfl, ht.saved⟩
  apply Safe.op hstopping hstop (fun _ _ => trivial)
  intro t₁ ht₁
  by_cases hpci : t₁.fPci = true
  · rw [if_pos hpci]
    apply Safe.op hstopping ht₁ (fun _ _ => trivial)
    intro t₂ ht₂
    rw [← view_setCommand t₂ 0x0004 false a] at ht₂
    apply Safe.op hstopping ht₂ (fun _ _ => trivial)
    intro t₃ ht₃
    rw [← view_setCommand t₃ 0x0002 false a] at ht₃
    apply Safe.op hstopping ht₃ (fun _ _ => trivial)
    intro t₄ ht₄
    have hread : (t₄.view a).Reread a w t₄.fAspmCapOff t₄.fAspmCtl := ⟨ht₄, rfl, rfl⟩
    by_cases hput : t₄.fAspmCapOff ≠ 0 ∧ t₄.fAspmCtl &&& 0x03 ≠ 0
    · rw [if_pos hput]
      apply Safe.op (reread_assertion a w _ _) hread (fun _ _ => trivial)
      intro t₅ ht₅
      exact Safe.ret (restored_assertion a w) ht₅.restore fun _ hu => hu
    · rw [if_neg hput]
      exact Safe.ret (restored_assertion a w) (hread.untouched ha hput) fun _ hu => hu
  · rw [if_neg hpci]
    have hother : (t₁.view a).Restored a w :=
      ⟨ht₁.phase, fun hoff => absurd (ht₁.saved hoff).1 hpci⟩
    exact Safe.ret (restored_assertion a w) hother fun _ hu => hu

theorem ending_safe (ha : a ≠ 0) (h : (s.view a).Saved a w phase) (ok : Bool) :
    Safe (PciOthers a) (AspmHeld a) (fun _ _ => True)
      (fun ok t => ok = true → t.fAspmCapOff = a → (t.view a).word = w)
      (if ok then stopPci.bind fun _ => .ret true else .ret false) s := by
  cases ok with
  | false => exact Safe.ret (saved_assertion a w phase) h fun _ _ => nofun
  | true =>
    apply Safe.bind
    apply (stopPci_safe ha h).inv_post.mono (fun _ hJ => hJ) (fun _ _ hG => hG)
    intro _ t ht
    exact Safe.ret (restored_assertion a w) ht.2 fun _ hu _ => hu.restored

theorem lifetime_safe (ha : a ≠ 0) (hs : FreshObject s) (bootArg : Option Nat) (o : Outcomes) :
    Safe (PciOthers a) (AspmHeld a) (fun _ _ => True)
      (fun ok t => ok = true → t.fAspmCapOff = a → (t.view a).word = (s.view a).word)
      (lifetime bootArg o) s := by
  obtain ⟨hpci, hoff, hctl, hphase⟩ := hs
  have hfresh : s.view a = ⟨false, 0, 0, .starting, (s.view a).word⟩ := by
    simp only [PciHost.view, hpci, hoff, hctl, hphase]
  rw [lifetime]
  by_cases hrun : o.superStart ∧ o.provider
  · rw [if_pos hrun]
    apply Safe.bind
    apply (startPci_safe ha hfresh).mono (fun _ hJ => hJ) (fun _ _ hG => hG)
    intro _ t ht
    exact ending_safe ha ht _
  · have hsaved : (s.view a).Saved a (s.view a).word .starting :=
      ⟨hphase, fun h => absurd (h.symm.trans hoff) ha⟩
    rw [if_neg hrun]
    exact ending_safe ha hsaved _

theorem pciSystem_sound (ha : a ≠ 0) (h : Reachable (pciSystem a) (fun _ => FreshObject) b) :
    Sound (pciSystem a) (fun _ => True) (fun _ _ => AspmHeld a) (fun _ _ => True)
      (fun _ s ok t => ok = true → t.fAspmCapOff = a → (t.view a).word = (s.view a).word) b := by
  apply Reachable.sound (fun _ _ => trivial) (fun _ _ _ _ => trivial) ?_ h
  intro c s hs _
  exact (lifetime_safe ha hs c.1 c.2).mono (fun _ hJ => hJ) (fun _ _ hG => hG)
    fun _ _ hQ => ⟨trivial, hQ⟩

/-- The walk misses no PCI Express capability of a list that stays out of the header, and the
link-control word of the one it found is the old one again once `stop` has returned. -/
theorem aspm_walk_and_restore :
    (∀ s : PciHost, s.fAspmCapOff = 0 → HasCapList s.cfg →
      (∀ n, capAt s.cfg n = 0 ∨ 0x40 ≤ (capAt s.cfg n).toNat) →
      ((exec id aspmOff s).2.fAspmCapOff ≠ 0 ↔ ∃ n, IsPciExpress s.cfg (capAt s.cfg n)) ∧
        ∀ i, FirstAt (fun n => IsPciExpress s.cfg (capAt s.cfg n)) i →
          (exec id aspmOff s).2.fAspmCapOff = capAt s.cfg i) ∧
    ∀ (a : UInt8) (c : Option Nat × Outcomes) (s₀ s : PciHost) (p : Prog PciHost Bool),
      Reachable (pciSystem a) (fun _ => FreshObject) (.busy c s₀ p s) →
      s.fAspmCapOff = a → a ≠ 0 →
      (s.phase = .walked → configRead16 s.cfg (a.toNat + 0x10) &&& 0x0003 = 0) ∧
        (p = .ret true →
          configRead16 s.cfg (a.toNat + 0x10) = configRead16 s₀.cfg (a.toNat + 0x10)) := by
  refine ⟨fun s hfresh hlist hptr => aspmOff_finds hfresh hlist hptr, ?_⟩
  intro a c s₀ s p hr hoff ha
  have hsound := pciSystem_sound ha hr
  constructor
  · exact fun hphase => Safe.inv hsound hoff hphase
  · intro hp
    subst hp
    exact hsound.post rfl hoff

/-- Two capabilities that point at each other, the second PCI Express with L0s and L1 enabled. -/
def loopedConfig (off : Nat) : UInt8 :=
  match off with
  | 0x06 => 0x10
  | 0x34 => 0x40
  | 0x40 => 0x05
  | 0x41 => 0x50
  | 0x50 => 0x10
  | 0x51 => 0x40
  | 0x60 => 0x43
  | _ => 0

def loopedHost : PciHost := ⟨loopedConfig, false, 0, 0, .starting⟩

theorem loopedConfig_capAt (n : Nat) :
    capAt loopedConfig n = 0x40 ∨ capAt loopedConfig n = 0x50 := by
  induction n with
  | zero => exact .inl rfl
  | succ n ih =>
    rw [capAt, Function.iterate_succ_apply']
    rcases ih with h | h
    · rw [capAt] at h
      rw [h]
      exact .inr rfl
    · rw [capAt] at h
      rw [h]
      exact .inl rfl

theorem aspm_walk_and_restore_looped :
    (exec id aspmOff loopedHost).2.fAspmCapOff = 0x50 ∧
      configRead16 (exec id (lifetime none goodOutcomes) loopedHost).2.cfg 0x60 = 0x0043 := by
  have hptr (n : Nat) : capAt loopedConfig n = 0 ∨ 0x40 ≤ (capAt loopedConfig n).toNat := by
    rcases loopedConfig_capAt n with h | h
    · rw [h]
      exact .inr (by decide)
    · rw [h]
      exact .inr (by decide)
  have hfirst : FirstAt (fun n => IsPciExpress loopedConfig (capAt loopedConfig n)) 1 := by
    refine ⟨⟨by decide, rfl⟩, ?_⟩
    intro k hk hpcie
    obtain rfl : k = 0 := Nat.lt_one_iff.1 hk
    exact absurd hpcie.2 (by decide)
  have hlist : HasCapList loopedConfig := by
    rw [HasCapList]
    decide
  have hidle : Reachable (pciSystem 0x50) (fun _ => FreshObject) (.idle loopedHost) :=
    .init ⟨rfl, rfl, rfl, rfl⟩
  have hcall : Reachable (pciSystem 0x50) (fun _ => FreshObject)
      (.busy (none, goodOutcomes) loopedHost (lifetime none goodOutcomes) loopedHost) :=
    hidle.step (.call ⟨rfl, rfl, rfl, rfl⟩)
  constructor
  · exact ((aspm_walk_and_restore.1 loopedHost rfl hlist hptr).2 1 hfirst).trans rfl
  · have hok : (exec id (lifetime none goodOutcomes) loopedHost).1 = true := by rfl
    have hoff : (exec id (lifetime none goodOutcomes) loopedHost).2.fAspmCapOff = 0x50 := by rfl
    exact ((aspm_walk_and_restore.2 0x50 _ _ _ _ hcall.alone hoff (by decide)).2
      (congrArg Prog.ret hok)).trans rfl

end Qca9377
