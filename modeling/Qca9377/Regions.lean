import Mathlib.Tactic

namespace Qca9377
namespace Regions
set_option autoImplicit true

/-- A contiguous piece of bus addresses. -/
structure Region where
  base : Nat
  size : Nat
  deriving DecidableEq, Repr

def Region.Contains (r : Region) (a : Nat) : Prop := r.base ≤ a ∧ a < r.base + r.size

instance (r : Region) (a : Nat) : Decidable (r.Contains a) :=
  inferInstanceAs (Decidable (_ ∧ _))

def Region.Disjoint (r r' : Region) : Prop :=
  r.base + r.size ≤ r'.base ∨ r'.base + r'.size ≤ r.base

theorem Region.Disjoint.symm {r r' : Region} (h : r.Disjoint r') : r'.Disjoint r := Or.symm h

theorem Region.Disjoint.not_contains {r r' : Region} (h : r.Disjoint r') (ha : r.Contains a) :
    ¬ r'.Contains a := by
  rintro ⟨hlo, hhi⟩
  obtain ⟨hlo', hhi'⟩ := ha
  rcases h with h | h
  · omega
  · omega

/-- A region for a request: large enough, within 32 bits, not at address 0, which stands for a
parked ring, and apart from all that is in use. -/
structure Fresh (live : List Region) (size : Nat) (r : Region) : Prop where
  fits : size ≤ r.size
  base : 0 < r.base
  bound : r.base + r.size ≤ 2 ^ 32
  apart : ∀ l ∈ live, r.Disjoint l

/-- The kernel's allocators and the hardware, each answering its `n`-th request. A buffer that
does not settle is given back before its rings are programmed. -/
structure Platform where
  place : Nat → List Region → Nat → Option Region
  place_fresh : place n live size = some r → Fresh live size r
  settles : Nat → Bool
  newObject : Nat → Bool
  alive : Nat → Bool

/-- The three users of a DMA region. -/
inductive Kind where
  | ctrl
  | wmi
  | diag
  deriving DecidableEq, Repr

def kRingN : Nat := 16
def ringAligned : Nat := 4096

def Kind.srcCe : Kind → Nat
  | .ctrl => 0
  | .wmi => 3
  | .diag => 7

def Kind.dstCe : Kind → Nat
  | .ctrl => 1
  | .wmi => 2
  | .diag => 7

/-- Two rings and two buffers of a page each, or one bounce buffer. -/
def Kind.regionSize : Kind → Nat
  | .ctrl => 2 * ringAligned + 4096 + 4096
  | .wmi => 2 * ringAligned + 4096 + 4096
  | .diag => 2 * ringAligned + 4096

theorem Kind.two_rings (k : Kind) : 2 * ringAligned < k.regionSize := by
  cases k <;> decide

/-- The ring registers of the copy engines, by engine. -/
structure Regs where
  srBase : Nat → Nat
  srSize : Nat → Nat
  srWrIndex : Nat → Nat
  drBase : Nat → Nat
  drSize : Nat → Nat
  dstWrIndex : Nat → Nat

def clearedRegs : Regs := ⟨fun _ => 0, fun _ => 0, fun _ => 0, fun _ => 0, fun _ => 0, fun _ => 0⟩

/-- The four writes that end `init`. -/
def Regs.program (k : Kind) (r : Region) (g : Regs) : Regs :=
  { g with
    srBase := Function.update g.srBase k.srcCe (r.base % 2 ^ 32)
    srSize := Function.update g.srSize k.srcCe kRingN
    drBase := Function.update g.drBase k.dstCe ((r.base + ringAligned) % 2 ^ 32)
    drSize := Function.update g.drSize k.dstCe kRingN }

/-- The six writes that begin `teardown`. -/
def Regs.park (k : Kind) (g : Regs) : Regs where
  srBase := Function.update g.srBase k.srcCe 0
  srSize := Function.update g.srSize k.srcCe 0
  srWrIndex := Function.update g.srWrIndex k.srcCe 0
  drBase := Function.update g.drBase k.dstCe 0
  drSize := Function.update g.drSize k.dstCe 0
  dstWrIndex := Function.update g.dstWrIndex k.dstCe 0

/-- A manager object; a pair or diag object that it points to holds a region. -/
structure CEManager where
  fBar0 : Bool
  fCtrl : Option Region
  fWmi : Option Region
  fDiag : Option Region
  deriving DecidableEq, Repr

def CEManager.field (k : Kind) (m : CEManager) : Option Region :=
  match k with
  | .ctrl => m.fCtrl
  | .wmi => m.fWmi
  | .diag => m.fDiag

def CEManager.setField (k : Kind) (r : Option Region) (m : CEManager) : CEManager :=
  match k with
  | .ctrl => { m with fCtrl := r }
  | .wmi => { m with fWmi := r }
  | .diag => { m with fDiag := r }

theorem CEManager.setField_own (k : Kind) (r : Option Region) (m : CEManager) :
    (m.setField k r).field k = r := by
  cases k <;> rfl

theorem CEManager.setField_other {m : CEManager} (h : k' ≠ k) :
    (m.setField k r).field k' = m.field k' := by
  cases k <;> cases k' <;> first | rfl | exact absurd rfl h

/-- A call of `freeRegion`: the region, the registers at that moment, and the users whose rings
were programmed with the region. -/
structure Release where
  region : Region
  regs : Regs
  programmed : List Kind

/-- The registers, the regions in use with the rings programmed with each, the releases so far,
the manager objects, and the driver's pointer to one of them. -/
structure State where
  clock : Nat
  regs : Regs
  live : List Region
  wired : List (Region × Kind)
  releases : List Release
  managers : Nat → Option CEManager
  created : Nat
  fCe : Option Nat

/-- The state that the cold reset of `start` leaves: no ring is programmed. -/
def freshState : State := ⟨0, clearedRegs, [], [], [], fun _ => none, 0, none⟩

namespace State

def tick (s : State) : State := { s with clock := s.clock + 1 }

def setRegs (g : Regs) (s : State) : State := { s with regs := g }

def setManager (i : Nat) (m : Option CEManager) (s : State) : State :=
  { s with managers := Function.update s.managers i m }

def hold (r : Region) (s : State) : State := { s with live := r :: s.live }

/-- `freeRegion`, of `CECopyPair` and of `CEDiag`. -/
def freeRegion (r : Region) (s : State) : State :=
  { s with
    live := s.live.filter (· ≠ r)
    wired := s.wired.filter (·.1 ≠ r)
    releases := s.releases ++ [⟨r, s.regs, (s.wired.filter (·.1 = r)).map Prod.snd⟩] }

def program (k : Kind) (r : Region) (s : State) : State :=
  { s with regs := s.regs.program k r, wired := (r, k) :: s.wired }

/-- `allocRegion`; its failure exits free what has been taken. -/
def allocRegion (P : Platform) (k : Kind) (s : State) : Option Region × State :=
  match P.place s.clock s.live k.regionSize with
  | none => (none, s.tick)
  | some r =>
    if P.settles s.clock then (some r, s.tick.hold r) else (none, (s.tick.hold r).freeRegion r)

/-- `init` of a pair or diag object: whether it succeeds, and the region the object holds. -/
def ringInit (P : Platform) (k : Kind) (fBar0 : Bool) (s : State) :
    Bool × Option Region × State :=
  if !fBar0 then (false, none, s)
  else
    match s.allocRegion P k with
    | (none, s) => (false, none, s)
    | (some r, s) =>
      if !P.alive s.clock then (false, some r, s.tick) else (true, some r, s.tick.program k r)

/-- `teardown` of a pair or diag object. -/
def teardown (k : Kind) (fBar0 : Bool) (region : Option Region) (s : State) : State :=
  let s := if fBar0 then s.setRegs (s.regs.park k) else s
  match region with
  | none => s
  | some r => s.freeRegion r

/-- `new CECopyPair` with its `init`; a failed pair is deleted, which does not tear it down. -/
def newPair (P : Platform) (k : Kind) (fBar0 : Bool) (s : State) : Option Region × State :=
  if !P.newObject s.clock then (none, s.tick)
  else
    match s.tick.ringInit P k fBar0 with
    | (true, region, s) => (region, s)
    | (false, _, s) => (none, s)

/-- `new CEDiag` with its `init`; a failed one is torn down by its destructor. -/
def newDiag (P : Platform) (fBar0 : Bool) (s : State) : Option Region × State :=
  if !P.newObject s.clock then (none, s.tick)
  else
    match s.tick.ringInit P .diag fBar0 with
    | (true, region, s) => (region, s)
    | (false, region, s) => (none, s.teardown .diag fBar0 region)

/-- `CEManager::create`, with the number of the new manager. -/
def create (P : Platform) (fBar0 : Bool) (s : State) : Option Nat × State :=
  if !P.newObject s.clock then (none, s.tick)
  else
    (some s.created,
      { s.tick.setManager s.created (some ⟨fBar0, none, none, none⟩) with
        created := s.created + 1 })

/-- `CEManager::init`; the pointer to an earlier pair is overwritten. -/
def init (P : Platform) (i : Nat) (s : State) : Bool × State :=
  match s.managers i with
  | none => (false, s)
  | some m =>
    let (ctrl, s) := s.newPair P .ctrl m.fBar0
    (ctrl.isSome, s.setManager i (some (m.setField .ctrl ctrl)))

def initWmi (P : Platform) (i : Nat) (s : State) : Bool × State :=
  match s.managers i with
  | none => (false, s)
  | some m =>
    if m.fWmi.isSome then (true, s)
    else
      let (wmi, s) := s.newPair P .wmi m.fBar0
      (wmi.isSome, s.setManager i (some (m.setField .wmi wmi)))

def initDiag (P : Platform) (i : Nat) (s : State) : Bool × State :=
  match s.managers i with
  | none => (false, s)
  | some m =>
    if m.fDiag.isSome then (true, s)
    else
      let (diag, s) := s.newDiag P m.fBar0
      (diag.isSome, s.setManager i (some (m.setField .diag diag)))

/-- One object of a manager torn down, deleted and its pointer cleared. -/
def dropField (i : Nat) (k : Kind) (s : State) : State :=
  match s.managers i with
  | none => s
  | some m =>
    match m.field k with
    | none => s
    | some r => (s.teardown k m.fBar0 (some r)).setManager i (some (m.setField k none))

def destroy (i : Nat) (s : State) : State :=
  (((s.dropField i .diag).dropField i .ctrl).dropField i .wmi).setManager i none

def setFCe (i : Option Nat) (s : State) : State := { s with fCe := i }

/-- The last part of the driver's `ensureCE`: a manager made from scratch. -/
def createCE (P : Platform) (fBar0 : Bool) (s : State) : Bool × State :=
  match s.create P fBar0 with
  | (none, s) => (false, s.setFCe none)
  | (some i, s) =>
    let (ok, s) := (s.setFCe (some i)).init P i
    if ok then (true, s) else (false, (s.destroy i).setFCe none)

def ensureCE (P : Platform) (fBar0 : Bool) (s : State) : Bool × State :=
  match s.fCe with
  | none => s.createCE P fBar0
  | some i =>
    let (ok, s) := s.init P i
    if ok then (true, s) else ((s.destroy i).setFCe none).createCE P fBar0

/-- The doorbells of `send`, `postRecv` and a diag transfer, with whatever index they write. -/
def ringSrc (k : Kind) (w : Nat) (s : State) : State :=
  s.setRegs { s.regs with srWrIndex := Function.update s.regs.srWrIndex k.srcCe w }

def ringDst (k : Kind) (w : Nat) (s : State) : State :=
  s.setRegs { s.regs with dstWrIndex := Function.update s.regs.dstWrIndex k.dstCe w }

end State

/-- The calls of a run; the transfers are those of any pair or diag window, whether they complete
or time out. -/
inductive Call where
  | create (fBar0 : Bool)
  | init (i : Nat)
  | initWmi (i : Nat)
  | initDiag (i : Nat)
  | destroy (i : Nat)
  | ensureCE (fBar0 : Bool)
  | send (k : Kind) (w : Nat)
  | postRecv (k : Kind) (w : Nat)
  | diagXfer (d w : Nat)
  | chipReset
  deriving DecidableEq, Repr

def Call.run (P : Platform) (s : State) : Call → State
  | .create fBar0 => (s.create P fBar0).2
  | .init i => (s.init P i).2
  | .initWmi i => (s.initWmi P i).2
  | .initDiag i => (s.initDiag P i).2
  | .destroy i => s.destroy i
  | .ensureCE fBar0 => (s.ensureCE P fBar0).2
  | .send k w => s.ringSrc k w
  | .postRecv k w => s.ringDst k w
  | .diagXfer d w => (s.ringDst .diag d).ringSrc .diag w
  | .chipReset => s.setRegs clearedRegs

def runCalls (P : Platform) (calls : List Call) : State := calls.foldl (Call.run P) freshState

/-- No engine is pointed at the region, and the rings that were are of size 0. -/
structure Release.Parked (x : Release) : Prop where
  srBase : ∀ ce, ¬ x.region.Contains (x.regs.srBase ce)
  drBase : ∀ ce, ¬ x.region.Contains (x.regs.drBase ce)
  srSize : ∀ k ∈ x.programmed, x.regs.srSize k.srcCe = 0
  drSize : ∀ k ∈ x.programmed, x.regs.drSize k.dstCe = 0

/-- A region that can hold two rings and a buffer. -/
structure Region.Usable (r : Region) : Prop where
  base : 0 < r.base
  rings : 2 * ringAligned < r.size
  bound : r.base + r.size ≤ 2 ^ 32

theorem Region.Usable.contains_rings {r : Region} (h : r.Usable) :
    r.Contains (r.base % 2 ^ 32) ∧ r.Contains ((r.base + ringAligned) % 2 ^ 32) := by
  obtain ⟨hbase, hrings, hbound⟩ := h
  rw [ringAligned] at hrings ⊢
  unfold Region.Contains
  omega

theorem Region.Usable.not_zero {r : Region} (h : r.Usable) : ¬ r.Contains 0 := by
  intro hz
  have hbase := h.base
  have hlow := hz.1
  omega

/-- The invariant: regions in use lie apart, an engine that is not parked is pointed at a region
that was programmed for it, and a manager's regions are its own. -/
structure Inv (s : State) : Prop where
  apart : ∀ r ∈ s.live, ∀ r' ∈ s.live, r ≠ r' → r.Disjoint r'
  usable : ∀ r ∈ s.live, r.Usable
  wired : ∀ x ∈ s.wired, x.1 ∈ s.live
  srBase : ∀ ce, s.regs.srBase ce = 0 ∨
    ∃ x ∈ s.wired, x.2.srcCe = ce ∧ x.1.Contains (s.regs.srBase ce)
  drBase : ∀ ce, s.regs.drBase ce = 0 ∨
    ∃ x ∈ s.wired, x.2.dstCe = ce ∧ x.1.Contains (s.regs.drBase ce)
  held : ∀ i m k r, s.managers i = some m → m.field k = some r →
    m.fBar0 = true ∧ r ∈ s.live ∧ ∀ x ∈ s.wired, x.1 = r → x.2 = k
  single : ∀ i m k j m' k' r, s.managers i = some m → m.field k = some r →
    s.managers j = some m' → m'.field k' = some r → i = j ∧ k = k'
  parked : ∀ x ∈ s.releases, x.Parked

/-- A region in use that no manager holds, programmed for one user at most. -/
structure Loose (s : State) (k : Kind) (r : Region) : Prop where
  live : r ∈ s.live
  wired : ∀ x ∈ s.wired, x.1 = r → x.2 = k
  unheld : ∀ i m k', s.managers i = some m → m.field k' ≠ some r

theorem Inv.congr {s t : State} (h : Inv s) (hregs : t.regs = s.regs) (hlive : t.live = s.live)
    (hwired : t.wired = s.wired) (hrel : t.releases = s.releases)
    (hman : t.managers = s.managers) : Inv t := by
  constructor
  · rw [hlive]
    exact h.apart
  · rw [hlive]
    exact h.usable
  · rw [hwired, hlive]
    exact h.wired
  · rw [hregs, hwired]
    exact h.srBase
  · rw [hregs, hwired]
    exact h.drBase
  · rw [hman, hlive, hwired]
    exact h.held
  · rw [hman]
    exact h.single
  · rw [hrel]
    exact h.parked

theorem Inv.tick {s : State} (h : Inv s) : Inv s.tick := h.congr rfl rfl rfl rfl rfl

theorem Inv.hold {s : State} {k : Kind} (h : Inv s) (hr : Fresh s.live k.regionSize r) :
    Inv (s.hold r) ∧ r ∉ s.live := by
  have husable : r.Usable := ⟨hr.base, k.two_rings.trans_le hr.fits, hr.bound⟩
  have hnew : r ∉ s.live := by
    intro hmem
    have hself := hr.apart r hmem
    have hsize := husable.rings
    rcases hself with hd | hd
    · omega
    · omega
  refine ⟨?_, hnew⟩
  constructor
  · intro a ha b hb hne
    rcases List.mem_cons.1 ha with har | ha
    · rcases List.mem_cons.1 hb with hbr | hb
      · exact absurd (har.trans hbr.symm) hne
      · rw [har]
        exact hr.apart b hb
    · rcases List.mem_cons.1 hb with hbr | hb
      · rw [hbr]
        exact (hr.apart a ha).symm
      · exact h.apart a ha b hb hne
  · intro a ha
    rcases List.mem_cons.1 ha with rfl | ha
    · exact husable
    · exact h.usable a ha
  · exact fun x hx => List.mem_cons_of_mem r (h.wired x hx)
  · exact h.srBase
  · exact h.drBase
  · intro i m k r' hm hf
    obtain ⟨hbar, hlive, hwired⟩ := h.held i m k r' hm hf
    exact ⟨hbar, List.mem_cons_of_mem r hlive, hwired⟩
  · exact h.single
  · exact h.parked

theorem Inv.hold_loose {s : State} (h : Inv s) (hnew : r ∉ s.live) (k : Kind) :
    Loose (s.hold r) k r := by
  refine ⟨List.mem_cons_self, ?_, ?_⟩
  · rintro x hx rfl
    exact absurd (h.wired x hx) hnew
  · intro i m k' hm hf
    exact hnew (h.held i m k' r hm hf).2.1

theorem Inv.program {s : State} (h : Inv s) (hr : Loose s k r) :
    Inv (s.program k r) ∧ Loose (s.program k r) k r := by
  obtain ⟨hsrc, hdst⟩ := (h.usable r hr.live).contains_rings
  have hwired : ∀ x ∈ (s.program k r).wired, x.1 = r → x.2 = k := by
    intro x hx hxr
    rcases List.mem_cons.1 hx with rfl | hx
    · rfl
    · exact hr.wired x hx hxr
  refine ⟨?_, hr.live, hwired, hr.unheld⟩
  constructor
  · exact h.apart
  · exact h.usable
  · intro x hx
    rcases List.mem_cons.1 hx with rfl | hx
    · exact hr.live
    · exact h.wired x hx
  · intro ce
    by_cases hce : ce = k.srcCe
    · subst hce
      right
      refine ⟨(r, k), List.mem_cons_self, rfl, ?_⟩
      simpa only [State.program, Regs.program, Function.update_self] using hsrc
    · simp only [State.program, Regs.program, Function.update_of_ne hce]
      rcases h.srBase ce with hz | ⟨x, hx, hxce, hin⟩
      · exact .inl hz
      · exact .inr ⟨x, List.mem_cons_of_mem _ hx, hxce, hin⟩
  · intro ce
    by_cases hce : ce = k.dstCe
    · subst hce
      right
      refine ⟨(r, k), List.mem_cons_self, rfl, ?_⟩
      simpa only [State.program, Regs.program, Function.update_self] using hdst
    · simp only [State.program, Regs.program, Function.update_of_ne hce]
      rcases h.drBase ce with hz | ⟨x, hx, hxce, hin⟩
      · exact .inl hz
      · exact .inr ⟨x, List.mem_cons_of_mem _ hx, hxce, hin⟩
  · intro i m k' r' hm hf
    obtain ⟨hbar, hlive, hown⟩ := h.held i m k' r' hm hf
    refine ⟨hbar, hlive, ?_⟩
    intro x hx hxr
    rcases List.mem_cons.1 hx with rfl | hx
    · subst hxr
      exact absurd hf (hr.unheld i m k' hm)
    · exact hown x hx hxr
  · exact h.single
  · exact h.parked

/-- A region is released when no engine points at it and nobody holds it. -/
theorem Inv.free {s : State} (h : Inv s) (hr : Loose s k r)
    (hpark : Release.Parked ⟨r, s.regs, (s.wired.filter (·.1 = r)).map Prod.snd⟩) :
    Inv (s.freeRegion r) := by
  have hlive {r' : Region} : r' ∈ (s.freeRegion r).live ↔ r' ∈ s.live ∧ r' ≠ r := by
    simp only [State.freeRegion, List.mem_filter, decide_eq_true_eq]
  have hwired {x : Region × Kind} : x ∈ (s.freeRegion r).wired ↔ x ∈ s.wired ∧ x.1 ≠ r := by
    simp only [State.freeRegion, List.mem_filter, decide_eq_true_eq]
  constructor
  · exact fun a ha b hb => h.apart a (hlive.1 ha).1 b (hlive.1 hb).1
  · exact fun a ha => h.usable a (hlive.1 ha).1
  · intro x hx
    obtain ⟨hx, hne⟩ := hwired.1 hx
    exact hlive.2 ⟨h.wired x hx, hne⟩
  · intro ce
    rcases h.srBase ce with hz | ⟨x, hx, hxce, hin⟩
    · exact .inl hz
    · refine .inr ⟨x, hwired.2 ⟨hx, ?_⟩, hxce, hin⟩
      rintro rfl
      exact hpark.srBase ce hin
  · intro ce
    rcases h.drBase ce with hz | ⟨x, hx, hxce, hin⟩
    · exact .inl hz
    · refine .inr ⟨x, hwired.2 ⟨hx, ?_⟩, hxce, hin⟩
      rintro rfl
      exact hpark.drBase ce hin
  · intro i m k' r' hm hf
    obtain ⟨hbar, hl, hown⟩ := h.held i m k' r' hm hf
    refine ⟨hbar, hlive.2 ⟨hl, ?_⟩, fun x hx => hown x (hwired.1 hx).1⟩
    rintro rfl
    exact hr.unheld i m k' hm hf
  · exact h.single
  · intro x hx
    rcases List.mem_append.1 hx with hx | hx
    · exact h.parked x hx
    · rw [List.mem_singleton.1 hx]
      exact hpark

theorem Inv.new_parked {s : State} (h : Inv s) (hr : r.Usable) (hapart : ∀ l ∈ s.live, r.Disjoint l)
    (hnew : r ∉ s.live) :
    Release.Parked ⟨r, s.regs, (s.wired.filter (·.1 = r)).map Prod.snd⟩ := by
  have hnone (x : Region × Kind) (hx : x ∈ s.wired) : x.1 ≠ r := by
    rintro rfl
    exact hnew (h.wired x hx)
  have hout (a : Nat) (ha : a = 0 ∨ ∃ x ∈ s.wired, x.1.Contains a) : ¬ r.Contains a := by
    rcases ha with rfl | ⟨x, hx, hin⟩
    · exact hr.not_zero
    · exact (hapart x.1 (h.wired x hx)).symm.not_contains hin
  have hempty : s.wired.filter (·.1 = r) = [] := by
    apply List.filter_eq_nil_iff.2
    intro x hx hxr
    exact hnone x hx (of_decide_eq_true hxr)
  constructor
  · exact fun ce => hout _ ((h.srBase ce).imp_right fun ⟨x, hx, _, hin⟩ => ⟨x, hx, hin⟩)
  · exact fun ce => hout _ ((h.drBase ce).imp_right fun ⟨x, hx, _, hin⟩ => ⟨x, hx, hin⟩)
  · rw [hempty]
    exact nofun
  · rw [hempty]
    exact nofun

theorem Inv.setRegs {s : State} (h : Inv s)
    (hsrc : ∀ ce, g.srBase ce = 0 ∨ g.srBase ce = s.regs.srBase ce)
    (hdst : ∀ ce, g.drBase ce = 0 ∨ g.drBase ce = s.regs.drBase ce) : Inv (s.setRegs g) := by
  constructor
  · exact h.apart
  · exact h.usable
  · exact h.wired
  · intro ce
    rcases hsrc ce with hz | hsame
    · exact .inl hz
    · have hold := h.srBase ce
      rw [← hsame] at hold
      exact hold
  · intro ce
    rcases hdst ce with hz | hsame
    · exact .inl hz
    · have hold := h.drBase ce
      rw [← hsame] at hold
      exact hold
  · exact h.held
  · exact h.single
  · exact h.parked

theorem update_zero (f : Nat → Nat) (c ce : Nat) :
    Function.update f c 0 ce = 0 ∨ Function.update f c 0 ce = f ce := by
  by_cases h : ce = c
  · exact .inl (by rw [h, Function.update_self])
  · exact .inr (Function.update_of_ne h _ _)

theorem Inv.park {s : State} (h : Inv s) (k : Kind) : Inv (s.setRegs (s.regs.park k)) :=
  h.setRegs (fun ce => update_zero _ _ ce) fun ce => update_zero _ _ ce

/-- Parking the rings of its user takes every engine off a region. -/
theorem Inv.park_parked {s : State} (h : Inv s) (hr : Loose s k r) :
    Release.Parked ⟨r, s.regs.park k, (s.wired.filter (·.1 = r)).map Prod.snd⟩ := by
  have husable := h.usable r hr.live
  have hprog (k' : Kind) (hk : k' ∈ (s.wired.filter (·.1 = r)).map Prod.snd) : k' = k := by
    obtain ⟨x, hx, rfl⟩ := List.mem_map.1 hk
    obtain ⟨hx, hxr⟩ := List.mem_filter.1 hx
    exact hr.wired x hx (of_decide_eq_true hxr)
  constructor
  · intro ce hin
    by_cases hce : ce = k.srcCe
    · subst hce
      simp only [Regs.park, Function.update_self] at hin
      exact husable.not_zero hin
    · simp only [Regs.park, Function.update_of_ne hce] at hin
      rcases h.srBase ce with hz | ⟨x, hx, hxce, hxin⟩
      · rw [hz] at hin
        exact husable.not_zero hin
      · by_cases hxr : x.1 = r
        · rw [hr.wired x hx hxr] at hxce
          exact hce hxce.symm
        · exact (h.apart _ (h.wired x hx) r hr.live hxr).not_contains hxin hin
  · intro ce hin
    by_cases hce : ce = k.dstCe
    · subst hce
      simp only [Regs.park, Function.update_self] at hin
      exact husable.not_zero hin
    · simp only [Regs.park, Function.update_of_ne hce] at hin
      rcases h.drBase ce with hz | ⟨x, hx, hxce, hxin⟩
      · rw [hz] at hin
        exact husable.not_zero hin
      · by_cases hxr : x.1 = r
        · rw [hr.wired x hx hxr] at hxce
          exact hce hxce.symm
        · exact (h.apart _ (h.wired x hx) r hr.live hxr).not_contains hxin hin
  · intro k' hk
    rw [hprog k' hk]
    exact Function.update_self _ _ _
  · intro k' hk
    rw [hprog k' hk]
    exact Function.update_self _ _ _

theorem Inv.teardown {s : State} (h : Inv s) (hr : Loose s k r) :
    Inv (s.teardown k true (some r)) := by
  have hloose : Loose (s.setRegs (s.regs.park k)) k r := ⟨hr.live, hr.wired, hr.unheld⟩
  exact (h.park k).free hloose (h.park_parked hr)

/-- What `allocRegion` and `init` leave: a region for the object, or none. -/
structure AllocPost (s : State) (k : Kind) (region : Option Region) (s' : State) : Prop where
  inv : Inv s'
  managers : s'.managers = s.managers
  loose : ∀ r, region = some r → Loose s' k r

theorem Inv.allocRegion {s : State} (h : Inv s) (P : Platform) (k : Kind) :
    AllocPost s k (s.allocRegion P k).1 (s.allocRegion P k).2 := by
  unfold State.allocRegion
  split
  · exact ⟨h.tick, rfl, nofun⟩
  · next r hplace =>
    have hfresh : Fresh s.tick.live k.regionSize r := P.place_fresh hplace
    obtain ⟨hhold, hnew⟩ := h.tick.hold hfresh
    have hloose := h.tick.hold_loose hnew k
    split
    · refine ⟨hhold, rfl, ?_⟩
      intro r' hr'
      obtain rfl := Option.some.inj hr'
      exact hloose
    · have husable := hhold.usable r hloose.live
      exact ⟨hhold.free hloose (h.tick.new_parked husable hfresh.apart hnew), rfl, nofun⟩

theorem Loose.congr {s t : State} (h : Loose s k r) (hlive : t.live = s.live)
    (hwired : t.wired = s.wired) (hman : t.managers = s.managers) : Loose t k r := by
  refine ⟨hlive ▸ h.live, ?_, ?_⟩
  · rw [hwired]
    exact h.wired
  · rw [hman]
    exact h.unheld

theorem Inv.ringInit {s : State} (h : Inv s) (P : Platform) (k : Kind) (fBar0 : Bool) :
    AllocPost s k (s.ringInit P k fBar0).2.1 (s.ringInit P k fBar0).2.2 ∧
      ∀ r, (s.ringInit P k fBar0).2.1 = some r → fBar0 = true := by
  have halloc := h.allocRegion P k
  unfold State.ringInit
  cases fBar0 with
  | false => exact ⟨⟨h, rfl, nofun⟩, nofun⟩
  | true =>
    rw [if_neg nofun]
    refine ⟨?_, fun _ _ => rfl⟩
    generalize s.allocRegion P k = a at halloc
    obtain ⟨region, t⟩ := a
    obtain ⟨hinv, hman, hloose⟩ := halloc
    cases region with
    | none => exact ⟨hinv, hman, nofun⟩
    | some r =>
      have hr := hloose r rfl
      dsimp only
      split
      · refine ⟨hinv.tick, hman, ?_⟩
        intro r' hr'
        obtain rfl := Option.some.inj hr'
        exact hr.congr rfl rfl rfl
      · obtain ⟨hprog, hploose⟩ := hinv.tick.program (hr.congr rfl rfl rfl)
        refine ⟨hprog, hman, ?_⟩
        intro r' hr'
        obtain rfl := Option.some.inj hr'
        exact hploose

theorem Inv.newPair {s : State} (h : Inv s) (P : Platform) (k : Kind) (fBar0 : Bool) :
    AllocPost s k (s.newPair P k fBar0).1 (s.newPair P k fBar0).2 ∧
      ∀ r, (s.newPair P k fBar0).1 = some r → fBar0 = true := by
  have hring := h.tick.ringInit P k fBar0
  unfold State.newPair
  split
  · exact ⟨⟨h.tick, rfl, nofun⟩, nofun⟩
  · generalize s.tick.ringInit P k fBar0 = x at hring
    obtain ⟨ok, region, t⟩ := x
    cases ok with
    | true => exact ⟨⟨hring.1.inv, hring.1.managers, hring.1.loose⟩, hring.2⟩
    | false => exact ⟨⟨hring.1.inv, hring.1.managers, nofun⟩, nofun⟩

theorem Inv.newDiag {s : State} (h : Inv s) (P : Platform) (fBar0 : Bool) :
    AllocPost s .diag (s.newDiag P fBar0).1 (s.newDiag P fBar0).2 ∧
      ∀ r, (s.newDiag P fBar0).1 = some r → fBar0 = true := by
  have hring := h.tick.ringInit P .diag fBar0
  unfold State.newDiag
  split
  · exact ⟨⟨h.tick, rfl, nofun⟩, nofun⟩
  · generalize s.tick.ringInit P .diag fBar0 = x at hring
    obtain ⟨ok, region, t⟩ := x
    obtain ⟨hinv, hman, hloose⟩ := hring.1
    cases ok with
    | true => exact ⟨⟨hinv, hman, hloose⟩, hring.2⟩
    | false =>
      refine ⟨⟨?_, ?_, nofun⟩, nofun⟩
      · cases region with
        | none =>
          cases fBar0 with
          | false => exact hinv
          | true => exact hinv.park .diag
        | some r =>
          obtain rfl : fBar0 = true := hring.2 r rfl
          exact hinv.teardown (hloose r rfl)
      · cases region with
        | none => cases fBar0 <;> exact hman
        | some r => cases fBar0 <;> exact hman

theorem State.setManager_own (s : State) (i : Nat) (m : Option CEManager) :
    (s.setManager i m).managers i = m := Function.update_self _ _ _

theorem State.setManager_other {s : State} (h : j ≠ i) :
    (s.setManager i m).managers j = s.managers j := Function.update_of_ne h _ _

theorem Inv.shrink {s : State} (h : Inv s)
    (hm' : ∀ m k r, m' = some m → m.field k = some r →
      ∃ m₀, s.managers i = some m₀ ∧ m₀.field k = some r ∧ m.fBar0 = m₀.fBar0) :
    Inv (s.setManager i m') := by
  have hold {j : Nat} {m : CEManager} {k : Kind} {r : Region}
      (hm : (s.setManager i m').managers j = some m) (hf : m.field k = some r) :
      ∃ m₀, s.managers j = some m₀ ∧ m₀.field k = some r ∧ m.fBar0 = m₀.fBar0 := by
    by_cases hj : j = i
    · subst hj
      rw [State.setManager_own] at hm
      exact hm' m k r hm hf
    · rw [State.setManager_other hj] at hm
      exact ⟨m, hm, hf, rfl⟩
  constructor
  · exact h.apart
  · exact h.usable
  · exact h.wired
  · exact h.srBase
  · exact h.drBase
  · intro j m k r hm hf
    obtain ⟨m₀, hm₀, hf₀, hbar⟩ := hold hm hf
    rw [hbar]
    exact h.held j m₀ k r hm₀ hf₀
  · intro j m k j' m₂ k' r hm hf hm₂ hf₂
    obtain ⟨m₀, hm₀, hf₀, -⟩ := hold hm hf
    obtain ⟨m₀', hm₀', hf₀', -⟩ := hold hm₂ hf₂
    exact h.single j m₀ k j' m₀' k' r hm₀ hf₀ hm₀' hf₀'
  · exact h.parked

theorem Inv.adopt {s : State} (h : Inv s) (hm : s.managers i = some m) (hr : Loose s k r)
    (hbar : m.fBar0 = true) : Inv (s.setManager i (some (m.setField k (some r)))) := by
  have hold {j : Nat} {n : CEManager} {k' : Kind} {r' : Region}
      (hn : (s.setManager i (some (m.setField k (some r)))).managers j = some n)
      (hf : n.field k' = some r') : (j = i ∧ k' = k ∧ r' = r ∧ n.fBar0 = true) ∨
        ∃ n₀, s.managers j = some n₀ ∧ n₀.field k' = some r' ∧ n.fBar0 = n₀.fBar0 := by
    by_cases hj : j = i
    · subst hj
      rw [State.setManager_own] at hn
      obtain rfl := Option.some.inj hn
      have hbar' : (m.setField k (some r)).fBar0 = m.fBar0 := by cases k <;> rfl
      by_cases hk : k' = k
      · subst hk
        rw [CEManager.setField_own] at hf
        exact .inl ⟨rfl, rfl, (Option.some.inj hf).symm, hbar'.trans hbar⟩
      · rw [CEManager.setField_other hk] at hf
        exact .inr ⟨m, hm, hf, hbar'⟩
    · rw [State.setManager_other hj] at hn
      exact .inr ⟨n, hn, hf, rfl⟩
  constructor
  · exact h.apart
  · exact h.usable
  · exact h.wired
  · exact h.srBase
  · exact h.drBase
  · intro j n k' r' hn hf
    rcases hold hn hf with ⟨-, rfl, rfl, hb⟩ | ⟨n₀, hn₀, hf₀, hb⟩
    · exact ⟨hb, hr.live, hr.wired⟩
    · rw [hb]
      exact h.held j n₀ k' r' hn₀ hf₀
  · intro j n k' j' n' k'' r' hn hf hn' hf'
    rcases hold hn hf with ⟨rfl, rfl, rfl, -⟩ | ⟨n₀, hn₀, hf₀, -⟩
    · rcases hold hn' hf' with ⟨rfl, rfl, -, -⟩ | ⟨n₁, hn₁, hf₁, -⟩
      · exact ⟨rfl, rfl⟩
      · exact absurd hf₁ (hr.unheld j' n₁ k'' hn₁)
    · rcases hold hn' hf' with ⟨rfl, rfl, rfl, -⟩ | ⟨n₁, hn₁, hf₁, -⟩
      · exact absurd hf₀ (hr.unheld j n₀ k' hn₀)
      · exact h.single j n₀ k' j' n₁ k'' r' hn₀ hf₀ hn₁ hf₁
  · exact h.parked

theorem Inv.store {s t : State} (hm : s.managers i = some m) (h : AllocPost s k region t)
    (hbar : ∀ r, region = some r → m.fBar0 = true) :
    Inv (t.setManager i (some (m.setField k region))) := by
  have hm' : t.managers i = some m := by rw [h.managers, hm]
  cases region with
  | some r => exact h.inv.adopt hm' (h.loose r rfl) (hbar r rfl)
  | none =>
    apply h.inv.shrink
    intro n k' r hn hf
    obtain rfl := Option.some.inj hn
    by_cases hk : k' = k
    · subst hk
      rw [CEManager.setField_own] at hf
      cases hf
    · rw [CEManager.setField_other hk] at hf
      exact ⟨m, hm', hf, by cases k <;> rfl⟩

theorem Inv.init {s : State} (h : Inv s) (P : Platform) (i : Nat) : Inv (s.init P i).2 := by
  unfold State.init
  split
  · exact h
  · next m hm =>
    have hnew := h.newPair P .ctrl m.fBar0
    exact .store hm hnew.1 hnew.2

theorem Inv.initWmi {s : State} (h : Inv s) (P : Platform) (i : Nat) :
    Inv (s.initWmi P i).2 := by
  unfold State.initWmi
  split
  · exact h
  · next m hm =>
    split
    · exact h
    · have hnew := h.newPair P .wmi m.fBar0
      exact .store hm hnew.1 hnew.2

theorem Inv.initDiag {s : State} (h : Inv s) (P : Platform) (i : Nat) :
    Inv (s.initDiag P i).2 := by
  unfold State.initDiag
  split
  · exact h
  · next m hm =>
    split
    · exact h
    · have hnew := h.newDiag P m.fBar0
      exact .store hm hnew.1 hnew.2

/-- An object is torn down with its pointer cleared; the order of the two does not matter. -/
theorem Inv.dropField {s : State} (h : Inv s) (i : Nat) (k : Kind) : Inv (s.dropField i k) := by
  unfold State.dropField
  split
  · exact h
  · next m hm =>
    split
    · exact h
    · next r hf =>
      obtain ⟨hbar, hlive, hwired⟩ := h.held i m k r hm hf
      have hcleared : Inv (s.setManager i (some (m.setField k none))) := by
        have hnone : AllocPost s k none s := ⟨h, rfl, nofun⟩
        exact .store hm hnone nofun
      have hloose : Loose (s.setManager i (some (m.setField k none))) k r := by
        refine ⟨hlive, hwired, ?_⟩
        intro j n k' hn hf'
        by_cases hj : j = i
        · subst hj
          rw [State.setManager_own] at hn
          obtain rfl := Option.some.inj hn
          by_cases hk : k' = k
          · subst hk
            rw [CEManager.setField_own] at hf'
            cases hf'
          · rw [CEManager.setField_other hk] at hf'
            exact hk (h.single j m k' j m k r hm hf' hm hf).2
        · rw [State.setManager_other hj] at hn
          exact hj (h.single j n k' i m k r hn hf' hm hf).1
      rw [hbar]
      exact hcleared.teardown hloose

theorem Inv.remove {s : State} (h : Inv s) (i : Nat) : Inv (s.setManager i none) :=
  h.shrink nofun

theorem Inv.destroy {s : State} (h : Inv s) (i : Nat) : Inv (s.destroy i) :=
  (((h.dropField i .diag).dropField i .ctrl).dropField i .wmi).remove i

theorem Inv.setFCe {s : State} (h : Inv s) (i : Option Nat) : Inv (s.setFCe i) :=
  h.congr rfl rfl rfl rfl rfl

theorem Inv.create {s : State} (h : Inv s) (P : Platform) (fBar0 : Bool) :
    Inv (s.create P fBar0).2 := by
  unfold State.create
  split
  · exact h.tick
  · have hempty : Inv (s.tick.setManager s.created (some ⟨fBar0, none, none, none⟩)) := by
      apply h.tick.shrink
      intro m k r hm hf
      obtain rfl := Option.some.inj hm
      cases k <;> cases hf
    exact hempty.congr rfl rfl rfl rfl rfl

theorem Inv.createCE {s : State} (h : Inv s) (P : Platform) (fBar0 : Bool) :
    Inv (s.createCE P fBar0).2 := by
  have hnew := h.create P fBar0
  unfold State.createCE
  generalize s.create P fBar0 = x at hnew
  obtain ⟨created, t⟩ := x
  cases created with
  | none => exact hnew.setFCe none
  | some i =>
    have hinit := (hnew.setFCe (some i)).init P i
    dsimp only
    split
    · exact hinit
    · exact (hinit.destroy i).setFCe none

theorem Inv.ensureCE {s : State} (h : Inv s) (P : Platform) (fBar0 : Bool) :
    Inv (s.ensureCE P fBar0).2 := by
  unfold State.ensureCE
  split
  · exact h.createCE P fBar0
  · next i _ =>
    have hinit := h.init P i
    dsimp only
    split
    · exact hinit
    · exact ((hinit.destroy i).setFCe none).createCE P fBar0

theorem Inv.ringSrc {s : State} (h : Inv s) (k : Kind) (w : Nat) : Inv (s.ringSrc k w) :=
  h.setRegs (fun _ => .inr rfl) fun _ => .inr rfl

theorem Inv.ringDst {s : State} (h : Inv s) (k : Kind) (w : Nat) : Inv (s.ringDst k w) :=
  h.setRegs (fun _ => .inr rfl) fun _ => .inr rfl

theorem Inv.call {s : State} (h : Inv s) (P : Platform) (c : Call) : Inv (c.run P s) := by
  cases c with
  | create fBar0 => exact h.create P fBar0
  | init i => exact h.init P i
  | initWmi i => exact h.initWmi P i
  | initDiag i => exact h.initDiag P i
  | destroy i => exact h.destroy i
  | ensureCE fBar0 => exact h.ensureCE P fBar0
  | send k w => exact h.ringSrc k w
  | postRecv k w => exact h.ringDst k w
  | diagXfer d w => exact (h.ringDst .diag d).ringSrc .diag w
  | chipReset => exact h.setRegs (fun _ => .inl rfl) fun _ => .inl rfl

theorem inv_fresh : Inv freshState := by
  constructor
  · exact fun _ hr => absurd hr List.not_mem_nil
  · exact fun _ hr => absurd hr List.not_mem_nil
  · exact fun _ hx => absurd hx List.not_mem_nil
  · exact fun _ => .inl rfl
  · exact fun _ => .inl rfl
  · exact fun _ _ _ _ hm => nomatch hm
  · exact fun _ _ _ _ _ _ _ hm => nomatch hm
  · exact fun _ hx => absurd hx List.not_mem_nil

theorem runCalls_inv (P : Platform) (calls : List Call) : Inv (runCalls P calls) := by
  have hall (s : State) (h : Inv s) : Inv (calls.foldl (Call.run P) s) := by
    induction calls generalizing s with
    | nil => exact h
    | cons c calls ih => exact ih _ (h.call P c)
  exact hall freshState inv_fresh

/-- In every run, a region is released with no engine pointed at it. -/
theorem release_parked (P : Platform) (calls : List Call) :
    ∀ x ∈ (runCalls P calls).releases, x.Parked := (runCalls_inv P calls).parked

/-- Regions placed one behind the other, from the second page on. -/
def stackBase (live : List Region) : Nat :=
  live.foldr (fun r a => max a (r.base + r.size)) ringAligned

def stackPlace (live : List Region) (size : Nat) : Option Region :=
  if stackBase live + size ≤ 2 ^ 32 then some ⟨stackBase live, size⟩ else none

theorem stackBase_pos (live : List Region) : 0 < stackBase live := by
  induction live with
  | nil => decide
  | cons r live ih => exact lt_max_of_lt_left ih

theorem stackBase_above {r : Region} (hr : r ∈ live) : r.base + r.size ≤ stackBase live := by
  induction hr with
  | head => exact le_max_right _ _
  | tail _ _ ih => exact ih.trans (le_max_left _ _)

theorem stackPlace_fresh (h : stackPlace live size = some r) : Fresh live size r := by
  unfold stackPlace at h
  split at h
  · next hbound =>
    obtain rfl := Option.some.inj h
    refine ⟨le_refl size, stackBase_pos live, hbound, ?_⟩
    intro l hl
    exact .inr (stackBase_above hl)
  · cases h

/-- A platform on which the fourth buffer does not settle and nothing else fails. -/
def samplePlatform : Platform where
  place _ := stackPlace
  place_fresh := stackPlace_fresh
  settles n := n != 11
  newObject _ := true
  alive _ := true

def sampleCalls : List Call :=
  [.ensureCE true, .initWmi 0, .initDiag 0, .send .ctrl 1, .ensureCE true, .destroy 1]

theorem release_parked_sample :
    (runCalls samplePlatform sampleCalls).releases.length = 4 ∧
      ∀ x ∈ (runCalls samplePlatform sampleCalls).releases, x.Parked :=
  ⟨by decide +kernel, release_parked samplePlatform sampleCalls⟩

end Regions
end Qca9377
