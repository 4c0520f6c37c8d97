import Mathlib.Data.Finset.Basic
import Mathlib.Data.Finset.Option
import Mathlib.Tactic

namespace Qca9377
set_option autoImplicit true

/-- What the allocators and the heartbeat probe answer while one object is set up. -/
structure Setup where
  object : Bool
  region : Bool
  engine : Bool
  deriving DecidableEq

/-- Every allocation succeeds and the probe reads a live engine. -/
def Setup.Good (s : Setup) : Prop := s = ⟨true, true, true⟩

/-- The objects a manager points to, each named by the DMA region it holds. -/
structure CEManager where
  fCtrl : Option Nat
  fWmi : Option Nat
  fDiag : Option Nat
  deriving DecidableEq, Repr

/-- The driver's manager pointer and the live DMA regions; regions are numbered in the order of
their allocation. -/
structure Driver where
  fCe : Option CEManager
  live : Finset Nat
  allocated : Nat

def Driver.allocRegion (d : Driver) : Nat × Driver :=
  (d.allocated, { d with live := insert d.allocated d.live, allocated := d.allocated + 1 })

def Driver.freeRegion (region : Option Nat) (d : Driver) : Driver :=
  { d with live := d.live \ region.toFinset }

def Driver.setCe (m : Option CEManager) (d : Driver) : Driver := { d with fCe := m }

/-- `new CECopyPair` and its `init`; a pair whose probe fails is deleted without a teardown. -/
def Driver.newPair (s : Setup) (d : Driver) : Option Nat × Driver :=
  if !s.object || !s.region then (none, d)
  else if s.engine then (some d.allocRegion.1, d.allocRegion.2) else (none, d.allocRegion.2)

/-- `new CEDiag` and its `init`; the destructor tears a failed one down. -/
def Driver.newDiag (s : Setup) (d : Driver) : Option Nat × Driver :=
  if !s.object || !s.region then (none, d)
  else if s.engine then (some d.allocRegion.1, d.allocRegion.2)
  else (none, d.allocRegion.2.freeRegion (some d.allocRegion.1))

/-- `CEManager::init`. -/
def Driver.init (s : Setup) (m : CEManager) (d : Driver) : Bool × Driver :=
  let (ctrl, d) := d.newPair s
  (ctrl.isSome, d.setCe (some { m with fCtrl := ctrl }))

/-- `CEManager::initWmi`. -/
def Driver.initWmi (s : Setup) (m : CEManager) (d : Driver) : Bool × Driver :=
  if m.fWmi.isSome then (true, d)
  else
    let (wmi, d) := d.newPair s
    (wmi.isSome, d.setCe (some { m with fWmi := wmi }))

/-- `CEManager::initDiag`. -/
def Driver.initDiag (s : Setup) (m : CEManager) (d : Driver) : Bool × Driver :=
  if m.fDiag.isSome then (true, d)
  else
    let (diag, d) := d.newDiag s
    (diag.isSome, d.setCe (some { m with fDiag := diag }))

/-- `CEManager::destroy`, and the null pointer its caller leaves behind. -/
def Driver.destroy (m : CEManager) (d : Driver) : Driver :=
  (((d.freeRegion m.fDiag).freeRegion m.fCtrl).freeRegion m.fWmi).setCe none

/-- The last part of `ensureCE`: a manager made from scratch. -/
def Driver.createCE (created : Bool) (s : Setup) (d : Driver) : Bool × Driver :=
  if created then
    let (ok, d) := d.init s ⟨none, none, none⟩
    if ok then (true, d)
    else
      match d.fCe with
      | none => (false, d)
      | some m => (false, d.destroy m)
  else (false, d.setCe none)

/-- `ensureCE`; `again` is for a manager that is there already. -/
def Driver.ensureCE (again : Setup) (created : Bool) (s : Setup) (d : Driver) : Bool × Driver :=
  match d.fCe with
  | none => d.createCE created s
  | some m =>
    let (ok, d) := d.init again m
    if ok then (true, d)
    else
      match d.fCe with
      | none => d.createCE created s
      | some m => (d.destroy m).createCE created s

def Driver.teardownHardware (d : Driver) : Driver :=
  match d.fCe with
  | none => d
  | some m => d.destroy m

/-- The calls that set up and tear down the copy engines. -/
inductive ManagerCall where
  | ensureCE (again : Setup) (created : Bool) (s : Setup)
  | initWmi (s : Setup)
  | initDiag (s : Setup)
  | teardownHardware
  deriving DecidableEq

/-- The state after a call; without a manager there is no `initWmi` or `initDiag` to call. -/
def ManagerCall.run (d : Driver) : ManagerCall → Driver
  | .ensureCE again created s => (d.ensureCE again created s).2
  | .initWmi s =>
    match d.fCe with
    | none => d
    | some m => (d.initWmi s m).2
  | .initDiag s =>
    match d.fCe with
    | none => d
    | some m => (d.initDiag s m).2
  | .teardownHardware => d.teardownHardware

def ManagerCall.Good : ManagerCall → Prop
  | .ensureCE again created s => again.Good ∧ created = true ∧ s.Good
  | .initWmi s => s.Good
  | .initDiag s => s.Good
  | .teardownHardware => True

def freshDriver : Driver := ⟨none, ∅, 0⟩

def runCalls (calls : List ManagerCall) : Driver := calls.foldl ManagerCall.run freshDriver

/-- The regions of the objects that a manager points to. -/
def CEManager.regions (m : CEManager) : Finset Nat :=
  m.fCtrl.toFinset ∪ m.fWmi.toFinset ∪ m.fDiag.toFinset

/-- The regions that can be reached from `fCe`. -/
def Driver.owned (d : Driver) : Finset Nat :=
  match d.fCe with
  | none => ∅
  | some m => m.regions

/-- Nothing is live that cannot be reached. -/
def Driver.Owned (d : Driver) : Prop := d.live ⊆ d.owned

instance (d : Driver) : Decidable d.Owned := inferInstanceAs (Decidable (d.live ⊆ d.owned))

/-- A further region, held by the manager `m`. -/
def Driver.adopt (m : CEManager) (d : Driver) : Driver :=
  ⟨some m, insert d.allocated d.live, d.allocated + 1⟩

theorem Driver.newPair_good (h : s.Good) (d : Driver) :
    d.newPair s = (some d.allocated, d.allocRegion.2) := by
  subst h
  rfl

theorem Driver.newDiag_good (h : s.Good) (d : Driver) :
    d.newDiag s = (some d.allocated, d.allocRegion.2) := by
  subst h
  rfl

theorem Driver.init_good (h : s.Good) (m : CEManager) (d : Driver) :
    d.init s m = (true, d.adopt { m with fCtrl := some d.allocated }) := by
  rw [Driver.init, Driver.newPair_good h]
  rfl

/-- What a call in which nothing fails does. -/
inductive ManagerStep (d : Driver) : ManagerCall → Driver → Prop
  | create (h : d.fCe = none) :
      ManagerStep d (.ensureCE again created s) (d.adopt ⟨some d.allocated, none, none⟩)
  | renew (h : d.fCe = some m) :
      ManagerStep d (.ensureCE again created s) (d.adopt { m with fCtrl := some d.allocated })
  | wmi (h : d.fCe = some m) (hw : m.fWmi = none) :
      ManagerStep d (.initWmi s) (d.adopt { m with fWmi := some d.allocated })
  | diag (h : d.fCe = some m) (hd : m.fDiag = none) :
      ManagerStep d (.initDiag s) (d.adopt { m with fDiag := some d.allocated })
  | wmiThere : ManagerStep d (.initWmi s) d
  | diagThere : ManagerStep d (.initDiag s) d
  | absent (h : d.fCe = none) : ManagerStep d .teardownHardware d
  | destroy (h : d.fCe = some m) : ManagerStep d .teardownHardware (d.destroy m)

theorem ManagerCall.Good.step (hc : c.Good) (d : Driver) : ManagerStep d c (c.run d) := by
  cases c with
  | ensureCE again created s =>
    obtain ⟨hagain, rfl, hs⟩ := hc
    rw [ManagerCall.run, Driver.ensureCE]
    cases hd : d.fCe with
    | none =>
      simp only [Driver.createCE, Driver.init_good hs]
      exact .create hd
    | some m =>
      simp only [Driver.init_good hagain]
      exact .renew hd
  | initWmi s =>
    rw [ManagerCall.run]
    cases hd : d.fCe with
    | none => exact .wmiThere
    | some m =>
      simp only [Driver.initWmi, Driver.newPair_good hc]
      cases hw : m.fWmi with
      | none => exact .wmi hd hw
      | some r => exact .wmiThere
  | initDiag s =>
    rw [ManagerCall.run]
    cases hd : d.fCe with
    | none => exact .diagThere
    | some m =>
      simp only [Driver.initDiag, Driver.newDiag_good hc]
      cases hw : m.fDiag with
      | none => exact .diag hd hw
      | some r => exact .diagThere
  | teardownHardware =>
    rw [ManagerCall.run, Driver.teardownHardware]
    cases hd : d.fCe with
    | none => exact .absent hd
    | some m => exact .destroy hd

/-- What holds of the driver as long as nothing fails. -/
structure DriverInv (d : Driver) : Prop where
  below : ∀ r ∈ d.live, r < d.allocated
  live : d.owned ⊆ d.live
  ctrl : ∀ m, d.fCe = some m → ∃ r, m.fCtrl = some r ∧ m.fWmi ≠ some r ∧ m.fDiag ≠ some r

theorem CEManager.mem_regions (m : CEManager) :
    r ∈ m.regions ↔ m.fCtrl = some r ∨ m.fWmi = some r ∨ m.fDiag = some r := by
  simp only [CEManager.regions, Finset.mem_union, Option.mem_toFinset, Option.mem_def, or_assoc]

theorem DriverInv.held (h : DriverInv d) (hm : d.fCe = some m) (hr : r ∈ m.regions) :
    r ∈ d.live ∧ r ≠ d.allocated := by
  have hlive : r ∈ d.live := by
    apply h.live
    rw [Driver.owned, hm]
    exact hr
  exact ⟨hlive, (h.below r hlive).ne⟩

theorem DriverInv.adopt (h : DriverInv d) (hm : ∀ r ∈ m.regions, r = d.allocated ∨ r ∈ d.live)
    (hctrl : ∃ r, m.fCtrl = some r ∧ m.fWmi ≠ some r ∧ m.fDiag ≠ some r) :
    DriverInv (d.adopt m) where
  below := fun r hr => by
    rcases Finset.mem_insert.1 hr with rfl | hr
    · exact Nat.lt_succ_self _
    · exact (h.below r hr).trans (Nat.lt_succ_self _)
  live := fun r hr => Finset.mem_insert.2 (hm r hr)
  ctrl := fun n hn => by
    obtain rfl := Option.some.inj hn
    exact hctrl

theorem DriverInv.step (h : DriverInv d) (hs : ManagerStep d c e) : DriverInv e := by
  cases hs with
  | create hd =>
    apply h.adopt
    · intro r hr
      rcases (CEManager.mem_regions _).1 hr with hr | hr | hr
      · exact .inl (Option.some.inj hr).symm
      · cases hr
      · cases hr
    · exact ⟨_, rfl, nofun, nofun⟩
  | @renew m _ _ _ hd =>
    have hother (r : Nat) (hr : m.fWmi = some r ∨ m.fDiag = some r) :=
      h.held hd (m.mem_regions.2 (.inr hr))
    apply h.adopt
    · intro r hr
      rcases (CEManager.mem_regions _).1 hr with hr | hr
      · exact .inl (Option.some.inj hr).symm
      · exact .inr (hother r hr).1
    · exact ⟨_, rfl, fun hw => (hother _ (.inl hw)).2 rfl, fun hw => (hother _ (.inr hw)).2 rfl⟩
  | @wmi m _ hd hw =>
    obtain ⟨r, hc, -, hdiag⟩ := h.ctrl m hd
    have hheld := h.held hd (m.mem_regions.2 (.inl hc))
    apply h.adopt
    · intro q hq
      rcases (CEManager.mem_regions _).1 hq with hq | hq | hq
      · exact .inr (h.held hd (m.mem_regions.2 (.inl hq))).1
      · exact .inl (Option.some.inj hq).symm
      · exact .inr (h.held hd (m.mem_regions.2 (.inr (.inr hq)))).1
    · exact ⟨r, hc, fun he => hheld.2 (Option.some.inj he).symm, hdiag⟩
  | @diag m _ hd hw =>
    obtain ⟨r, hc, hwmi, -⟩ := h.ctrl m hd
    have hheld := h.held hd (m.mem_regions.2 (.inl hc))
    apply h.adopt
    · intro q hq
      rcases (CEManager.mem_regions _).1 hq with hq | hq | hq
      · exact .inr (h.held hd (m.mem_regions.2 (.inl hq))).1
      · exact .inr (h.held hd (m.mem_regions.2 (.inr (.inl hq)))).1
      · exact .inl (Option.some.inj hq).symm
    · exact ⟨r, hc, hwmi, fun he => hheld.2 (Option.some.inj he).symm⟩
  | wmiThere => exact h
  | diagThere => exact h
  | absent => exact h
  | @destroy m hd =>
    have hsub : (d.destroy m).live ⊆ d.live :=
      (Finset.sdiff_subset.trans Finset.sdiff_subset).trans Finset.sdiff_subset
    exact ⟨fun r hr => h.below r (hsub hr), Finset.empty_subset _, nofun⟩

theorem Driver.Owned.step (h : d.Owned) (hs : ManagerStep d c e)
    (hnew : ∀ again created s, c = .ensureCE again created s → d.fCe = none) : e.Owned := by
  have hadopt {m n : CEManager} (hm : d.fCe = some m)
      (hsub : m.regions ⊆ n.regions) (hn : d.allocated ∈ n.regions) : (d.adopt n).Owned := by
    intro r hr
    rcases Finset.mem_insert.1 hr with rfl | hr
    · exact hn
    · apply hsub
      have howned := h hr
      rw [Driver.owned, hm] at howned
      exact howned
  cases hs with
  | create hd =>
    intro r hr
    rcases Finset.mem_insert.1 hr with rfl | hr
    · exact (CEManager.mem_regions _).2 (.inl rfl)
    · have howned := h hr
      rw [Driver.owned, hd] at howned
      cases howned
  | renew hd =>
    rw [hnew _ _ _ rfl] at hd
    cases hd
  | @wmi m _ hd hw =>
    apply hadopt hd
    · intro r hr
      rcases m.mem_regions.1 hr with hr | hr | hr
      · exact (CEManager.mem_regions _).2 (.inl hr)
      · rw [hw] at hr
        cases hr
      · exact (CEManager.mem_regions _).2 (.inr (.inr hr))
    · exact (CEManager.mem_regions _).2 (.inr (.inl rfl))
  | @diag m _ hd hw =>
    apply hadopt hd
    · intro r hr
      rcases m.mem_regions.1 hr with hr | hr | hr
      · exact (CEManager.mem_regions _).2 (.inl hr)
      · exact (CEManager.mem_regions _).2 (.inr (.inl hr))
      · rw [hw] at hr
        cases hr
    · exact (CEManager.mem_regions _).2 (.inr (.inr rfl))
  | wmiThere => exact h
  | diagThere => exact h
  | absent => exact h
  | @destroy m hd =>
    intro r hr
    simp only [Driver.destroy, Driver.freeRegion, Driver.setCe, Finset.mem_sdiff,
      Option.mem_toFinset, Option.mem_def] at hr
    obtain ⟨⟨⟨hr, hdiag⟩, hctrl⟩, hwmi⟩ := hr
    have howned := h hr
    rw [Driver.owned, hd] at howned
    rcases m.mem_regions.1 howned with he | he | he
    · exact absurd he hctrl
    · exact absurd he hwmi
    · exact absurd he hdiag

/-- Renewing a manager leaves the region of its old control pair behind. -/
theorem DriverInv.renew_leaks (h : DriverInv d) (hm : d.fCe = some m) :
    ¬ (d.adopt { m with fCtrl := some d.allocated }).Owned := by
  intro howned
  obtain ⟨r, hc, hwmi, hdiag⟩ := h.ctrl m hm
  have hheld := h.held hm (m.mem_regions.2 (.inl hc))
  have hr := howned (Finset.mem_insert.2 (.inr hheld.1))
  rcases (CEManager.mem_regions _).1 hr with he | he | he
  · exact hheld.2 (Option.some.inj he).symm
  · exact hwmi he
  · exact hdiag he

/-- After every call each live region is held by an object that `fCe` leads to, and after a
teardown none is live. -/
def LeakFree (calls : List ManagerCall) : Prop :=
  (∀ pre, pre <+: calls → (runCalls pre).Owned) ∧
    ∀ pre, pre ++ [.teardownHardware] <+: calls →
      (runCalls (pre ++ [.teardownHardware])).live = ∅

/-- `ensureCE` is only called while there is no manager. -/
def CreatesOnly (calls : List ManagerCall) : Prop :=
  ∀ pre again created s, pre ++ [.ensureCE again created s] <+: calls → (runCalls pre).fCe = none

theorem runCalls_concat (calls : List ManagerCall) (c : ManagerCall) :
    runCalls (calls ++ [c]) = c.run (runCalls calls) := by
  rw [runCalls, List.foldl_append]
  rfl

theorem driverInv_run (hgood : ∀ c ∈ calls, c.Good) : DriverInv (runCalls calls) := by
  induction calls using List.reverseRecOn with
  | nil => exact ⟨fun r hr => absurd hr (Finset.notMem_empty r), Finset.empty_subset _, nofun⟩
  | append_singleton calls c ih =>
    rw [runCalls_concat]
    have hc := hgood c (List.mem_append_right _ (List.mem_singleton.2 rfl))
    exact (ih fun b hb => hgood b (List.mem_append_left _ hb)).step (hc.step _)

theorem owned_run (hgood : ∀ c ∈ calls, c.Good) (hnew : CreatesOnly calls) :
    (runCalls calls).Owned := by
  induction calls using List.reverseRecOn with
  | nil => exact Finset.empty_subset _
  | append_singleton calls c ih =>
    rw [runCalls_concat]
    have hc := hgood c (List.mem_append_right _ (List.mem_singleton.2 rfl))
    have hcalls := ih (fun b hb => hgood b (List.mem_append_left _ hb))
      fun pre again created s hp => hnew pre again created s (hp.trans (List.prefix_append _ _))
    apply hcalls.step (hc.step _)
    intro again created s he
    subst he
    exact hnew calls again created s List.prefix_rfl

theorem teardown_owned (h : (runCalls (pre ++ [.teardownHardware])).Owned) :
    (runCalls (pre ++ [.teardownHardware])).live = ∅ := by
  have hnone : (runCalls (pre ++ [.teardownHardware])).fCe = none := by
    rw [runCalls_concat, ManagerCall.run, Driver.teardownHardware]
    split
    · assumption
    · rfl
  rw [Driver.Owned, Driver.owned, hnone] at h
  exact Finset.subset_empty.1 h

/-- Where nothing fails, no region is ever leaked exactly when `ensureCE` is only called while
there is no manager. -/
theorem leakFree_iff (hgood : ∀ c ∈ calls, c.Good) : LeakFree calls ↔ CreatesOnly calls := by
  have hpre {pre : List ManagerCall} (hp : pre <+: calls) : ∀ c ∈ pre, c.Good :=
    fun c hc => hgood c (hp.subset hc)
  constructor
  · intro h pre again created s hp
    by_contra hne
    obtain ⟨m, hm⟩ := Option.ne_none_iff_exists'.1 hne
    have hinv := driverInv_run (hpre ((List.prefix_append _ _).trans hp))
    have howned := h.1 _ hp
    rw [runCalls_concat] at howned
    have hgoodc := hpre hp _ (List.mem_append_right _ (List.mem_singleton.2 rfl))
    have hstep := hgoodc.step (runCalls pre)
    generalize ManagerCall.run (runCalls pre) _ = e at hstep howned
    cases hstep with
    | create hd =>
      rw [hm] at hd
      cases hd
    | renew hd =>
      obtain rfl := Option.some.inj (hm.symm.trans hd)
      exact hinv.renew_leaks hm howned
  · intro h
    have hall {pre : List ManagerCall} (hp : pre <+: calls) : (runCalls pre).Owned :=
      owned_run (hpre hp) fun pre' again created s hp' => h pre' again created s (hp'.trans hp)
    exact ⟨fun _ => hall, fun _ hp => teardown_owned (hall hp)⟩

def goodSetup : Setup := ⟨true, true, true⟩

def goodEnsure : ManagerCall := .ensureCE goodSetup true goodSetup

/-- One boot without the warm rescue, torn down and started once more. -/
def bootCalls : List ManagerCall :=
  [goodEnsure, .initDiag goodSetup, .initWmi goodSetup, .teardownHardware, goodEnsure]

theorem bootCalls_good : ∀ c ∈ bootCalls, c.Good := by
  intro c hc
  simp only [bootCalls, List.mem_cons, List.not_mem_nil, or_false] at hc
  rcases hc with rfl | rfl | rfl | rfl | rfl
  · exact ⟨rfl, rfl, rfl⟩
  · exact rfl
  · exact rfl
  · trivial
  · exact ⟨rfl, rfl, rfl⟩

theorem leakFree_boot : LeakFree bootCalls ↔ CreatesOnly bootCalls := leakFree_iff bootCalls_good

/-- The warm rescue: `warmReset` calls `ensureCE` twice and `probeBmi` once more. -/
def warmCalls : List ManagerCall := [goodEnsure, goodEnsure, goodEnsure]

/-- Nothing fails in the warm rescue, and yet regions are left behind, also by a teardown. -/
theorem warm_rescue_leaks :
    (∀ c ∈ warmCalls ++ [.teardownHardware], c.Good) ∧
      ¬ LeakFree (warmCalls ++ [.teardownHardware]) ∧
      (runCalls (warmCalls ++ [.teardownHardware])).live = {0, 1} := by
  refine ⟨?_, ?_, by decide⟩
  · intro c hc
    simp only [warmCalls, List.cons_append, List.nil_append, List.mem_cons, List.not_mem_nil,
      or_false] at hc
    rcases hc with rfl | rfl | rfl | rfl
    · exact ⟨rfl, rfl, rfl⟩
    · exact ⟨rfl, rfl, rfl⟩
    · exact ⟨rfl, rfl, rfl⟩
    · trivial
  · intro h
    have hempty := h.2 warmCalls List.prefix_rfl
    revert hempty
    decide

end Qca9377
