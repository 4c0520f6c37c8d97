import Qca9377.DiagRuns
import Qca9377.InitConfig

namespace Qca9377
open Bytes Interleaving
set_option autoImplicit true

variable {R : CEDiag → CEDiag → Prop} {s t : CEDiag}

/-- The calls of `initConfig` on the window; what it publishes and logs leaves the window alone. -/
def configSend : ConfigCall → Prog CEDiag DiagResult
  | .diag c => c.body
  | .publishNum _ _ => .ret (.flag true)
  | .qlog _ => .ret (.flag true)

theorem qlog_run (m : ConfigLog) (k : Unit → Calls ConfigCall DiagResult α) :
    ((InitConfig.qlog m).bind k).run configSend = (k ()).run configSend := rfl

/-- On the way from `s₀` to `s`, between two moments at which exactly `l` had landed, the target
held this word at this address. -/
def ShownWord (R : CEDiag → CEDiag → Prop) (s₀ : CEDiag) (l : List (Nat × List UInt8))
    (targAddr val : Nat) (s : CEDiag) : Prop :=
  ∃ a b c, CEDiag.Path R s₀ a ∧ CEDiag.Path R a b ∧ CEDiag.Path R b s ∧ a.mem.landed = l ∧
    b.mem.landed = l ∧ b.mem.HeldSince a.mem.earlier c ∧
    val = decodeLE (bytesAt c (ceAddrOf s₀.coreCtrl targAddr) 4)

theorem shownWord_lasting (s₀ : CEDiag) (l : List (Nat × List UInt8)) (targAddr val : Nat) :
    Lasting R (ShownWord R s₀ l targAddr val) := by
  rintro s t h ⟨a, b, c, ha, hab, hb, hrest⟩
  exact ⟨a, b, c, ha, hab, hb.trans h, hrest⟩

/-- The landings of the writes, at CE addresses. -/
def ConfigReads.landings (coreCtrl : Nat) (v : ConfigReads) : List (Nat × List UInt8) :=
  v.writes.map fun w => (ceAddrOf coreCtrl w.1, w.2)

/-- What has landed after the first `k` writes. -/
def configPlaced (s₀ : CEDiag) (v : ConfigReads) (k : Nat) : List (Nat × List UInt8) :=
  s₀.mem.landed ++ (v.landings s₀.coreCtrl).take k

/-- The words behind the first `k` writes are words that the target has shown: the addresses and
the flags before the first write, the other two after the third and the fourth. -/
structure ConfigReads.Genuine (R : CEDiag → CEDiag → Prop) (s₀ : CEDiag) (v : ConfigReads)
    (k : Nat) (s : CEDiag) : Prop where
  state : 0 < k → ShownWord R s₀ s₀.mem.landed (kHiBaseAddress + kHiInterconnectStateOffset)
    v.pcieStateAddr s ∧ v.pcieStateAddr ≠ 0
  pipeCfg : 0 < k → ShownWord R s₀ s₀.mem.landed
    (InitConfig.fieldAddr v.pcieStateAddr kPcieStatePipeCfgOff) v.pipeCfgAddr s ∧
    v.pipeCfgAddr ≠ 0
  svcMap : 0 < k → ShownWord R s₀ s₀.mem.landed
    (InitConfig.fieldAddr v.pcieStateAddr kPcieStateSvcMapOff) v.svcMapAddr s ∧ v.svcMapAddr ≠ 0
  cfgFlags : 0 < k → ShownWord R s₀ s₀.mem.landed
    (InitConfig.fieldAddr v.pcieStateAddr kPcieStateConfigFlgOff) v.cfgFlags s
  ealloc : 3 < k → ShownWord R s₀ (configPlaced s₀ v 3) (kHiBaseAddress + kHiEarlyAllocOffset)
    v.ealloc s
  flag2 : 4 < k → ShownWord R s₀ (configPlaced s₀ v 4) (kHiBaseAddress + kHiOptionFlag2Offset)
    v.flag2 s

/-- The writes of the configuration have landed in order up to some point, each made from what the
target has shown; all of them if the result is true. -/
def Configured (R : CEDiag → CEDiag → Prop) (s₀ : CEDiag) (r : Option Bool) (s : CEDiag) : Prop :=
  ∃ v : ConfigReads, ∃ k ≤ 5, v.Genuine R s₀ k s ∧ s.mem.landed = configPlaced s₀ v k ∧
    (r = some true → k = 5)

section Steps

variable {α : Type} {Q : α → CEDiag → Prop} {F : CEDiag → Prop} {l : List (Nat × List UInt8)}

/-- What follows a word read through the window. -/
theorem read32_run {k : Option Nat → Calls ConfigCall DiagResult α}
    (hR : ∀ s t, R s t → CEDiag.Engine s t) (hF : Lasting R F) (hpath : F s → CEDiag.Path R s₀ s)
    (h : s.Clear l F)
    (hnone : ∀ t, t.Left R (· = l) F →
      Safe R (fun _ => True) (fun _ _ => True) Q ((k none).run configSend) t)
    (hsome : ∀ val t, t.Clear l (fun t => F t ∧ ShownWord R s₀ l targAddr val t) →
      Safe R (fun _ => True) (fun _ _ => True) Q ((k (some val)).run configSend) t) :
    Safe R (fun _ => True) (fun _ _ => True) Q
      (((InitConfig.diagRead32 targAddr).bind k).run configSend) s := by
  change Safe _ _ _ _ ((DiagCall.body (.readMem targAddr 4)).bind fun r =>
    (k r.word).run configSend) s
  apply Safe.bind
  apply Safe.map
  apply (readMem_clear hR hF targAddr 4 h).mono (fun _ => id) (fun _ _ => id)
  intro r t ht
  cases r with
  | none => exact hnone t ht
  | some out =>
    obtain ⟨hclear, hst, c, hc, hout⟩ := ht
    have hs := hpath h.2
    have hword : ShownWord R s₀ l targAddr (decodeLE out) t := by
      refine ⟨s, t, c, hs, hst, .refl, h.1.mem, hclear.1.mem, hc, ?_⟩
      rw [hout, hs.coreCtrl hR]
    exact hsome _ t ⟨hclear.1, hclear.2, hword⟩

/-- What follows a write through the window. -/
theorem write_run {k : Bool → Calls ConfigCall DiagResult α}
    (hR : ∀ s t, R s t → CEDiag.Engine s t) (hF : Lasting R F) (h : s.Clear l F)
    (hfalse : ∀ t,
      t.Left R (fun l' => l' = l ∨ l' = l ++ [(ceAddrOf s.coreCtrl targAddr, buf)]) F →
      Safe R (fun _ => True) (fun _ _ => True) Q ((k false).run configSend) t)
    (htrue : ∀ t, t.Clear (l ++ [(ceAddrOf s.coreCtrl targAddr, buf)]) F →
      Safe R (fun _ => True) (fun _ _ => True) Q ((k true).run configSend) t) :
    Safe R (fun _ => True) (fun _ _ => True) Q
      (((InitConfig.diagWriteMem targAddr buf).bind k).run configSend) s := by
  change Safe _ _ _ _ ((DiagCall.body (.writeMem targAddr buf)).bind fun r =>
    (k r.ok).run configSend) s
  apply Safe.bind
  apply Safe.map
  apply (writeMem_clear hR hF targAddr buf h).mono (fun _ => id) (fun _ _ => id)
  intro r t ht
  cases r with
  | false => exact hfalse t ht
  | true => exact htrue t ht

end Steps

section Phases

variable {s₀ : CEDiag} {v : ConfigReads}

theorem genuine_lasting (s₀ : CEDiag) (v : ConfigReads) (k : Nat) :
    Lasting R (v.Genuine R s₀ k) := by
  intro s t h hs
  have hword (l : List (Nat × List UInt8)) (targAddr val : Nat) :=
    shownWord_lasting s₀ l targAddr val s t h
  exact ⟨fun hk => ⟨hword _ _ _ (hs.state hk).1, (hs.state hk).2⟩,
    fun hk => ⟨hword _ _ _ (hs.pipeCfg hk).1, (hs.pipeCfg hk).2⟩,
    fun hk => ⟨hword _ _ _ (hs.svcMap hk).1, (hs.svcMap hk).2⟩,
    fun hk => hword _ _ _ (hs.cfgFlags hk), fun hk => hword _ _ _ (hs.ealloc hk),
    fun hk => hword _ _ _ (hs.flag2 hk)⟩

theorem ConfigReads.Genuine.le (h : v.Genuine R s₀ k s) (hj : j ≤ k) : v.Genuine R s₀ j s where
  state := fun h0 => h.state (by omega)
  pipeCfg := fun h0 => h.pipeCfg (by omega)
  svcMap := fun h0 => h.svcMap (by omega)
  cfgFlags := fun h0 => h.cfgFlags (by omega)
  ealloc := fun h0 => h.ealloc (by omega)
  flag2 := fun h0 => h.flag2 (by omega)

/-- No word is read between the writes of the flags and of the two tables. -/
theorem ConfigReads.Genuine.tables (h : v.Genuine R s₀ k s) (hk : 0 < k) :
    v.Genuine R s₀ 3 s where
  state := fun _ => h.state hk
  pipeCfg := fun _ => h.pipeCfg hk
  svcMap := fun _ => h.svcMap hk
  cfgFlags := fun _ => h.cfgFlags hk
  ealloc := fun h => absurd h (Nat.lt_irrefl 3)
  flag2 := fun h => absurd h (by decide)

theorem genuine_zero (s₀ : CEDiag) (v : ConfigReads) (s : CEDiag) : v.Genuine R s₀ 0 s where
  state := fun h => absurd h (Nat.lt_irrefl 0)
  pipeCfg := fun h => absurd h (Nat.lt_irrefl 0)
  svcMap := fun h => absurd h (Nat.lt_irrefl 0)
  cfgFlags := fun h => absurd h (Nat.lt_irrefl 0)
  ealloc := fun h => absurd h (Nat.not_lt_zero 3)
  flag2 := fun h => absurd h (Nat.not_lt_zero 4)

/-- What is known when the first `k` writes can be made. -/
def Known (R : CEDiag → CEDiag → Prop) (s₀ : CEDiag) (v : ConfigReads) (k : Nat) (t : CEDiag) :
    Prop :=
  CEDiag.Path R s₀ t ∧ v.Genuine R s₀ k t

theorem known_lasting (s₀ : CEDiag) (v : ConfigReads) (k : Nat) : Lasting R (Known R s₀ v k) :=
  (path_lasting s₀).and (genuine_lasting s₀ v k)

/-- What holds when `initConfig` has returned. -/
def Stopped (R : CEDiag → CEDiag → Prop) (s₀ : CEDiag) (r : Bool) (t : CEDiag) : Prop :=
  t.Idle ∧ Configured R s₀ (some r) t

theorem stopped_of (hi : t.Idle) (hk : k ≤ 5) (h : Known R s₀ v k t)
    (hl : t.mem.landed = configPlaced s₀ v k) (hr : r = true → k = 5) : Stopped R s₀ r t :=
  ⟨hi, v, k, hk, h.2, hl, fun h => hr (Option.some.inj h)⟩

/-- An access fails before anything more has landed. -/
theorem stopped_safe (hk : k ≤ 5) (h : t.Left R (· = configPlaced s₀ v k) (Known R s₀ v k)) :
    Safe R (fun _ => True) (fun _ _ => True) (Stopped R s₀) (.ret false) t :=
  fun u hu => ⟨trivial, stopped_of (h u hu).1 hk (h u hu).2.2 (h u hu).2.1 (by simp)⟩

/-- A write of the configuration: when it fails it may have landed or not. -/
theorem place_run {k : Bool → Calls ConfigCall DiagResult Bool}
    (hR : ∀ s t, R s t → CEDiag.Engine s t) (hn : n < 5)
    (hw : v.writes[n]? = some (targAddr, buf))
    (h : t.Clear (configPlaced s₀ v n) (Known R s₀ v (n + 1)))
    (hstop : (k false).run configSend = .ret false)
    (hgo : ∀ u, u.Clear (configPlaced s₀ v (n + 1)) (Known R s₀ v (n + 1)) →
      Safe R (fun _ => True) (fun _ _ => True) (Stopped R s₀) ((k true).run configSend) u) :
    Safe R (fun _ => True) (fun _ _ => True) (Stopped R s₀)
      (((InitConfig.diagWriteMem targAddr buf).bind k).run configSend) t := by
  have hnext : configPlaced s₀ v n ++ [(ceAddrOf t.coreCtrl targAddr, buf)] =
      configPlaced s₀ v (n + 1) := by
    have hland : (v.landings s₀.coreCtrl)[n]? = some (ceAddrOf s₀.coreCtrl targAddr, buf) := by
      rw [ConfigReads.landings, List.getElem?_map, hw]
      rfl
    rw [h.2.1.coreCtrl hR, configPlaced, configPlaced, List.take_add_one, hland,
      List.append_assoc]
    rfl
  apply write_run hR (known_lasting s₀ v (n + 1)) h
  · intro u hu
    rw [hstop]
    rw [hnext] at hu
    intro x hx
    obtain ⟨hi, hl, hknown⟩ := hu x hx
    refine ⟨trivial, ?_⟩
    rcases hl with hl | hl
    · exact stopped_of hi (by omega) ⟨hknown.1, hknown.2.le n.le_succ⟩ hl (by simp)
    · exact stopped_of hi hn hknown hl (by simp)
  · intro u hu
    rw [hnext] at hu
    exact hgo u hu

/-- A read of the configuration: when it fails nothing more has landed. -/
theorem look_run {k : Option Nat → Calls ConfigCall DiagResult Bool} {F : CEDiag → Prop}
    (hR : ∀ s t, R s t → CEDiag.Engine s t) (hF : Lasting R F)
    (hknown : ∀ t, F t → Known R s₀ v n t) (hn : n ≤ 5) (h : t.Clear (configPlaced s₀ v n) F)
    (hstop : (k none).run configSend = .ret false)
    (hgo : ∀ val u,
      u.Clear (configPlaced s₀ v n)
        (fun u => F u ∧ ShownWord R s₀ (configPlaced s₀ v n) targAddr val u) →
      Safe R (fun _ => True) (fun _ _ => True) (Stopped R s₀) ((k (some val)).run configSend) u) :
    Safe R (fun _ => True) (fun _ _ => True) (Stopped R s₀)
      (((InitConfig.diagRead32 targAddr).bind k).run configSend) t := by
  apply read32_run hR hF (fun ht => (hknown t ht).1) h
  · intro u hu
    rw [hstop]
    exact stopped_safe hn fun x hx => ⟨(hu x hx).1, (hu x hx).2.1, hknown x (hu x hx).2.2⟩
  · exact hgo

theorem earlyCfgDone_safe (hR : ∀ s t, R s t → CEDiag.Engine s t)
    (pipeCfgAddr svcMapAddr ealloc : Nat) (h : t.Clear (configPlaced s₀ v 4) (Known R s₀ v 4)) :
    Safe R (fun _ => True) (fun _ _ => True) (Stopped R s₀)
      ((InitConfig.earlyCfgDone pipeCfgAddr svcMapAddr ealloc).run configSend) t := by
  apply look_run hR (known_lasting s₀ v 4) (fun _ => id) (by decide) h rfl
  intro flag2 u hu
  let w : ConfigReads := { v with flag2 := flag2 }
  have hw : u.Clear (configPlaced s₀ w 4) (Known R s₀ w 5) := by
    obtain ⟨hset, ⟨hpath, hg⟩, hflag⟩ := hu
    exact ⟨hset, hpath, ⟨fun _ => hg.state (by decide), fun _ => hg.pipeCfg (by decide),
      fun _ => hg.svcMap (by decide), fun _ => hg.cfgFlags (by decide),
      fun _ => hg.ealloc (by decide), fun _ => hflag⟩⟩
  apply place_run (v := w) (n := 4) hR (by decide) rfl hw rfl
  intro x hx y hy
  have hend := (clear_assertion hR _ (known_lasting s₀ w 5)).star hx hy
  exact ⟨trivial, stopped_of hend.1.toIdle (by decide) hend.2 hend.1.mem fun _ => rfl⟩

theorem earlyAlloc_safe (hR : ∀ s t, R s t → CEDiag.Engine s t) (pipeCfgAddr svcMapAddr : Nat)
    (h : t.Clear (configPlaced s₀ v 3) (Known R s₀ v 3)) :
    Safe R (fun _ => True) (fun _ _ => True) (Stopped R s₀)
      ((InitConfig.earlyAlloc pipeCfgAddr svcMapAddr).run configSend) t := by
  apply look_run hR (known_lasting s₀ v 3) (fun _ => id) (by decide) h rfl
  intro ealloc u hu
  let w : ConfigReads := { v with ealloc := ealloc }
  have hw : u.Clear (configPlaced s₀ w 3) (Known R s₀ w 4) := by
    obtain ⟨hset, ⟨hpath, hg⟩, halloc⟩ := hu
    exact ⟨hset, hpath, ⟨fun _ => hg.state (by decide), fun _ => hg.pipeCfg (by decide),
      fun _ => hg.svcMap (by decide), fun _ => hg.cfgFlags (by decide),
      fun _ => halloc, fun h => absurd h (by decide)⟩⟩
  apply place_run (v := w) (n := 3) hR (by decide) rfl hw rfl
  intro x hx
  exact earlyCfgDone_safe hR _ _ _ hx

theorem download_safe (hR : ∀ s t, R s t → CEDiag.Engine s t)
    (h : t.Clear (configPlaced s₀ v 1) (Known R s₀ v 3)) :
    Safe R (fun _ => True) (fun _ _ => True) (Stopped R s₀)
      ((InitConfig.download v.pipeCfgAddr v.svcMapAddr).run configSend) t := by
  apply place_run (v := v) (n := 1) hR (by decide) rfl ⟨h.1, h.2.1, h.2.2.le (by decide)⟩ rfl
  intro u hu
  have hknown : Known R s₀ v 3 u := ⟨hu.2.1, hu.2.2.tables (by decide)⟩
  apply place_run (v := v) (n := 2) hR (by decide) rfl ⟨hu.1, hknown⟩ rfl
  intro x hx
  exact earlyAlloc_safe hR _ _ hx

/-- The three addresses of the walk. -/
structure Walked (R : CEDiag → CEDiag → Prop) (s₀ : CEDiag) (v : ConfigReads) (t : CEDiag) :
    Prop where
  path : CEDiag.Path R s₀ t
  state : ShownWord R s₀ s₀.mem.landed (kHiBaseAddress + kHiInterconnectStateOffset)
    v.pcieStateAddr t ∧ v.pcieStateAddr ≠ 0
  pipeCfg : ShownWord R s₀ s₀.mem.landed
    (InitConfig.fieldAddr v.pcieStateAddr kPcieStatePipeCfgOff) v.pipeCfgAddr t ∧
    v.pipeCfgAddr ≠ 0
  svcMap : ShownWord R s₀ s₀.mem.landed
    (InitConfig.fieldAddr v.pcieStateAddr kPcieStateSvcMapOff) v.svcMapAddr t ∧ v.svcMapAddr ≠ 0

theorem walked_lasting (s₀ : CEDiag) (v : ConfigReads) : Lasting R (Walked R s₀ v) := by
  intro s t h hs
  have hword (targAddr val : Nat) := shownWord_lasting s₀ s₀.mem.landed targAddr val s t h
  exact ⟨hs.path.trans h, ⟨hword _ _ hs.state.1, hs.state.2⟩,
    ⟨hword _ _ hs.pipeCfg.1, hs.pipeCfg.2⟩, ⟨hword _ _ hs.svcMap.1, hs.svcMap.2⟩⟩

theorem configPlaced_zero (s₀ : CEDiag) (v : ConfigReads) :
    configPlaced s₀ v 0 = s₀.mem.landed := List.append_nil _

theorem clearL1_safe (hR : ∀ s t, R s t → CEDiag.Engine s t)
    (h : t.Clear s₀.mem.landed (Walked R s₀ v)) :
    Safe R (fun _ => True) (fun _ _ => True) (Stopped R s₀)
      ((InitConfig.clearL1 v.pcieStateAddr v.pipeCfgAddr v.svcMapAddr).run configSend) t := by
  rw [← configPlaced_zero s₀ v] at h
  apply look_run hR (walked_lasting s₀ v) (fun u hu => ⟨hu.path, genuine_zero s₀ v u⟩)
    (by decide) h rfl
  intro cfgFlags u hu
  obtain ⟨hset, hwalked, hflags⟩ := hu
  rw [configPlaced_zero] at hflags
  let w : ConfigReads := { v with cfgFlags := cfgFlags }
  have hgenuine : w.Genuine R s₀ 1 u :=
    ⟨fun _ => hwalked.state, fun _ => hwalked.pipeCfg, fun _ => hwalked.svcMap, fun _ => hflags,
      fun h => absurd h (by decide), fun h => absurd h (by decide)⟩
  apply place_run (v := w) (n := 0) hR (by decide) rfl ⟨hset, hwalked.path, hgenuine⟩ rfl
  intro x hx
  exact download_safe (v := w) hR ⟨hx.1, hx.2.1, hx.2.2.tables (by decide)⟩

/-- An address of the walk, which ends at a failed read and at an address of 0. -/
theorem follow_run {invalid : Nat → ConfigLog} {next : Nat → Calls ConfigCall DiagResult Bool}
    {F : CEDiag → Prop} (hR : ∀ s t, R s t → CEDiag.Engine s t) (hF : Lasting R F)
    (hpath : ∀ u, F u → CEDiag.Path R s₀ u) (h : t.Clear s₀.mem.landed F)
    (hgo : ∀ addr u, addr ≠ 0 →
      u.Clear s₀.mem.landed (fun u => F u ∧ ShownWord R s₀ s₀.mem.landed targAddr addr u) →
      Safe R (fun _ => True) (fun _ _ => True) (Stopped R s₀) ((next addr).run configSend) u) :
    Safe R (fun _ => True) (fun _ _ => True) (Stopped R s₀)
      ((InitConfig.follow targAddr invalid next).run configSend) t := by
  let v : ConfigReads := ⟨0, 0, 0, 0, 0, 0⟩
  have hknown {u : CEDiag} (hu : F u) : Known R s₀ v 0 u := ⟨hpath u hu, genuine_zero s₀ v u⟩
  rw [← configPlaced_zero s₀ v] at h
  apply look_run hR hF (fun u hu => hknown hu) (by decide) h rfl
  intro addr u hu
  by_cases haddr : addr = 0
  · subst haddr
    intro x hx
    have hend := (clear_assertion hR _ (hF.and (shownWord_lasting s₀ _ targAddr 0))).star hu hx
    exact ⟨trivial, stopped_of hend.1.toIdle (by decide) (hknown hend.2.1) hend.1.mem (by simp)⟩
  · rw [configPlaced_zero] at hu
    rw [Option.getD_some, if_neg haddr]
    exact hgo addr u haddr hu

theorem initConfig_safe (hR : ∀ s t, R s t → CEDiag.Engine s t) (hi : s.Idle) (hd : s.Drained) :
    Safe R (fun _ => True) (fun _ _ => True) (Stopped R s)
      (InitConfig.initConfig.run configSend) s := by
  have hpath := path_lasting (R := R) s
  have hword (targAddr val : Nat) := shownWord_lasting (R := R) s s.mem.landed targAddr val
  apply follow_run hR hpath (fun _ => id) ⟨⟨hi, hd, rfl⟩, .refl⟩
  intro pcieStateAddr u hstate hu
  rw [Calls.bind_eq_bind, qlog_run]
  have hF₁ := hpath.and (hword (kHiBaseAddress + kHiInterconnectStateOffset) pcieStateAddr)
  apply follow_run hR hF₁ (fun _ => And.left) hu
  intro pipeCfgAddr u hpipe hu
  have hF₂ := hF₁.and (hword (InitConfig.fieldAddr pcieStateAddr kPcieStatePipeCfgOff) pipeCfgAddr)
  apply follow_run hR hF₂ (fun _ hu => hu.1.1) hu
  intro svcMapAddr u hmap hu
  obtain ⟨hset, ⟨⟨hf, h₁⟩, h₂⟩, h₃⟩ := hu
  exact clearL1_safe (v := ⟨pcieStateAddr, pipeCfgAddr, svcMapAddr, 0, 0, 0⟩) hR
    ⟨hset, hf, ⟨h₁, hstate⟩, ⟨h₂, hpipe⟩, ⟨h₃, hmap⟩⟩

end Phases

/-- What `probeBmi` does through the window. -/
inductive ProbeCall where
  | access (c : DiagCall)
  | initConfig

def ProbeCall.body : ProbeCall → Prog CEDiag DiagResult
  | .access c => c.body
  | .initConfig => do return .flag (← InitConfig.initConfig.run configSend)

def probeSystem (R : CEDiag → CEDiag → Prop) : System CEDiag ProbeCall DiagResult where
  init := CEDiag.Fresh
  body := ProbeCall.body
  env := R

theorem probeSystem_body (R : CEDiag → CEDiag → Prop) (c : ProbeCall) :
    (probeSystem R).body c = c.body := rfl

/-- A call begins with every earlier transfer completed and taken. -/
def probeGuard (_ : ProbeCall) (s : CEDiag) : Prop := s.Drained

def WindowPost (R : CEDiag → CEDiag → Prop) (c : ProbeCall) (s₀ : CEDiag) (r : DiagResult)
    (s : CEDiag) : Prop :=
  match c, r with
  | .access c, r => DiagPost c s₀ r s
  | .initConfig, .flag ok => Configured R s₀ (some ok) s
  | .initConfig, .out _ => False

theorem probeSystem_sound (hR : ∀ s t, R s t → CEDiag.Engine s t)
    (h : Reachable (probeSystem R) probeGuard cfg) :
    Sound (probeSystem R) CEDiag.Idle (fun _ _ _ => True) (fun _ _ => True) (WindowPost R) cfg := by
  apply h.sound
  · exact fun s hs => ⟨hs.dstWrIndex.trans hs.dst.symm, hs.srWrIndex.trans hs.src.symm⟩
  · exact fun s t hi hs => hi.engine (hR s t hs)
  · intro c s hd hi
    cases c with
    | access c =>
      cases c with
      | readMem targAddr len => exact Safe.map ((readMem_safe targAddr len hi hd).antitone hR)
      | writeMem targAddr buf => exact Safe.map ((writeMem_safe targAddr buf hi hd).antitone hR)
    | initConfig => exact Safe.map (initConfig_safe hR hi hd)

theorem configSend_within (c : ConfigCall) : (configSend c).Within CEDiag.Beside := by
  cases c with
  | diag c =>
    cases c with
    | readMem targAddr len => exact (readMem_within targAddr len).bind fun _ => trivial
    | writeMem targAddr buf => exact (writeMem_within targAddr buf).bind fun _ => trivial
  | publishNum => trivial
  | qlog => trivial

theorem probeCall_within (c : ProbeCall) : c.body.Within CEDiag.Beside := by
  cases c with
  | access c => exact configSend_within (.diag c)
  | initConfig => exact (Calls.run_within configSend_within _).bind fun _ => trivial

/-- The result of a call that has returned. -/
def verdict : Prog CEDiag DiagResult → Option Bool
  | .ret (.flag ok) => some ok
  | _ => none

theorem initConfig_configured (hR : ∀ s t, R s t → CEDiag.Engine s t)
    (h : Reachable (probeSystem R) probeGuard (.busy .initConfig s₀ p s)) :
    Configured R s₀ (verdict p) s := by
  have hbeside := (h.within probeCall_within).exec s
  have hpost := (probeSystem_sound hR h.alone).post
  obtain ⟨ok, hok, v, k, hk, hg, hl, hr⟩ :
      ∃ ok, (exec id p s).1 = .flag ok ∧ Configured R s₀ (some ok) (exec id p s).2 := by
    cases hres : (exec id p s).1 with
    | out bytes =>
      rw [hres] at hpost
      exact hpost.elim
    | flag ok =>
      rw [hres] at hpost
      exact ⟨ok, rfl, hpost⟩
  refine ⟨v, k, hk, genuine_lasting s₀ v k _ s (.of_beside hbeside.symm) hg, ?_, ?_⟩
  · rw [← hbeside.landed]
    exact hl
  · intro hp
    apply hr
    cases p with
    | op => cases hp
    | ret r =>
      obtain rfl : r = .flag ok := hok
      exact hp

/-- Whatever the engine and the target do, and wherever an access fails: at every moment of
`initConfig`, and when it has returned, the writes of the configuration have landed in order up to
some point, each made from what the target held at that address after the writes before it. -/
theorem initConfig_order
    (h : Reachable (probeSystem CEDiag.Engine) probeGuard (.busy .initConfig s₀ p s)) :
    Configured CEDiag.Engine s₀ (verdict p) s :=
  initConfig_configured (fun _ _ => id) h

/-- Memory that shows the same word everywhere. -/
def sameWord (a : Nat) : UInt8 := if a % 4 = 2 then 0x20 else 0

def configDiag : CEDiag := { sampleDiag with mem := { sampleDiag.mem with contents := sameWord } }

/-- The window after an `initConfig` whose every access the engine completes at once. -/
def configuredDiag : CEDiag :=
  (exec (fun s => s.consuming.completing) (ProbeCall.body .initConfig) configDiag).2

theorem configuredDiag_reachable :
    Reachable (probeSystem CEDiag.Engine) probeGuard
      (.busy .initConfig configDiag (.ret (.flag true)) configuredDiag) := by
  have hfresh : configDiag.Fresh := ⟨⟨⟨rfl, rfl, rfl, rfl⟩, rfl, rfl, rfl⟩, rfl, rfl, rfl, rfl, rfl⟩
  have hidle : Reachable (probeSystem CEDiag.Engine) probeGuard (.idle configDiag) := .init hfresh
  have hcall : probeGuard .initConfig configDiag := hfresh.toDrained
  have hrun := (hidle.step (.call hcall)).exec
    fun s => s.consuming_star.trans s.consuming.completing_star
  have hr : (exec (fun s => s.consuming.completing) (ProbeCall.body .initConfig) configDiag).1 =
      .flag true := by decide +kernel
  rw [probeSystem_body, hr] at hrun
  exact hrun

theorem configuredDiag_configured :
    Configured CEDiag.Engine configDiag (some true) configuredDiag :=
  initConfig_order configuredDiag_reachable

end Qca9377
