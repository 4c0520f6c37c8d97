import Qca9377.Areas
import Qca9377.ConfigRuns

namespace Qca9377
open Bytes Interleaving
set_option autoImplicit true

variable {s t u : CEDiag}

/-- The engine next to a target that leaves its own memory alone. -/
def CEDiag.QuietTarget (s t : CEDiag) : Prop :=
  CEDiag.Engine s t ∧ (t.mem.landed = s.mem.landed → t.mem.contents = s.mem.contents)

theorem storeAt_eq (m : Nat → UInt8) (ceAddr : Nat) (data : List UInt8) :
    storeAt m ceAddr data = store m ceAddr data := by
  funext b
  rw [storeAt, store, List.getD_eq_getElem?_getD]

theorem heldSince_change {m : DiagMem} (he : e₀ <+: m.earlier)
    (h : (m.change contents).HeldSince e₀ c) : m.HeldSince e₀ c ∨ c = contents := by
  obtain ⟨l, hl⟩ := he
  obtain ⟨l', hl', hc⟩ := h
  rw [DiagMem.change, ← hl, List.append_assoc] at hl'
  obtain rfl := List.append_cancel_left hl'
  rcases List.mem_append.1 hc with hc | hc
  · exact .inl ⟨l, hl.symm, hc⟩
  · exact .inr (List.mem_singleton.1 hc)

/-- What has landed since `s` is what has changed in the target's memory. -/
structure DiagMem.Grown (m₀ m : DiagMem) : Prop where
  began : m₀.earlier <+: m.earlier
  ofLandings : ∃ l, m.landed = m₀.landed ++ l ∧ m.contents = storeAll m₀.contents l
  still : m.landed = m₀.landed → ∀ c, m.HeldSince m₀.earlier c → c = m₀.contents

theorem DiagMem.Grown.refl (m : DiagMem) : m.Grown m := by
  refine ⟨List.prefix_refl _, ⟨[], (List.append_nil _).symm, rfl⟩, ?_⟩
  rintro - c ⟨l, hl, hc⟩
  obtain rfl := List.self_eq_append_right.1 hl
  exact List.mem_singleton.1 hc

theorem DiagMem.Grown.contents_eq {m₀ m : DiagMem} (h : m₀.Grown m) (hl : m.landed = m₀.landed) :
    m.contents = m₀.contents := by
  obtain ⟨l, hlanded, hcontents⟩ := h.ofLandings
  rw [hl] at hlanded
  obtain rfl := List.self_eq_append_right.1 hlanded
  exact hcontents

/-- A step that leaves the target's memory, its history and the landings alone. -/
theorem DiagMem.Grown.same {m₀ m m' : DiagMem} (h : m₀.Grown m) (hearlier : m'.earlier = m.earlier)
    (hcontents : m'.contents = m.contents) (hlanded : m'.landed = m.landed) : m₀.Grown m' := by
  refine ⟨?_, ?_, fun hl c hc => h.still (hlanded.symm.trans hl) c ?_⟩
  · rw [hearlier]
    exact h.began
  · rw [hlanded, hcontents]
    exact h.ofLandings
  · rw [DiagMem.HeldSince, hearlier, hcontents] at hc
    exact hc

theorem DiagMem.Grown.write {m₀ m : DiagMem} (h : m₀.Grown m) (data : List UInt8) (a : DiagAddr) :
    m₀.Grown (m.dmaWrite data a) := by
  cases a with
  | bounce => exact h.same rfl rfl rfl
  | target ceAddr =>
    obtain ⟨l, hlanded, hcontents⟩ := h.ofLandings
    have hnext : (m.dmaWrite data (.target ceAddr)).landed =
        m₀.landed ++ (l ++ [(ceAddr, data)]) := by
      rw [← List.append_assoc, ← hlanded]
      rfl
    refine ⟨h.began.trans (List.prefix_append _ _), ⟨_, hnext, ?_⟩, ?_⟩
    · change storeAt m.contents ceAddr data = _
      rw [storeAt_eq, hcontents, storeAll_append]
      rfl
    · intro hl
      rw [hnext] at hl
      exact absurd (List.self_eq_append_right.1 hl.symm) (by simp)

theorem DiagMem.Grown.step (h : s.mem.Grown t.mem) (hu : CEDiag.QuietTarget t u) :
    s.mem.Grown u.mem := by
  obtain ⟨hstep, hquiet⟩ := hu
  cases hstep with
  | fetch => exact h.same rfl rfl rfl
  | consume => exact h.same rfl rfl rfl
  | fill => exact h.write _ _
  | land => exact h.same rfl rfl rfl
  | advance => exact h.same rfl rfl rfl
  | target contents =>
    obtain rfl : contents = t.mem.contents := hquiet rfl
    refine ⟨h.began.trans (List.prefix_append _ _), h.ofLandings, ?_⟩
    intro hl c hc
    rcases heldSince_change h.began hc with hc | rfl
    · exact h.still hl c hc
    · exact h.contents_eq hl

/-- Next to a quiet target only what lands changes its memory. -/
theorem path_grown (h : CEDiag.Path CEDiag.QuietTarget s t) : s.mem.Grown t.mem := by
  induction h with
  | refl => exact .refl s.mem
  | tail _ hu ih =>
    cases hu with
    | inl hu => exact ih.step hu
    | inr hu => exact ih.same hu.earlier hu.contents hu.landed

def word (m : Nat → UInt8) (a : Nat) : Nat := decodeLE (load m a 4)

/-- A word shown between two moments at which exactly `l` had landed is a word of the memory with
`l` stored in it. -/
theorem shownWord_eq (h : ShownWord CEDiag.QuietTarget s₀ (s₀.mem.landed ++ l) targAddr val s) :
    val = word (storeAll s₀.mem.contents l) (ceAddrOf s₀.coreCtrl targAddr) := by
  obtain ⟨a, b, c, ha, hab, -, hla, hlb, hc, hval⟩ := h
  obtain ⟨l', hl', hcontents⟩ := (path_grown ha).ofLandings
  rw [hla] at hl'
  obtain rfl := List.append_cancel_left hl'
  obtain rfl := (path_grown hab).still (hlb.trans hla.symm) c hc
  rw [hval, hcontents]
  rfl

section Target

/-- The words at which the configuration is found in the target's memory, and those it is made
from. -/
def ConfigReads.found (coreCtrl : Nat) (m : Nat → UInt8) : ConfigReads :=
  let shown (targAddr : Nat) : Nat := word m (ceAddrOf coreCtrl targAddr)
  let pcieStateAddr := shown (kHiBaseAddress + kHiInterconnectStateOffset)
  { pcieStateAddr := pcieStateAddr
    pipeCfgAddr := shown (InitConfig.fieldAddr pcieStateAddr kPcieStatePipeCfgOff)
    svcMapAddr := shown (InitConfig.fieldAddr pcieStateAddr kPcieStateSvcMapOff)
    cfgFlags := shown (InitConfig.fieldAddr pcieStateAddr kPcieStateConfigFlgOff)
    ealloc := shown (kHiBaseAddress + kHiEarlyAllocOffset)
    flag2 := shown (kHiBaseAddress + kHiOptionFlag2Offset) }

def CePipeConfig.decode (b : List UInt8) : CePipeConfig :=
  let field (i : Nat) : Nat := decodeLE ((b.drop (4 * i)).take 4)
  ⟨field 0, field 1, field 2, field 3, field 4, field 5⟩

def CeSvcToPipe.decode (b : List UInt8) : CeSvcToPipe :=
  let field (i : Nat) : Nat := decodeLE ((b.drop (4 * i)).take 4)
  ⟨field 0, field 1, field 2⟩

/-- A table of `n` entries of `w` bytes. -/
def tableAt (decode : List UInt8 → α) (w n : Nat) (m : Nat → UInt8) (a : Nat) : List α :=
  (List.range n).map fun i => decode (load m (a + w * i) w)

/-- The target's configuration. -/
structure TargetConfig where
  pipes : List CePipeConfig
  services : List CeSvcToPipe
  flags : Nat
  earlyAlloc : Nat
  flag2 : Nat
  deriving DecidableEq, Repr

/-- The configuration as the firmware finds it. -/
def TargetConfig.read (coreCtrl : Nat) (m : Nat → UInt8) : TargetConfig :=
  let v := ConfigReads.found coreCtrl m
  { pipes := tableAt CePipeConfig.decode 24 kNumTargetCeConfig m (ceAddrOf coreCtrl v.pipeCfgAddr)
    services := tableAt CeSvcToPipe.decode 12 kNumSvcToPipe m (ceAddrOf coreCtrl v.svcMapAddr)
    flags := v.cfgFlags
    earlyAlloc := v.ealloc
    flag2 := v.flag2 }

def TargetConfig.done (c : TargetConfig) : Prop := c.flag2 &&& kHiOptionEarlyCfgDone ≠ 0

/-- A configuration with all of the host's settings in it. -/
def TargetConfig.configured (c : TargetConfig) : TargetConfig where
  pipes := kTargetCeConfigWlan.take kNumTargetCeConfig
  services := kTargetSvcToPipeMap
  flags := c.flags &&& (2 ^ 32 - 1 - kPcieCfgFlagEnableL1)
  earlyAlloc := c.earlyAlloc ||| InitConfig.magicBits ||| InitConfig.banksBits
  flag2 := c.flag2 ||| kHiOptionEarlyCfgDone

/-- The areas of the configuration have nothing in common, nor have the words that lead to them
anything with these areas. -/
structure Separate (coreCtrl : Nat) (m : Nat → UInt8) : Prop where
  areas : ((ConfigReads.found coreCtrl m).landings coreCtrl).Pairwise ApartStores
  state : ∀ w ∈ (ConfigReads.found coreCtrl m).landings coreCtrl,
    Apart (ceAddrOf coreCtrl (kHiBaseAddress + kHiInterconnectStateOffset)) 4 w.1 w.2.length
  pipeCfg : ∀ w ∈ (ConfigReads.found coreCtrl m).landings coreCtrl,
    Apart (ceAddrOf coreCtrl (InitConfig.fieldAddr (ConfigReads.found coreCtrl m).pcieStateAddr
      kPcieStatePipeCfgOff)) 4 w.1 w.2.length
  svcMap : ∀ w ∈ (ConfigReads.found coreCtrl m).landings coreCtrl,
    Apart (ceAddrOf coreCtrl (InitConfig.fieldAddr (ConfigReads.found coreCtrl m).pcieStateAddr
      kPcieStateSvcMapOff)) 4 w.1 w.2.length

theorem tableAt_load {decode : List UInt8 → α} (hload : load m a (w * n) = b) :
    tableAt decode w n m a =
      (List.range n).map fun i => decode ((b.drop (w * i)).take w) := by
  subst hload
  apply List.map_congr_left
  intro i hi
  have hin : w * i + w ≤ w * n := by
    rw [← Nat.mul_succ]
    exact Nat.mul_le_mul_left w (List.mem_range.1 hi)
  rw [load_part m a hin]

theorem pipes_decode (hload : load m a 168 = pipeConfigBytes) :
    tableAt CePipeConfig.decode 24 kNumTargetCeConfig m a =
      kTargetCeConfigWlan.take kNumTargetCeConfig := by
  rw [tableAt_load (b := pipeConfigBytes) hload]
  decide +kernel

theorem services_decode (hload : load m a 204 = svcMapBytes) :
    tableAt CeSvcToPipe.decode 12 kNumSvcToPipe m a = kTargetSvcToPipeMap := by
  rw [tableAt_load (b := svcMapBytes) hload]
  decide +kernel

theorem word_lt (m : Nat → UInt8) (a : Nat) : word m a < 2 ^ 32 := by
  have h := decodeLE_lt (load m a 4)
  rw [load_length] at h
  exact h

variable {coreCtrl : Nat} {m : Nat → UInt8}

theorem word_landed (hsep : Separate coreCtrl m)
    (hw : (ceAddrOf coreCtrl targAddr, encodeLE 4 val) ∈
      (ConfigReads.found coreCtrl m).landings coreCtrl) (hval : val < 2 ^ 32) :
    word (storeAll m ((ConfigReads.found coreCtrl m).landings coreCtrl))
      (ceAddrOf coreCtrl targAddr) = val := by
  have hload := load_storeAll m hsep.areas hw
  rw [encodeLE_length] at hload
  rw [word, hload]
  exact decodeLE_encodeLE_of_lt hval

/-- The words that lead to the areas stay as they are while the areas are written. -/
theorem found_pointers (hsep : Separate coreCtrl m)
    (hws : ∀ w ∈ ws, w ∈ (ConfigReads.found coreCtrl m).landings coreCtrl) :
    (ConfigReads.found coreCtrl (storeAll m ws)).pcieStateAddr =
        (ConfigReads.found coreCtrl m).pcieStateAddr ∧
      (ConfigReads.found coreCtrl (storeAll m ws)).pipeCfgAddr =
        (ConfigReads.found coreCtrl m).pipeCfgAddr ∧
      (ConfigReads.found coreCtrl (storeAll m ws)).svcMapAddr =
        (ConfigReads.found coreCtrl m).svcMapAddr := by
  have hstate : (ConfigReads.found coreCtrl (storeAll m ws)).pcieStateAddr =
      (ConfigReads.found coreCtrl m).pcieStateAddr :=
    congrArg decodeLE (load_storeAll_apart m fun w hw => hsep.state w (hws w hw))
  refine ⟨hstate, ?_, ?_⟩
  · change word _ (ceAddrOf coreCtrl
      (InitConfig.fieldAddr (ConfigReads.found _ _).pcieStateAddr _)) = _
    rw [hstate]
    exact congrArg decodeLE (load_storeAll_apart m fun w hw => hsep.pipeCfg w (hws w hw))
  · change word _ (ceAddrOf coreCtrl
      (InitConfig.fieldAddr (ConfigReads.found _ _).pcieStateAddr _)) = _
    rw [hstate]
    exact congrArg decodeLE (load_storeAll_apart m fun w hw => hsep.svcMap w (hws w hw))

/-- All of the writes make the configuration what the host wants it to be. -/
theorem read_configured (hsep : Separate coreCtrl m) :
    TargetConfig.read coreCtrl (storeAll m ((ConfigReads.found coreCtrl m).landings coreCtrl)) =
      (TargetConfig.read coreCtrl m).configured := by
  obtain ⟨hstate, hpipe, hmap⟩ := found_pointers hsep fun _ hw => hw
  have hlt (targAddr : Nat) := word_lt m (ceAddrOf coreCtrl targAddr)
  have hor {a b : Nat} (ha : a < 2 ^ 32) (hb : b < 2 ^ 32) : a ||| b < 2 ^ 32 :=
    Nat.or_lt_two_pow ha hb
  have hmem {i : Nat} {w : Nat × List UInt8}
      (h : ((ConfigReads.found coreCtrl m).landings coreCtrl)[i]? = some w) :
      w ∈ (ConfigReads.found coreCtrl m).landings coreCtrl := List.mem_of_getElem? h
  unfold TargetConfig.read TargetConfig.configured
  rw [TargetConfig.mk.injEq]
  refine ⟨?_, ?_, ?_, ?_, ?_⟩
  · rw [hpipe]
    exact pipes_decode (load_storeAll m hsep.areas (hmem (i := 1) rfl))
  · rw [hmap]
    exact services_decode (load_storeAll m hsep.areas (hmem (i := 2) rfl))
  · change word _ (ceAddrOf coreCtrl
      (InitConfig.fieldAddr (ConfigReads.found _ _).pcieStateAddr _)) = _
    rw [hstate]
    exact word_landed hsep (hmem (i := 0) rfl) (Nat.lt_of_le_of_lt Nat.and_le_left (hlt _))
  · exact word_landed hsep (hmem (i := 3) rfl) (hor (hor (hlt _) (by decide)) (by decide))
  · exact word_landed hsep (hmem (i := 4) rfl) (hor (hlt _) (by decide))

/-- Before the last write the flag is what it was. -/
theorem done_kept (hsep : Separate coreCtrl m) (hk : k < 5) :
    (TargetConfig.read coreCtrl
      (storeAll m (((ConfigReads.found coreCtrl m).landings coreCtrl).take k))).flag2 =
      (TargetConfig.read coreCtrl m).flag2 := by
  have hw : (ceAddrOf coreCtrl (kHiBaseAddress + kHiOptionFlag2Offset),
      encodeLE 4 ((ConfigReads.found coreCtrl m).flag2 ||| kHiOptionEarlyCfgDone)) ∈
      ((ConfigReads.found coreCtrl m).landings coreCtrl).drop k := by
    apply List.mem_of_getElem? (i := 4 - k)
    rw [List.getElem?_drop, Nat.add_sub_cancel' (Nat.le_of_lt_succ hk)]
    rfl
  have hload := load_storeAll_take m hsep.areas hw
  rw [encodeLE_length] at hload
  exact congrArg decodeLE hload

end Target

theorem take_of_take {l l' : List α} (h : l.take n = l'.take n) (hk : k ≤ n) :
    l.take k = l'.take k := by
  have htake := congrArg (List.take k) h
  rwa [List.take_take, List.take_take, Nat.min_eq_left hk] at htake

theorem landings_three (coreCtrl : Nat) (v : ConfigReads) : (v.landings coreCtrl).take 3 =
    [(ceAddrOf coreCtrl (InitConfig.fieldAddr v.pcieStateAddr kPcieStateConfigFlgOff),
        encodeLE 4 (v.cfgFlags &&& (2 ^ 32 - 1 - kPcieCfgFlagEnableL1))),
      (ceAddrOf coreCtrl v.pipeCfgAddr, pipeConfigBytes),
      (ceAddrOf coreCtrl v.svcMapAddr, svcMapBytes)] := rfl

theorem landings_four (coreCtrl : Nat) (v : ConfigReads) : (v.landings coreCtrl).take 4 =
    (v.landings coreCtrl).take 3 ++ [(ceAddrOf coreCtrl (kHiBaseAddress + kHiEarlyAllocOffset),
      encodeLE 4 (v.ealloc ||| InitConfig.magicBits ||| InitConfig.banksBits))] := rfl

theorem landings_five (coreCtrl : Nat) (v : ConfigReads) : (v.landings coreCtrl).take 5 =
    (v.landings coreCtrl).take 4 ++ [(ceAddrOf coreCtrl (kHiBaseAddress + kHiOptionFlag2Offset),
      encodeLE 4 (v.flag2 ||| kHiOptionEarlyCfgDone))] := rfl

section Quiet

variable {s₀ : CEDiag} {v : ConfigReads}

theorem shownWord_first (h : ShownWord CEDiag.QuietTarget s₀ s₀.mem.landed targAddr val s) :
    val = word s₀.mem.contents (ceAddrOf s₀.coreCtrl targAddr) := by
  rw [← List.append_nil s₀.mem.landed] at h
  have hval := shownWord_eq h
  rw [storeAll_nil] at hval
  exact hval

/-- A word of a later area, read when the first `k` writes have landed. -/
theorem shownWord_later (hsep : Separate s₀.coreCtrl s₀.mem.contents)
    (htake : (v.landings s₀.coreCtrl).take k =
      ((ConfigReads.found s₀.coreCtrl s₀.mem.contents).landings s₀.coreCtrl).take k)
    (hw : (ceAddrOf s₀.coreCtrl targAddr, encodeLE 4 x) ∈
      ((ConfigReads.found s₀.coreCtrl s₀.mem.contents).landings s₀.coreCtrl).drop k)
    (h : ShownWord CEDiag.QuietTarget s₀ (configPlaced s₀ v k) targAddr val s) :
    val = word s₀.mem.contents (ceAddrOf s₀.coreCtrl targAddr) := by
  have hval := shownWord_eq h
  rw [htake] at hval
  have hload := load_storeAll_take s₀.mem.contents hsep.areas hw
  rw [encodeLE_length] at hload
  exact hval.trans (congrArg decodeLE hload)

/-- Next to a quiet target the words read are the words of its memory at the beginning. -/
theorem landings_found (hsep : Separate s₀.coreCtrl s₀.mem.contents) (hk : k ≤ 5)
    (h : v.Genuine CEDiag.QuietTarget s₀ k s) :
    (v.landings s₀.coreCtrl).take k =
      ((ConfigReads.found s₀.coreCtrl s₀.mem.contents).landings s₀.coreCtrl).take k := by
  obtain rfl | hpos := Nat.eq_zero_or_pos k
  · rw [List.take_zero, List.take_zero]
  let f := ConfigReads.found s₀.coreCtrl s₀.mem.contents
  have hstate : v.pcieStateAddr = f.pcieStateAddr := shownWord_first (h.state hpos).1
  have hpipe := shownWord_first (h.pipeCfg hpos).1
  have hmap := shownWord_first (h.svcMap hpos).1
  have hflags := shownWord_first (h.cfgFlags hpos)
  rw [hstate] at hpipe hmap hflags
  have hpipe : v.pipeCfgAddr = f.pipeCfgAddr := hpipe
  have hmap : v.svcMapAddr = f.svcMapAddr := hmap
  have hflags : v.cfgFlags = f.cfgFlags := hflags
  have hthree : (v.landings s₀.coreCtrl).take 3 =
      ((ConfigReads.found s₀.coreCtrl s₀.mem.contents).landings s₀.coreCtrl).take 3 := by
    rw [landings_three, landings_three, hflags, hpipe, hmap, hstate]
  by_cases hk3 : k ≤ 3
  · exact take_of_take hthree hk3
  have halloc := shownWord_later hsep hthree (x := _) (List.mem_of_getElem? (i := 0) rfl)
    (h.ealloc (by omega))
  have hfour : (v.landings s₀.coreCtrl).take 4 =
      ((ConfigReads.found s₀.coreCtrl s₀.mem.contents).landings s₀.coreCtrl).take 4 := by
    rw [landings_four, landings_four, hthree, halloc]
    rfl
  by_cases hk4 : k ≤ 4
  · exact take_of_take hfour hk4
  have hdone := shownWord_later hsep hfour (x := _) (List.mem_of_getElem? (i := 0) rfl)
    (h.flag2 (by omega))
  obtain rfl : k = 5 := by omega
  rw [landings_five, landings_five, hfour, hdone]
  rfl

/-- The target's memory at any moment: the first few of the writes made from what it held when
`initConfig` was called. -/
theorem configMemory (h : Reachable (probeSystem CEDiag.QuietTarget) probeGuard
      (.busy .initConfig s₀ p s)) (hsep : Separate s₀.coreCtrl s₀.mem.contents) :
    ∃ k ≤ 5, (verdict p = some true → k = 5) ∧ s.mem.contents = storeAll s₀.mem.contents
      (((ConfigReads.found s₀.coreCtrl s₀.mem.contents).landings s₀.coreCtrl).take k) := by
  obtain ⟨v, k, hk, hg, hl, hr⟩ := initConfig_configured (fun _ _ h => h.1) h
  refine ⟨k, hk, hr, ?_⟩
  have hpath : CEDiag.Path CEDiag.QuietTarget s₀ s :=
    h.along (fun _ _ => CEDiag.Path.of_step) fun c =>
      (probeCall_within c).mono fun _ _ => CEDiag.Path.of_beside
  obtain ⟨l, hlanded, hcontents⟩ := (path_grown hpath).ofLandings
  rw [hl, configPlaced] at hlanded
  obtain rfl := List.append_cancel_left hlanded
  rw [hcontents, landings_found hsep hk hg]

end Quiet

theorem CEDiag.fill_quiet (s : CEDiag) (data : List UInt8) (rest : List (List UInt8))
    (hl : (s.fill data rest).mem.landed = s.mem.landed) :
    (s.fill data rest).mem.contents = s.mem.contents := by
  have hmem : (s.fill data rest).mem = s.mem.dmaWrite data (s.fDstDesc s.fillIdx).addr := rfl
  rw [hmem] at hl ⊢
  generalize (s.fDstDesc s.fillIdx).addr = a at hl ⊢
  cases a with
  | bounce => rfl
  | target ceAddr => exact absurd (List.self_eq_append_right.1 hl.symm) (by simp)

theorem CEDiag.consuming_quiet (s : CEDiag) :
    Relation.ReflTransGen CEDiag.QuietTarget s s.consuming := by
  unfold CEDiag.consuming
  split
  · next h =>
    exact .head ⟨.fetch h.1 h.2, fun _ => rfl⟩ (.single ⟨.consume rfl, fun _ => rfl⟩)
  · exact .refl

theorem CEDiag.completing_quiet (s : CEDiag) :
    Relation.ReflTransGen CEDiag.QuietTarget s s.completing := by
  unfold CEDiag.completing
  split
  · exact .refl
  · next data rest hf =>
    split
    · next h =>
      obtain ⟨hw, hu, ha⟩ := h
      have hfill : (s.fill data rest).unlanded = [data.length] := by
        rw [CEDiag.fill, hu, List.nil_append]
      exact .head ⟨.fill hf hw, s.fill_quiet data rest⟩
        (.head ⟨.land hfill, fun _ => rfl⟩ (.single ⟨.advance ha, fun _ => rfl⟩))
    · exact .refl

/-- The PCIe state at 0x200000, the pipe configuration at 0x1000 and the service map at 0x2000;
L1 is enabled and nothing else is set. -/
def coldContents (a : Nat) : UInt8 :=
  if a = 0x1008fa ∨ a = 0x100005 then 0x20
  else if a = 0x100001 then 0x10
  else if a = 0x100020 then 1
  else 0

def coldDiag : CEDiag := { sampleDiag with mem := { sampleDiag.mem with contents := coldContents } }

def warmDiag : CEDiag :=
  (exec (fun s => s.consuming.completing) (ProbeCall.body .initConfig) coldDiag).2

theorem warmDiag_reachable :
    Reachable (probeSystem CEDiag.QuietTarget) probeGuard
      (.busy .initConfig coldDiag (.ret (.flag true)) warmDiag) := by
  have hfresh : coldDiag.Fresh := ⟨⟨⟨rfl, rfl, rfl, rfl⟩, rfl, rfl, rfl⟩, rfl, rfl, rfl, rfl, rfl⟩
  have hidle : Reachable (probeSystem CEDiag.QuietTarget) probeGuard (.idle coldDiag) :=
    .init hfresh
  have hcall : probeGuard .initConfig coldDiag := hfresh.toDrained
  have hrun := (hidle.step (.call hcall)).exec
    fun s => s.consuming_quiet.trans s.consuming.completing_quiet
  have hr : (exec (fun s => s.consuming.completing) (ProbeCall.body .initConfig) coldDiag).1 =
      .flag true := by decide +kernel
  rw [probeSystem_body, hr] at hrun
  exact hrun

theorem coldDiag_separate : Separate coldDiag.coreCtrl coldDiag.mem.contents :=
  ⟨by decide +kernel, by decide +kernel, by decide +kernel, by decide +kernel⟩

end Qca9377
