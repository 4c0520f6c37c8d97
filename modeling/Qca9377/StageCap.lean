import Qca9377.Start

namespace Qca9377
set_option autoImplicit true

/-- An event of stage `k` that is not the verdict on a stage. -/
def StartEvent.Within (k : Nat) : StartEvent → Prop
  | .run stage _ => stage = k
  | .publishStage _ => True
  | .returned _ _ => False

/-- What a function of stage `k` adds to the log. -/
def Extends (k : Nat) (t t' : QCA9377Driver) : Prop :=
  ∃ l, t'.log = t.log ++ l ∧ ∀ e ∈ l, e.Within k

theorem Extends.of_log {t t' : QCA9377Driver} (h : t'.log = t.log) : Extends k t t' :=
  ⟨[], by rw [h, List.append_nil], fun _ he => absurd he List.not_mem_nil⟩

theorem Extends.trans {t t' t'' : QCA9377Driver} (h : Extends k t t') (h' : Extends k t' t'') :
    Extends k t t'' := by
  obtain ⟨l, hl, hin⟩ := h
  obtain ⟨l', hl', hin'⟩ := h'
  refine ⟨l ++ l', by rw [hl', hl, List.append_assoc], ?_⟩
  intro e he
  exact (List.mem_append.1 he).elim (hin e) (hin' e)

theorem Extends.note {t t' : QCA9377Driver} (h : Extends k t t') (he : e.Within k) :
    Extends k t (t'.note e) := by
  apply h.trans
  refine ⟨[e], rfl, fun e' he' => ?_⟩
  rw [List.mem_singleton.1 he']
  exact he

theorem Extends.run {t t' : QCA9377Driver} (h : Extends k t t') (op : HwOp) :
    Extends k t (t'.run k op) := h.note rfl

theorem Extends.publish {t t' : QCA9377Driver} (h : Extends k t t') (text : String) :
    Extends k t (t'.publishStage text) := h.note trivial

theorem Extends.same {t t' t'' : QCA9377Driver} (h : Extends k t t') (hlog : t''.log = t'.log) :
    Extends k t t'' := h.trans (.of_log hlog)

theorem Extends.fail {t t' : QCA9377Driver} (h : Extends k t t') (text : String) :
    Extends k t (t'.fail text).2 := (h.publish text).same rfl

theorem Extends.ensureCE {t t' : QCA9377Driver} (h : Extends 2 t t') (e : EnsureCE) :
    Extends 2 t (t'.ensureCE e).2 := (h.run .ensureCE).same rfl

theorem Extends.warmReset {t t' : QCA9377Driver} (h : Extends 2 t t') (o : Outcomes) :
    Extends 2 t (t'.warmReset o).2 := by
  have hfirst := ((((h.run .resetSi0).publish "warm-si0").run .warmResetCpu).publish
    "warm-cpu").ensureCE o.warmCE1
  unfold QCA9377Driver.warmReset
  dsimp only
  split
  · exact hfirst
  · have hsecond := ((((((((hfirst.run .waitForTargetInit).publish "warm-wait1").run
      .clearLfTimer).publish "warm-lf").run .resetCe).publish "warm-ce").run
      .warmResetCpu).publish "warm-cpu2").ensureCE o.warmCE2
    split
    · exact hsecond
    · exact hsecond.run .waitForTargetInit

theorem Extends.resetChip_wake (t : QCA9377Driver) (o : Outcomes) :
    Extends 2 (t.run 2 .wakeTarget) (t.resetChip o).2 := by
  have hwake : Extends 2 (t.run 2 .wakeTarget) (t.run 2 .wakeTarget) := .of_log rfl
  unfold QCA9377Driver.resetChip
  dsimp only
  split
  · exact hwake
  · have hcold := (hwake.run .coldReset).run .wakeTarget
    split
    · exact hcold
    · have hwait := hcold.run .waitForTargetInit
      split
      · exact hwait.publish _
      · split
        · exact (hwait.warmReset o).publish _
        · exact hwait.warmReset o

theorem Extends.resetChip (t : QCA9377Driver) (o : Outcomes) : Extends 2 t (t.resetChip o).2 :=
  ((Extends.of_log rfl).run .wakeTarget).trans (Extends.resetChip_wake t o)

theorem Extends.initDiag {t t' : QCA9377Driver} (h : Extends 2 t t') (s : Setup) :
    Extends 2 t (t'.initDiag s).2 := by
  have hrun := h.run .initDiag
  unfold QCA9377Driver.initDiag
  dsimp only
  split
  · exact hrun
  · exact hrun.same rfl

theorem Extends.probeBmi {t t' : QCA9377Driver} (h : Extends 2 t t') (o : Outcomes) :
    Extends 2 t (t'.probeBmi o).2 := by
  have hce := h.ensureCE o.probeCE
  unfold QCA9377Driver.probeBmi
  dsimp only
  split
  · exact hce
  · have hdiag := hce.initDiag o.diag
    split
    · exact hdiag.same rfl
    · have hcfg := (hdiag.run .diagReadHi).run .initConfig
      split
      · exact hcfg.fail _
      · have hcpu := ((hcfg.publish "M2-initcfg").run .wakeTargetCpu).publish "M2-cpu"
        split
        · exact hcpu.same rfl
        · have hinfo := hcpu.run .getTargetInfo
          split
          · exact hinfo.same rfl
          · exact hinfo.same rfl

theorem Extends.bootFirmware (t : QCA9377Driver) (o : Outcomes) :
    Extends 3 t (t.bootFirmware o).2 := by
  have hrefl : Extends 3 t t := .of_log rfl
  unfold QCA9377Driver.bootFirmware
  dsimp only
  split
  · exact hrefl.fail _
  · have hconfig := (hrefl.publish "M3-fw-parsed").run .configureTarget
    split
    · exact hconfig.fail _
    · have hboard := (hconfig.publish "M3-configured").run .downloadBoardData
      split
      · exact hboard.fail _
      · have hotp : Extends 3 t
            (if o.hasOtp then
              (((((t.publishStage "M3-fw-parsed").run 3 .configureTarget).publishStage
                "M3-configured").run 3 .downloadBoardData).publishStage "M3-board-ok").run 3 .runOtp
            else
              ((((t.publishStage "M3-fw-parsed").run 3 .configureTarget).publishStage
                "M3-configured").run 3 .downloadBoardData).publishStage "M3-board-ok") := by
          split
          · exact (hboard.publish _).run _
          · exact hboard.publish _
        have hfw := hotp.run .downloadFirmware
        split
        · exact hfw.fail _
        · have hdone := (hfw.publish "M3-fw-downloaded").run .doneAndWaitTargetInit
          split
          · exact hdone.fail _
          · exact hdone.publish _

theorem Extends.startHtcWmi (t : QCA9377Driver) (o : Outcomes) :
    Extends 4 t (t.startHtcWmi o).2 := by
  have hwmi : Extends 4 t (t.initWmi o.wmi).2 := by
    have hrun : Extends 4 t (t.run 4 .initWmi) := (Extends.of_log rfl).run _
    unfold QCA9377Driver.initWmi
    dsimp only
    split
    · exact hrun
    · exact hrun.same rfl
  unfold QCA9377Driver.startHtcWmi
  dsimp only
  split
  · exact hwmi.fail _
  · have hready : Extends 4 t (({ (t.initWmi o.wmi).2.publishStage "M4-ce-ok" with
        fHtc := true } : QCA9377Driver).run 4 .waitTarget) :=
      ((hwmi.publish "M4-ce-ok").same rfl).run _
    split
    · exact hready.fail _
    · have hconn := (hready.publish "M4-htc-ready").run .connectService
      split
      · exact hconn.fail _
      · have hsetup := (hconn.publish "M4-connected").run .setupComplete
        split
        · exact hsetup.fail _
        · have hpublished := hsetup.publish "M4-setup-ok"
          split
          · exact ((hpublished.same rfl).run .waitServiceAndReady).fail _
          · exact ((hpublished.same rfl).run .waitServiceAndReady).publish _

/-- The verdict by which a stage has succeeded. -/
def stagePassed : Nat → StartEvent
  | 1 => .returned .probeRegisters true
  | 2 => .returned .probeBmi true
  | 3 => .returned .bootFirmware true
  | _ => .returned .startHtcWmi true

/-- Every operation is of a stage within the cap and comes after the success of all earlier
stages. -/
def Gated (cap : Nat) (log : List StartEvent) : Prop :=
  ∀ before stage op after, log = before ++ .run stage op :: after →
    stage ≤ cap ∧ ∀ j, 1 ≤ j → j < stage → stagePassed j ∈ before

theorem Gated.append {l l' : List StartEvent} (h : Gated cap l)
    (h' : ∀ before stage op after, l' = before ++ .run stage op :: after →
      stage ≤ cap ∧ ∀ j, 1 ≤ j → j < stage → stagePassed j ∈ l ++ before) :
    Gated cap (l ++ l') := by
  intro before stage op after hlog
  rcases List.append_eq_append_iff.1 hlog with ⟨mid, rfl, hl'⟩ | ⟨mid, hl, hrest⟩
  · exact h' mid stage op after hl'
  · cases mid with
    | nil =>
      have hfirst := h' [] stage op after hrest.symm
      rw [List.append_nil] at hl hfirst
      rw [← hl]
      exact hfirst
    | cons e mid =>
      obtain ⟨rfl, -⟩ := List.cons.inj hrest
      exact h before stage op mid hl

theorem Gated.note (h : Gated cap log) (he : ∀ stage op, e ≠ .run stage op) :
    Gated cap (log ++ [e]) := by
  apply h.append
  intro before stage op after hlog
  have hmem : StartEvent.run stage op ∈ [e] := by
    rw [hlog]
    exact List.mem_append_right _ List.mem_cons_self
  exact absurd (List.mem_singleton.1 hmem).symm (he stage op)

theorem Gated.publish (h : Gated cap log) (text : String) :
    Gated cap (log ++ [.publishStage text]) := h.note fun _ _ => StartEvent.noConfusion

theorem Gated.verdict (h : Gated cap log) (call : StageCall) (ok : Bool) :
    Gated cap (log ++ [.returned call ok]) := h.note fun _ _ => StartEvent.noConfusion

theorem Gated.extend {t t' : QCA9377Driver} (h : Gated cap t.log) (hext : Extends k t t')
    (hk : k ≤ cap) (hpassed : ∀ j, 1 ≤ j → j < k → stagePassed j ∈ t.log) : Gated cap t'.log := by
  obtain ⟨l, hl, hin⟩ := hext
  rw [hl]
  apply h.append
  intro before stage op after hlog
  have hmem : StartEvent.run stage op ∈ l := by
    rw [hlog]
    exact List.mem_append_right _ List.mem_cons_self
  obtain rfl : stage = k := hin _ hmem
  exact ⟨hk, fun j hj hjk => List.mem_append_left _ (hpassed j hj hjk)⟩

theorem Extends.mem {t t' : QCA9377Driver} (h : Extends k t t') (he : e ∈ t.log) : e ∈ t'.log := by
  obtain ⟨l, hl, -⟩ := h
  rw [hl]
  exact List.mem_append_left _ he

theorem maxStage_pos (bootArg : Option Nat) : 1 ≤ maxStage bootArg := by
  unfold maxStage
  dsimp only
  split
  · decide
  · next h => omega

/-- The outcomes with which `start` comes past its first stage. -/
def Outcomes.Reached (o : Outcomes) : Prop :=
  o.superStart = true ∧ o.provider = true ∧ o.bar0Descriptor = true ∧ o.bar0Map = true ∧
    o.awake = true

instance (o : Outcomes) : Decidable o.Reached := inferInstanceAs (Decidable (_ ∧ _))

/-- The driver holds no object of the hardware. -/
structure AllNull (t : QCA9377Driver) : Prop where
  fCe : t.ce.fCe = none
  fBmi : t.fBmi = none
  fHtc : t.fHtc = false
  fWmi : t.fWmi = false

theorem AllNull.same {t t' : QCA9377Driver} (h : AllNull t) (hce : t'.ce = t.ce)
    (hbmi : t'.fBmi = t.fBmi) (hhtc : t'.fHtc = t.fHtc) (hwmi : t'.fWmi = t.fWmi) : AllNull t' :=
  ⟨hce ▸ h.fCe, hbmi ▸ h.fBmi, hhtc ▸ h.fHtc, hwmi ▸ h.fWmi⟩

inductive Stage1Post (cap : Nat) (o : Outcomes) : Bool → QCA9377Driver → Prop
  | stopped (hno : ¬ o.Reached) (hlog : Gated cap t.log) : Stage1Post cap o false t
  | passed (h : o.Reached) (hlog : Gated cap t.log) (hpass : stagePassed 1 ∈ t.log)
      (hnull : AllNull t) : Stage1Post cap o true t

theorem stage1_spec (o : Outcomes) (hcap : 1 ≤ cap) :
    Stage1Post cap o (freshQCA9377Driver.stage1 o).1 (freshQCA9377Driver.stage1 o).2 := by
  have hfresh : Gated cap freshQCA9377Driver.log := by
    intro before stage op after hlog
    cases before <;> cases hlog
  have hstop {t : QCA9377Driver} (hno : ¬ o.Reached) (hext : Extends 1 freshQCA9377Driver t) :
      Stage1Post cap o false t :=
    .stopped hno (hfresh.extend hext hcap fun j hj hj1 => absurd hj1 (Nat.not_lt.2 hj))
  have hstart : Extends 1 freshQCA9377Driver
      (freshQCA9377Driver.publishStage "M0-starting") := (Extends.of_log rfl).publish _
  unfold QCA9377Driver.stage1
  dsimp only
  split
  · next h => exact hstop (fun hr => by rw [hr.1] at h; cases h) (.of_log rfl)
  · next hsuper =>
    split
    · next h => exact hstop (fun hr => by rw [hr.2.1] at h; cases h) (hstart.publish _)
    · next hprovider =>
      have hpci := hstart.run .enablePci
      split
      · next h => exact hstop (fun hr => by rw [hr.2.2.1] at h; cases h) (hpci.publish _)
      · next hbar0 =>
        have hbar := hpci.publish "M1-bar0"
        split
        · next h => exact hstop (fun hr => by rw [hr.2.2.2.1] at h; cases h) (hbar.publish _)
        · next hmap =>
          have hwake := hbar.run .wakeTarget
          split
          · next h => exact hstop (fun hr => by rw [hr.2.2.2.2] at h; cases h) (hwake.publish _)
          · next hawake =>
            simp only [Bool.not_eq_true', Bool.not_eq_false] at hsuper hprovider hbar0 hmap hawake
            have hprobe := (hwake.publish "M1-awake").run .probeRegisters
            have hnone (j : Nat) (hj : 1 ≤ j) (hj1 : j < 1) : stagePassed j ∈ ([] : List _) :=
              absurd hj1 (Nat.not_lt.2 hj)
            have hgated := (hfresh.extend hprobe hcap hnone).verdict .probeRegisters true
            have hlast {t : QCA9377Driver} := ((Extends.of_log (k := 1) (t := t) rfl).publish
              "M1-probe").run .probeCopyEngines
            apply Stage1Post.passed ⟨hsuper, hprovider, hbar0, hmap, hawake⟩
            · exact hgated.extend (t := QCA9377Driver.note _ _) hlast hcap fun j hj hj1 =>
                absurd hj1 (Nat.not_lt.2 hj)
            · exact hlast.mem (List.mem_append_right _ (List.mem_singleton.2 rfl))
            · exact ⟨rfl, rfl, rfl, rfl⟩

/-- No protocol object has been made. -/
structure NoClients (t : QCA9377Driver) : Prop where
  fBmi : t.fBmi = none
  fHtc : t.fHtc = false
  fWmi : t.fWmi = false

theorem NoClients.same {t t' : QCA9377Driver} (h : NoClients t) (hbmi : t'.fBmi = t.fBmi)
    (hhtc : t'.fHtc = t.fHtc) (hwmi : t'.fWmi = t.fWmi) : NoClients t' :=
  ⟨hbmi ▸ h.fBmi, hhtc ▸ h.fHtc, hwmi ▸ h.fWmi⟩

theorem NoClients.warmReset {t : QCA9377Driver} (h : NoClients t) (o : Outcomes) :
    NoClients (t.warmReset o).2 := by
  unfold QCA9377Driver.warmReset
  dsimp only
  split
  · exact h.same rfl rfl rfl
  · split
    · exact h.same rfl rfl rfl
    · exact h.same rfl rfl rfl

theorem NoClients.resetChip {t : QCA9377Driver} (h : NoClients t) (o : Outcomes) :
    NoClients (t.resetChip o).2 := by
  unfold QCA9377Driver.resetChip
  dsimp only
  split
  · exact h.same rfl rfl rfl
  · split
    · exact h.same rfl rfl rfl
    · split
      · exact h.same rfl rfl rfl
      · have hwait : NoClients ((((t.run 2 .wakeTarget).run 2 .coldReset).run 2
            .wakeTarget).run 2 .waitForTargetInit) := h.same rfl rfl rfl
        split
        · exact (hwait.warmReset o).same rfl rfl rfl
        · exact hwait.warmReset o

theorem Driver.ensureCE_failed {d : Driver} (h : (d.ensureCE again created s).1 = false) :
    (d.ensureCE again created s).2.fCe = none := by
  have hcreate (d : Driver) (h : (d.createCE created s).1 = false) :
      (d.createCE created s).2.fCe = none := by
    unfold Driver.createCE at h ⊢
    split at h
    · next hc =>
      rw [if_pos hc]
      dsimp only at h ⊢
      split at h
      · cases h
      · next hok =>
        rw [if_neg hok]
        split
        · next hnone => exact hnone
        · rfl
    · next hc =>
      rw [if_neg hc]
      rfl
  unfold Driver.ensureCE at h ⊢
  split at h
  · exact hcreate d h
  · dsimp only at h ⊢
    split at h
    · cases h
    · next hok =>
      rw [if_neg hok]
      split at h
      · exact hcreate _ h
      · exact hcreate _ h

theorem QCA9377Driver.teardown_null (t : QCA9377Driver) : AllNull t.teardownHardware := by
  refine ⟨?_, rfl, rfl, rfl⟩
  unfold QCA9377Driver.teardownHardware Driver.teardownHardware
  dsimp only
  split
  · next h => exact h
  · rfl

theorem QCA9377Driver.fail_null (t : QCA9377Driver) (text : String) : AllNull (t.fail text).2 :=
  QCA9377Driver.teardown_null _

/-- How the BMI probe ends. -/
inductive ProbePost : Bool → QCA9377Driver → Prop
  | failed (h : AllNull t) : ProbePost false t
  | online (h : t.fBmi = some version) : ProbePost true t

theorem probeBmi_spec {t : QCA9377Driver} (h : NoClients t) (o : Outcomes) :
    ProbePost (t.probeBmi o).1 (t.probeBmi o).2 := by
  unfold QCA9377Driver.probeBmi
  dsimp only
  split
  · next hce =>
    have hnone := Driver.ensureCE_failed (Bool.not_eq_true' _ ▸ hce)
    exact .failed ⟨hnone, h.fBmi, h.fHtc, h.fWmi⟩
  · split
    · exact .failed (QCA9377Driver.teardown_null _)
    · split
      · exact .failed (QCA9377Driver.fail_null _ _)
      · split
        · exact .failed (QCA9377Driver.teardown_null _)
        · split
          · exact .failed (QCA9377Driver.teardown_null _)
          · exact .online rfl

/-- The second stage, which asks for no cap but needs one. -/
theorem stage2_spec {t : QCA9377Driver} (hlog : Gated cap t.log) (hcap : 2 ≤ cap)
    (hpass : stagePassed 1 ∈ t.log) (h : NoClients t) (o : Outcomes) :
    Gated cap (t.stage2 o).log ∧ ((t.stage2 o).fBmi ≠ none →
      ∀ j, 1 ≤ j → j < 3 → stagePassed j ∈ (t.stage2 o).log) := by
  have hone (j : Nat) (hj : 1 ≤ j) (hj2 : j < 2) : stagePassed j ∈ t.log := by
    obtain rfl : j = 1 := by omega
    exact hpass
  have hreset := hlog.extend (Extends.resetChip t o) hcap hone
  have hclients := h.resetChip o
  unfold QCA9377Driver.stage2
  dsimp only
  split
  · refine ⟨(hreset.verdict _ _).publish _, fun hbmi => ?_⟩
    exact absurd hclients.fBmi hbmi
  · have hext : Extends 2 ((t.resetChip o).2.note (.returned .resetChip (t.resetChip o).1))
        (((t.resetChip o).2.note (.returned .resetChip (t.resetChip o).1)).probeBmi o).2 :=
      (Extends.of_log rfl).probeBmi o
    have hpost := probeBmi_spec
      (t := (t.resetChip o).2.note (.returned .resetChip (t.resetChip o).1))
      (hclients.same rfl rfl rfl) o
    have hmem : stagePassed 1 ∈
        ((t.resetChip o).2.note (.returned .resetChip (t.resetChip o).1)).log :=
      List.mem_append_left _ ((Extends.resetChip t o).mem hpass)
    have hprobe := (hreset.verdict .resetChip (t.resetChip o).1).extend
      (t := QCA9377Driver.note _ _) hext hcap fun j hj hj2 => by
        obtain rfl : j = 1 := by omega
        exact hmem
    generalize QCA9377Driver.probeBmi o _ = r at hext hpost hprobe
    obtain ⟨ok, u⟩ := r
    cases hpost with
    | failed hnull =>
      exact ⟨(hprobe.verdict _ _).publish _, fun hbmi => absurd hnull.fBmi hbmi⟩
    | online hbmi =>
      refine ⟨(hprobe.verdict _ _).publish _, fun _ j hj hj3 => ?_⟩
      apply List.mem_append_left
      rcases Nat.lt_or_ge j 2 with hj2 | hj2
      · obtain rfl : j = 1 := by omega
        exact List.mem_append_left _ (hext.mem hmem)
      · obtain rfl : j = 2 := by omega
        exact List.mem_append_right _ (List.mem_singleton.2 rfl)

theorem stage3_spec {t : QCA9377Driver} (hlog : Gated cap t.log)
    (hpass : t.fBmi ≠ none → ∀ j, 1 ≤ j → j < 3 → stagePassed j ∈ t.log) (o : Outcomes) :
    Gated cap (t.stage3 cap o).2.log ∧ ((t.stage3 cap o).1 = true →
      ∀ j, 1 ≤ j → j < 4 → stagePassed j ∈ (t.stage3 cap o).2.log) := by
  unfold QCA9377Driver.stage3
  split
  · exact ⟨hlog.publish _, nofun⟩
  · next hcap =>
    split
    · next hbmi =>
      have hpass' := hpass fun hnone => by rw [hnone] at hbmi; cases hbmi.1
      have hext := Extends.bootFirmware t o
      have hboot := hlog.extend hext (Nat.le_of_not_lt hcap) hpass'
      generalize t.bootFirmware o = r at hext hboot
      obtain ⟨m3ok, u⟩ := r
      refine ⟨hboot.verdict _ _, ?_⟩
      intro hok j hj hj4
      obtain rfl : m3ok = true := hok
      rcases Nat.lt_or_ge j 3 with hj3 | hj3
      · exact List.mem_append_left _ (hext.mem (hpass' j hj hj3))
      · obtain rfl : j = 3 := by omega
        exact List.mem_append_right _ (List.mem_singleton.2 rfl)
    · exact ⟨hlog.publish _, nofun⟩

theorem stage4_spec {t : QCA9377Driver} (hlog : Gated cap t.log)
    (hpass : m3ok = true → ∀ j, 1 ≤ j → j < 4 → stagePassed j ∈ t.log) (o : Outcomes) :
    Gated cap (t.stage4 cap m3ok o).log := by
  unfold QCA9377Driver.stage4
  split
  · exact hlog.publish _
  · next hcap =>
    split
    · next hok =>
      have hext := Extends.startHtcWmi t o
      exact (hlog.extend hext (Nat.le_of_not_lt hcap) (hpass hok)).verdict _ _
    · exact hlog.publish _

/-- The second stage wakes the target whatever the cap, and the log keeps it. -/
theorem stage2_wakes (t : QCA9377Driver) (o : Outcomes) :
    .run 2 .wakeTarget ∈ (t.stage2 o).log := by
  have hreset : .run 2 .wakeTarget ∈ (t.resetChip o).2.log :=
    (Extends.resetChip_wake t o).mem (List.mem_append_right _ (List.mem_singleton.2 rfl))
  have hverdict := List.mem_append_left [.returned .resetChip (t.resetChip o).1] hreset
  unfold QCA9377Driver.stage2
  dsimp only
  split
  · exact List.mem_append_left _ hverdict
  · have hprobe := ((Extends.of_log (t := (t.resetChip o).2.note _) rfl).probeBmi o).mem hverdict
    split
    · exact List.mem_append_left _ (List.mem_append_left _ hprobe)
    · exact List.mem_append_left _ (List.mem_append_left _ hprobe)

theorem stage3_mem {t : QCA9377Driver} (he : e ∈ t.log) (cap : Nat) (o : Outcomes) :
    e ∈ (t.stage3 cap o).2.log := by
  unfold QCA9377Driver.stage3
  split
  · exact List.mem_append_left _ he
  · split
    · exact List.mem_append_left _ ((Extends.bootFirmware t o).mem he)
    · exact List.mem_append_left _ he

theorem stage4_mem {t : QCA9377Driver} (he : e ∈ t.log) (cap : Nat) (m3ok : Bool) (o : Outcomes) :
    e ∈ (t.stage4 cap m3ok o).log := by
  unfold QCA9377Driver.stage4
  split
  · exact List.mem_append_left _ he
  · split
    · exact List.mem_append_left _ ((Extends.startHtcWmi t o).mem he)
    · exact List.mem_append_left _ he

theorem not_gated (stage : Nat) (op : HwOp) (he : .run stage op ∈ log) (hcap : cap < stage) :
    ¬ Gated cap log := by
  intro h
  obtain ⟨before, after, hlog⟩ := List.append_of_mem he
  exact absurd (h before stage op after hlog).1 (Nat.not_le.2 hcap)

def CapRespected (bootArg : Option Nat) (o : Outcomes) : Prop :=
  Gated (maxStage bootArg) (start bootArg o).2.log

theorem not_capRespected (hone : maxStage bootArg = 1) (h : o.Reached) :
    ¬ CapRespected bootArg o := by
  have hfirst := stage1_spec o (maxStage_pos bootArg)
  unfold CapRespected start
  generalize QCA9377Driver.stage1 o freshQCA9377Driver = r at hfirst
  obtain ⟨ok, t⟩ := r
  cases hfirst with
  | stopped hno => exact absurd h hno
  | passed =>
    dsimp only
    rw [if_neg nofun, hone]
    apply not_gated 2 .wakeTarget _ (by decide)
    apply List.mem_append_left
    apply stage4_mem
    apply stage3_mem
    exact stage2_wakes _ _

/-- The stage cap is respected exactly when it is not one, or no stage after the first is
reached. -/
theorem capRespected_iff (bootArg : Option Nat) (o : Outcomes) :
    CapRespected bootArg o ↔ maxStage bootArg ≠ 1 ∨ ¬ o.Reached := by
  constructor
  · intro h
    by_contra hno
    obtain ⟨hone, hreached⟩ := not_or.1 hno
    exact not_capRespected (not_not.1 hone) (not_not.1 hreached) h
  · intro h
    have hpos := maxStage_pos bootArg
    have hfirst := stage1_spec o hpos
    unfold CapRespected start
    generalize QCA9377Driver.stage1 o freshQCA9377Driver = r at hfirst
    obtain ⟨ok, t⟩ := r
    cases hfirst with
    | stopped hno hlog => exact hlog
    | passed hreached hlog hpass hnull =>
      have hcap : 2 ≤ maxStage bootArg := by
        rcases h with hone | hno
        · omega
        · exact absurd hreached hno
      have h2 := stage2_spec hlog hcap hpass ⟨hnull.fBmi, hnull.fHtc, hnull.fWmi⟩ o
      have h3 := stage3_spec h2.1 h2.2 o
      exact (stage4_spec h3.1 h3.2 o).publish _

def goodCE : EnsureCE := ⟨goodSetup, true, goodSetup⟩

def goodOutcomes : Outcomes where
  superStart := true
  provider := true
  bar0Descriptor := true
  bar0Map := true
  awake := true
  awakeBefore := true
  awakeAfter := true
  announced := true
  warmCE1 := goodCE
  warmCE2 := goodCE
  warmAnnounced := true
  probeCE := goodCE
  diag := goodSetup
  initConfig := true
  bmiObject := true
  targetInfo := some 0x05020000
  fwParsed := true
  configured := true
  boardData := true
  hasOtp := true
  fwDownloaded := true
  targetInit := true
  wmi := goodSetup
  htcReady := true
  connected := true
  setupComplete := true
  wmiReady := true

/-- With `qca-maxstage=1` the chip is reset and the BMI probed all the same. -/
theorem cap_one_resets : ¬ CapRespected (some 1) goodOutcomes :=
  not_capRespected rfl ⟨rfl, rfl, rfl, rfl, rfl⟩

end Qca9377
