import Qca9377.StageCap

namespace Qca9377
set_option autoImplicit true

/-- What a log event says about the success of a stage. -/
def StartEvent.verdict : StartEvent → Option Bool
  | .returned _ ok => some ok
  | _ => none

/-- The result of the last stage that was attempted. -/
def lastVerdict (log : List StartEvent) : Option Bool :=
  (log.filterMap StartEvent.verdict).getLast?

theorem lastVerdict_returned (log : List StartEvent) (call : StageCall) (ok : Bool) :
    lastVerdict (log ++ [.returned call ok]) = some ok := by
  rw [lastVerdict, List.filterMap_append]
  exact List.getLast?_concat

theorem lastVerdict_append (log : List StartEvent) {l : List StartEvent}
    (h : ∀ e ∈ l, e.verdict = none) : lastVerdict (log ++ l) = lastVerdict log := by
  have hnil : l.filterMap StartEvent.verdict = [] := List.filterMap_eq_nil_iff.2 h
  rw [lastVerdict, List.filterMap_append, hnil, List.append_nil, lastVerdict]

theorem lastVerdict_publish (log : List StartEvent) (text : String) :
    lastVerdict (log ++ [.publishStage text]) = lastVerdict log := by
  apply lastVerdict_append
  intro e he
  rw [List.mem_singleton.1 he]
  rfl

def CleanFailure (bootArg : Option Nat) (o : Outcomes) : Prop :=
  (start bootArg o).1 = true → lastVerdict (start bootArg o).2.log = some false →
    AllNull (start bootArg o).2

/-- The allocations and the probe with which a manager is made from scratch. -/
def EnsureCE.Creates (e : EnsureCE) : Prop := e.created = true ∧ e.setup.Good

/-- The chip reset comes to the last wait of its warm leg, with both managers set up, and the
target stays silent. -/
structure WarmSilent (o : Outcomes) : Prop where
  before : o.awakeBefore = true
  after : o.awakeAfter = true
  cold : o.announced = false
  first : o.warmCE1.Creates
  second : o.warmCE2.again.Good ∨ o.warmCE2.Creates
  warm : o.warmAnnounced = false

def Setup.ok (s : Setup) : Bool := s.object && s.region && s.engine

theorem Setup.ok_iff (s : Setup) : s.ok = true ↔ s.Good := by
  obtain ⟨object, region, engine⟩ := s
  simp only [Setup.ok, Setup.Good, Setup.mk.injEq, Bool.and_eq_true, and_assoc]

theorem Driver.init_fst (s : Setup) (m : CEManager) (d : Driver) : (d.init s m).1 = s.ok := by
  obtain ⟨object, region, engine⟩ := s
  cases object <;> cases region <;> cases engine <;> rfl

theorem Driver.createCE_fst (created : Bool) (s : Setup) (d : Driver) :
    (d.createCE created s).1 = (created && s.ok) := by
  have hinit := Driver.init_fst s ⟨none, none, none⟩ d
  unfold Driver.createCE
  cases created with
  | false => rfl
  | true =>
    rw [if_pos rfl, Bool.true_and, ← hinit]
    dsimp only
    split
    · next hok => exact hok.symm
    · next hok =>
      rw [Bool.eq_false_iff.2 hok]
      split
      · rfl
      · rfl

theorem Driver.ensureCE_fst (again : Setup) (created : Bool) (s : Setup) (d : Driver) :
    (d.ensureCE again created s).1 = ((d.fCe.isSome && again.ok) || (created && s.ok)) := by
  unfold Driver.ensureCE
  cases hce : d.fCe with
  | none => exact Driver.createCE_fst created s d
  | some m =>
    have hinit := Driver.init_fst again m d
    dsimp only
    split
    · next hok =>
      rw [← hinit, hok]
      rfl
    · next hok =>
      have hbad : again.ok = false := by rw [← hinit, Bool.eq_false_iff.2 hok]
      rw [hbad, Bool.and_false, Bool.false_or]
      split
      · exact Driver.createCE_fst _ _ _
      · exact Driver.createCE_fst _ _ _

theorem Driver.init_some (s : Setup) (m : CEManager) (d : Driver) : (d.init s m).2.fCe ≠ none :=
  nofun

theorem Driver.ensureCE_some {d : Driver} (h : (d.ensureCE again created s).1 = true) :
    (d.ensureCE again created s).2.fCe ≠ none := by
  have hcreate (d : Driver) (h : (d.createCE created s).1 = true) :
      (d.createCE created s).2.fCe ≠ none := by
    unfold Driver.createCE at h ⊢
    split at h
    · next hc =>
      rw [if_pos hc]
      dsimp only at h ⊢
      split at h
      · next hok =>
        rw [if_pos hok]
        exact Driver.init_some _ _ _
      · split at h <;> cases h
    · cases h
  unfold Driver.ensureCE at h ⊢
  split at h
  · exact hcreate d h
  · dsimp only at h ⊢
    split at h
    · next hok =>
      rw [if_pos hok]
      exact Driver.init_some _ _ _
    · next hok =>
      rw [if_neg hok]
      split at h
      · exact hcreate _ h
      · exact hcreate _ h

inductive ResetPost (o : Outcomes) : Bool → QCA9377Driver → Prop
  | passed (h : ¬ WarmSilent o) : ResetPost o true t
  | parked (h : ¬ WarmSilent o) (hnull : AllNull t) : ResetPost o false t
  | silent (h : WarmSilent o) (hce : t.ce.fCe ≠ none) : ResetPost o false t

theorem EnsureCE.creates_iff (e : EnsureCE) : e.Creates ↔ (e.created && e.setup.ok) = true := by
  rw [Bool.and_eq_true, Setup.ok_iff, EnsureCE.Creates]

theorem ensureCE_creates {t : QCA9377Driver} (h : t.ce.fCe = none) (e : EnsureCE) :
    (t.ensureCE e).1 = true ↔ e.Creates := by
  have hfst := Driver.ensureCE_fst e.again e.created e.setup t.ce
  rw [h, Option.isSome_none, Bool.false_and, Bool.false_or] at hfst
  rw [EnsureCE.creates_iff, ← hfst]
  rfl

theorem ensureCE_again {t : QCA9377Driver} (h : t.ce.fCe ≠ none) (e : EnsureCE) :
    (t.ensureCE e).1 = true ↔ e.again.Good ∨ e.Creates := by
  have hfst := Driver.ensureCE_fst e.again e.created e.setup t.ce
  rw [Option.isSome_iff_ne_none.2 h, Bool.true_and] at hfst
  rw [EnsureCE.creates_iff, ← Setup.ok_iff, ← Bool.or_eq_true, ← hfst]
  rfl

theorem warmReset_spec {t : QCA9377Driver} (h : AllNull t) (hbefore : o.awakeBefore = true)
    (hafter : o.awakeAfter = true) (hcold : o.announced = false) :
    ResetPost o (t.warmReset o).1 (t.warmReset o).2 := by
  unfold QCA9377Driver.warmReset
  dsimp only
  generalize hu : (((t.run 2 .resetSi0).publishStage "warm-si0").run 2 .warmResetCpu).publishStage
    "warm-cpu" = u
  have hnull : AllNull u := by
    rw [← hu]
    exact h.same rfl rfl rfl rfl
  have hfirst := ensureCE_creates hnull.fCe o.warmCE1
  split
  · next hno =>
    rw [Bool.not_eq_true'] at hno
    have hnone := Driver.ensureCE_failed hno
    refine .parked (fun hs => ?_) ⟨hnone, hnull.fBmi, hnull.fHtc, hnull.fWmi⟩
    rw [hfirst.2 hs.first] at hno
    cases hno
  · next hce =>
    rw [Bool.not_eq_true', Bool.not_eq_false] at hce
    have hcreates := hfirst.1 hce
    generalize hv : ((((((((u.ensureCE o.warmCE1).2.run 2 .waitForTargetInit).publishStage
      "warm-wait1").run 2 .clearLfTimer).publishStage "warm-lf").run 2 .resetCe).publishStage
      "warm-ce").run 2 .warmResetCpu).publishStage "warm-cpu2" = v
    have hsome : v.ce.fCe ≠ none := by
      rw [← hv]
      exact Driver.ensureCE_some hce
    have hclients : NoClients v := by
      rw [← hv]
      exact ⟨hnull.fBmi, hnull.fHtc, hnull.fWmi⟩
    have hsecond := ensureCE_again hsome o.warmCE2
    split
    · next hno =>
      rw [Bool.not_eq_true'] at hno
      have hnone := Driver.ensureCE_failed hno
      refine .parked (fun hs => ?_) ⟨hnone, hclients.fBmi, hclients.fHtc, hclients.fWmi⟩
      rw [hsecond.2 hs.second] at hno
      cases hno
    · next hce2 =>
      rw [Bool.not_eq_true', Bool.not_eq_false] at hce2
      cases hwarm : o.warmAnnounced with
      | true => exact .passed fun hs => by rw [hs.warm] at hwarm; cases hwarm
      | false =>
        exact .silent ⟨hbefore, hafter, hcold, hcreates, hsecond.1 hce2, hwarm⟩
          (Driver.ensureCE_some hce2)

theorem resetChip_spec {t : QCA9377Driver} (h : AllNull t) (o : Outcomes) :
    ResetPost o (t.resetChip o).1 (t.resetChip o).2 := by
  unfold QCA9377Driver.resetChip
  dsimp only
  split
  · next hno =>
    exact .parked (fun hs => by rw [hs.before] at hno; cases hno) (h.same rfl rfl rfl rfl)
  · next hbefore =>
    split
    · next hno =>
      exact .parked (fun hs => by rw [hs.after] at hno; cases hno) (h.same rfl rfl rfl rfl)
    · next hafter =>
      split
      · next hann => exact .passed fun hs => by rw [hs.cold] at hann; cases hann
      · next hann =>
        rw [Bool.not_eq_true', Bool.not_eq_false] at hbefore hafter
        rw [Bool.not_eq_true] at hann
        have hnull : AllNull ((((t.run 2 .wakeTarget).run 2 .coldReset).run 2 .wakeTarget).run 2
            .waitForTargetInit) := h.same rfl rfl rfl rfl
        have hwarm := warmReset_spec hnull hbefore hafter hann
        generalize QCA9377Driver.warmReset o _ = r at hwarm
        obtain ⟨ok, u⟩ := r
        cases hwarm with
        | passed hs => exact .passed hs
        | parked hs hu => exact .parked hs hu
        | silent hs hce => exact .silent hs hce

theorem bootFirmware_failed {t : QCA9377Driver} (h : (t.bootFirmware o).1 = false) :
    AllNull (t.bootFirmware o).2 := by
  unfold QCA9377Driver.bootFirmware at h ⊢
  dsimp only at h ⊢
  split
  · exact QCA9377Driver.fail_null _ _
  · next h1 =>
    rw [if_neg h1] at h
    split
    · exact QCA9377Driver.fail_null _ _
    · next h2 =>
      rw [if_neg h2] at h
      split
      · exact QCA9377Driver.fail_null _ _
      · next h3 =>
        rw [if_neg h3] at h
        split
        · exact QCA9377Driver.fail_null _ _
        · next h4 =>
          rw [if_neg h4] at h
          split
          · exact QCA9377Driver.fail_null _ _
          · next h5 =>
            rw [if_neg h5] at h
            cases h

theorem startHtcWmi_failed {t : QCA9377Driver} (h : (t.startHtcWmi o).1 = false) :
    AllNull (t.startHtcWmi o).2 := by
  unfold QCA9377Driver.startHtcWmi at h ⊢
  dsimp only at h ⊢
  split
  · exact QCA9377Driver.fail_null _ _
  · next h1 =>
    rw [if_neg h1] at h
    split
    · exact QCA9377Driver.fail_null _ _
    · next h2 =>
      rw [if_neg h2] at h
      split
      · exact QCA9377Driver.fail_null _ _
      · next h3 =>
        rw [if_neg h3] at h
        split
        · exact QCA9377Driver.fail_null _ _
        · next h4 =>
          rw [if_neg h4] at h
          split
          · exact QCA9377Driver.fail_null _ _
          · next h5 =>
            rw [if_neg h5] at h
            cases h

/-- A failure of the last attempted stage has left nothing behind. -/
def Cleaned (t : QCA9377Driver) : Prop := lastVerdict t.log = some false → AllNull t

theorem Cleaned.publish {t : QCA9377Driver} (h : Cleaned t) (text : String) :
    Cleaned (t.publishStage text) := by
  intro hlast
  exact (h ((lastVerdict_publish _ _).symm.trans hlast)).same rfl rfl rfl rfl

theorem Cleaned.verdict (call : StageCall) (t : QCA9377Driver) (h : ok = false → AllNull t) :
    Cleaned (t.note (.returned call ok)) := by
  intro hlast
  obtain rfl := Option.some.inj ((lastVerdict_returned _ _ _).symm.trans hlast)
  exact (h rfl).same rfl rfl rfl rfl

/-- The state in which a silent target leaves the driver: the reset has failed, and the manager
of the warm leg is still there. -/
structure Abandoned (t : QCA9377Driver) : Prop where
  last : lastVerdict t.log = some false
  fCe : t.ce.fCe ≠ none
  fBmi : t.fBmi = none

theorem Abandoned.publish {t : QCA9377Driver} (h : Abandoned t) (text : String) :
    Abandoned (t.publishStage text) :=
  ⟨(lastVerdict_publish _ _).trans h.last, h.fCe, h.fBmi⟩

inductive Stage2Post (o : Outcomes) (t : QCA9377Driver) : Prop
  | settled (h : ¬ WarmSilent o) (ht : Cleaned t)
  | abandoned (h : WarmSilent o) (ht : Abandoned t)

theorem stage2_verdict {t : QCA9377Driver} (h : AllNull t) (o : Outcomes) :
    Stage2Post o (t.stage2 o) := by
  have hreset := resetChip_spec h o
  have hclients := NoClients.resetChip ⟨h.fBmi, h.fHtc, h.fWmi⟩ o
  unfold QCA9377Driver.stage2
  generalize t.resetChip o = r at hreset hclients
  obtain ⟨ok, u⟩ := r
  cases hreset with
  | parked hs hnull => exact .settled hs ((Cleaned.verdict _ _ fun _ => hnull).publish _)
  | silent hs hce =>
    have habandoned : Abandoned (u.note (.returned .resetChip false)) :=
      ⟨lastVerdict_returned _ _ _, hce, hclients.fBmi⟩
    exact .abandoned hs (habandoned.publish _)
  | passed hs =>
    have hprobe := probeBmi_spec (t := u.note (.returned .resetChip true))
      (hclients.same rfl rfl rfl) o
    dsimp only
    rw [if_neg nofun]
    generalize QCA9377Driver.probeBmi o _ = r at hprobe
    obtain ⟨ok, v⟩ := r
    cases hprobe with
    | failed hnull => exact .settled hs ((Cleaned.verdict _ _ fun _ => hnull).publish _)
    | online =>
      have hverdict : Cleaned (v.note (.returned .probeBmi true)) := Cleaned.verdict _ _ nofun
      exact .settled hs (hverdict.publish _)

theorem stage3_settled {t : QCA9377Driver} (h : Cleaned t) (cap : Nat) (o : Outcomes) :
    Cleaned (t.stage3 cap o).2 := by
  unfold QCA9377Driver.stage3
  split
  · exact h.publish _
  · split
    · exact Cleaned.verdict _ _ bootFirmware_failed
    · exact h.publish _

theorem stage4_settled {t : QCA9377Driver} (h : Cleaned t) (cap : Nat) (m3ok : Bool)
    (o : Outcomes) : Cleaned (t.stage4 cap m3ok o) := by
  unfold QCA9377Driver.stage4
  split
  · exact h.publish _
  · split
    · exact Cleaned.verdict _ _ startHtcWmi_failed
    · exact h.publish _

theorem stage3_abandoned {t : QCA9377Driver} (h : Abandoned t) (cap : Nat) (o : Outcomes) :
    (t.stage3 cap o).1 = false ∧ Abandoned (t.stage3 cap o).2 := by
  unfold QCA9377Driver.stage3
  split
  · exact ⟨rfl, h.publish _⟩
  · split
    · next hbmi =>
      rw [h.fBmi] at hbmi
      cases hbmi.1
    · exact ⟨rfl, h.publish _⟩

theorem stage4_abandoned {t : QCA9377Driver} (h : Abandoned t) (cap : Nat) (o : Outcomes) :
    Abandoned (t.stage4 cap false o) := by
  unfold QCA9377Driver.stage4
  split
  · exact h.publish _
  · rw [if_neg nofun]
    exact h.publish _

theorem warm_abandons (bootArg : Option Nat) (hreached : o.Reached) (hsilent : WarmSilent o) :
    (start bootArg o).1 = true ∧ Abandoned (start bootArg o).2 := by
  have hfirst := stage1_spec o (maxStage_pos bootArg)
  unfold start
  generalize QCA9377Driver.stage1 o freshQCA9377Driver = r at hfirst
  obtain ⟨ok, t⟩ := r
  cases hfirst with
  | stopped hno => exact absurd hreached hno
  | passed _ _ _ hnull =>
    cases stage2_verdict hnull o with
    | settled hs => exact absurd hsilent hs
    | abandoned _ ht =>
      have h3 := stage3_abandoned ht (maxStage bootArg) o
      have h4 := stage4_abandoned h3.2 (maxStage bootArg) o
      rw [← h3.1] at h4
      exact ⟨rfl, h4.publish _⟩

/-- A failed probe leaves no hardware state behind, unless the target stays silent at the end of
the warm leg: there `start` goes on without a teardown. -/
theorem cleanFailure_iff (bootArg : Option Nat) (o : Outcomes) :
    CleanFailure bootArg o ↔ ¬ (o.Reached ∧ WarmSilent o) := by
  constructor
  · rintro h ⟨hreached, hsilent⟩
    obtain ⟨hok, habandoned⟩ := warm_abandons bootArg hreached hsilent
    exact habandoned.fCe (h hok habandoned.last).fCe
  · intro h
    have hfirst := stage1_spec o (maxStage_pos bootArg)
    unfold CleanFailure start
    generalize QCA9377Driver.stage1 o freshQCA9377Driver = r at hfirst
    obtain ⟨ok, t⟩ := r
    cases hfirst with
    | stopped => exact nofun
    | passed hreached _ _ hnull =>
      cases stage2_verdict hnull o with
      | abandoned hs => exact absurd ⟨hreached, hs⟩ h
      | settled _ ht =>
        have h3 := stage3_settled ht (maxStage bootArg) o
        exact fun _ => (stage4_settled h3 (maxStage bootArg) _ o).publish _

def silentOutcomes : Outcomes := { goodOutcomes with announced := false, warmAnnounced := false }

/-- The manager of the warm leg survives the failed reset, and its region with it. -/
theorem silent_target_abandoned :
    (start none silentOutcomes).1 = true ∧ ¬ CleanFailure none silentOutcomes ∧
      (start none silentOutcomes).2.ce.owned = {1} := by
  have hreached : silentOutcomes.Reached := by decide
  have hsilent : WarmSilent silentOutcomes :=
    ⟨rfl, rfl, rfl, ⟨rfl, rfl⟩, .inl rfl, rfl⟩
  obtain ⟨hok, habandoned⟩ := warm_abandons none hreached hsilent
  exact ⟨hok, fun h => habandoned.fCe (h hok habandoned.last).fCe, by decide⟩

end Qca9377
