import Qca9377.Boot
import Qca9377.Polling

namespace Qca9377
open Bytes Interleaving
set_option autoImplicit true

def kTargetInitTimeout_ms : Nat := 10000
def kTargetInitStep_ms : Nat := 10
def kTargetInitSample_ms : Nat := 1000
def kRTCStateMaskSt : UInt32 := 7
def kFWIndEventPending : UInt32 := 1
def kFWIndInitialized : UInt32 := 2

/-- What `waitForTargetInit` logs through `qlog`. -/
inductive InitLog where
  | initialised (elapsed : Nat) (val : UInt32)
  | timedOut (last : UInt32)
  deriving DecidableEq, Repr

/-- The driver at its wait: two registers, what has been published and logged, and the values read
from FW_INDICATOR so far. -/
structure InitWait where
  fwIndicator : UInt32
  rtcState : UInt32
  published : List (String × UInt32)
  qlog : List InitLog
  readings : List UInt32

namespace InitWait

def readIndicator : Prog InitWait UInt32 :=
  .op (fun s => { s with readings := s.readings ++ [s.fwIndicator] }) fun s => .ret s.fwIndicator

def publishNum (key : String) (val : UInt32) : Prog InitWait Unit :=
  modify fun s => { s with published := s.published ++ [(key, val)] }

def log (m : InitLog) : Prog InitWait Unit := modify fun s => { s with qlog := s.qlog ++ [m] }

def timedOut (last : UInt32) : Prog InitWait Bool := do
  publishNum "fw-ind-last" last
  log (.timedOut last)
  return false

/-- The samples of one second, and when the next ones are due. -/
def sample (elapsed nextSample : Nat) (val : UInt32) : Prog InitWait Nat := do
  if elapsed < nextSample then return nextSample
  publishNum s!"fw-ind-s{nextSample / 1000}" val
  let rtc ← read rtcState
  publishNum s!"rtc-s{nextSample / 1000}" (rtc &&& kRTCStateMaskSt)
  return nextSample + kTargetInitSample_ms

/-- The polling loop of `waitForTargetInit`, with the polls left. -/
def pollInit : Nat → Nat → Nat → UInt32 → Prog InitWait Bool
  | 0, _, _, last => timedOut last
  | n + 1, elapsed, nextSample, _ => do
    let val ← readIndicator
    if val ≠ 0xffffffff ∧ val &&& kFWIndInitialized ≠ 0 then
      publishNum "fw-indicator" val
      log (.initialised elapsed val)
      return true
    if val ≠ 0xffffffff ∧ val &&& kFWIndEventPending ≠ 0 then timedOut val
    else
      let next ← sample elapsed nextSample val
      pollInit n (elapsed + kTargetInitStep_ms) next val

def waitForTargetInit : Prog InitWait Bool :=
  pollInit (kTargetInitTimeout_ms / kTargetInitStep_ms) 0 0 0xffffffff

end InitWait

/-- A reading that ends a wait. -/
def Decisive (x : UInt32) : Prop :=
  x ≠ 0xffffffff ∧ (x &&& kFWIndEventPending ≠ 0 ∨ x &&& kFWIndInitialized ≠ 0)

instance (x : UInt32) : Decidable (Decisive x) := inferInstanceAs (Decidable (_ ∧ _))

/-- INITIALIZED is set and EVENT_PENDING is clear. -/
def Announced (x : UInt32) : Prop := x &&& kFWIndInitialized ≠ 0 ∧ x &&& kFWIndEventPending = 0

instance (x : UInt32) : Decidable (Announced x) := inferInstanceAs (Decidable (_ ∧ _))

/-- The readings left when the first `m` have been made. -/
def FirstDecisive (r : Nat → UInt32) (m i : Nat) : Prop := FirstAt (fun k => Decisive (r (m + k))) i

namespace InitWait

/-- FW_INDICATOR reads as `r k` at its `k`-th reading. -/
def Shows (r : Nat → UInt32) (e : InitWait → InitWait) : Prop :=
  ∀ s, (e s).readings = s.readings ∧ (e s).fwIndicator = r s.readings.length

end InitWait

namespace Boot

def Shows (r : Nat → UInt32) (e : Boot → Boot) : Prop :=
  ∀ b, (e b).readings = b.readings ∧ (e b).fwIndicator = r b.readings.length

end Boot

/-- Both waits give the verdict that the first decisive reading within both budgets calls for; a
wait without a decisive reading in its budget fails. -/
structure SameVerdict (r : Nat → UInt32) : Prop where
  decided : ∀ i, i < kTargetInitTimeout_ms / kTargetInitStep_ms → i < pollDeadline 3000 →
    FirstDecisive r 0 i →
      (∀ e s, InitWait.Shows r e → s.readings = [] →
        (exec e InitWait.waitForTargetInit s).1 = decide (Announced (r i))) ∧
      ∀ e b, Boot.Shows r e → b.readings = [] → (exec e (Boot.onHost Bmi.done) b).1 = true →
        (exec e Boot.doneAndWaitTargetInit b).1 = decide (Announced (r i))
  driver : (∀ k < kTargetInitTimeout_ms / kTargetInitStep_ms, ¬ Decisive (r k)) →
    ∀ e s, InitWait.Shows r e → s.readings = [] → (exec e InitWait.waitForTargetInit s).1 = false
  fw : (∀ k < pollDeadline 3000, ¬ Decisive (r k)) →
    ∀ e b, Boot.Shows r e → b.readings = [] → (exec e (Boot.onHost Bmi.done) b).1 = true →
      (exec e Boot.doneAndWaitTargetInit b).1 = false

variable {r : Nat → UInt32}

theorem FirstDecisive.now (h : FirstDecisive r m 0) : Decisive (r m) := h.1

theorem FirstDecisive.later (h : FirstDecisive r m (i + 1)) :
    ¬ Decisive (r m) ∧ FirstDecisive r (m + 1) i := by
  have hshift (k : Nat) : m + 1 + k = m + (k + 1) := by omega
  refine ⟨h.2 0 (Nat.succ_pos i), ?_, fun k hk => ?_⟩
  · change Decisive (r (m + 1 + i))
    rw [hshift]
    exact h.1
  · change ¬ Decisive (r (m + 1 + k))
    rw [hshift]
    exact h.2 (k + 1) (Nat.succ_lt_succ hk)

theorem undecided_later (h : ∀ k < n + 1, ¬ Decisive (r (m + k))) :
    ¬ Decisive (r m) ∧ ∀ k < n, ¬ Decisive (r (m + 1 + k)) := by
  refine ⟨h 0 (Nat.succ_pos n), fun k hk => ?_⟩
  rw [Nat.add_assoc, Nat.add_comm 1]
  exact h (k + 1) (Nat.succ_lt_succ hk)

namespace InitWait

variable {e : InitWait → InitWait} {s : InitWait}

theorem sample_readings (he : Shows r e) (elapsed nextSample : Nat) (val : UInt32) (s : InitWait) :
    (exec e (sample elapsed nextSample val) s).2.readings = s.readings := by
  simp only [sample, publishNum, bind_eq_bind, modify_bind, read_bind, pure_eq_ret]
  split
  · rfl
  · simp only [exec_op, exec_ret, id_eq, (he _).1]

/-- One turn of the loop. -/
theorem exec_pollInit (he : Shows r e) (s : InitWait) (n elapsed nextSample : Nat) (last : UInt32) :
    ∃ t, t.readings.length = s.readings.length + 1 ∧
      (exec e (pollInit (n + 1) elapsed nextSample last) s).1 =
        if r s.readings.length ≠ 0xffffffff ∧
            r s.readings.length &&& kFWIndInitialized ≠ 0 then true
        else if r s.readings.length ≠ 0xffffffff ∧ r s.readings.length &&& kFWIndEventPending ≠ 0
          then false
        else (exec e ((sample elapsed nextSample (r s.readings.length)).bind fun next =>
          pollInit n (elapsed + kTargetInitStep_ms) next (r s.readings.length)) t).1 := by
  refine ⟨{ e s with readings := (e s).readings ++ [(e s).fwIndicator] }, ?_, ?_⟩
  · rw [List.length_append, (he s).1]
    rfl
  · simp only [pollInit, readIndicator, bind_eq_bind, Prog.op_bind, Prog.ret_bind, exec_op,
      (he s).2]
    split
    · rfl
    · split
      · rfl
      · rfl

theorem pollInit_decides (he : Shows r e) (hi : i < n) (h : FirstDecisive r s.readings.length i)
    (elapsed nextSample : Nat) (last : UInt32) :
    (exec e (pollInit n elapsed nextSample last) s).1 =
      decide (r (s.readings.length + i) &&& kFWIndInitialized ≠ 0) := by
  induction n generalizing i s elapsed nextSample last with
  | zero => cases hi
  | succ n ih =>
    obtain ⟨t, ht, hturn⟩ := exec_pollInit he s n elapsed nextSample last
    rw [hturn]
    cases i with
    | zero =>
      obtain ⟨hlive, hbits⟩ := h.now
      by_cases hinit : r s.readings.length &&& kFWIndInitialized ≠ 0
      · rw [if_pos ⟨hlive, hinit⟩, Nat.add_zero, decide_eq_true hinit]
      · rw [if_neg (fun hp => hinit hp.2), if_pos ⟨hlive, hbits.resolve_right hinit⟩, Nat.add_zero,
          decide_eq_false hinit]
    | succ i =>
      obtain ⟨hnow, hrest⟩ := h.later
      rw [if_neg (fun hp => hnow ⟨hp.1, .inr hp.2⟩), if_neg (fun hp => hnow ⟨hp.1, .inl hp.2⟩),
        exec_bind]
      have hlen := (congrArg List.length (sample_readings he elapsed nextSample
        (r s.readings.length) t)).trans ht
      rw [← hlen] at hrest
      rw [ih (Nat.lt_of_succ_lt_succ hi) hrest, hlen, Nat.add_right_comm]
      rfl

theorem pollInit_undecided (he : Shows r e) (h : ∀ k < n, ¬ Decisive (r (s.readings.length + k)))
    (elapsed nextSample : Nat) (last : UInt32) :
    (exec e (pollInit n elapsed nextSample last) s).1 = false := by
  induction n generalizing s elapsed nextSample last with
  | zero => rfl
  | succ n ih =>
    obtain ⟨t, ht, hturn⟩ := exec_pollInit he s n elapsed nextSample last
    obtain ⟨hnow, hrest⟩ := undecided_later h
    rw [hturn, if_neg (fun hp => hnow ⟨hp.1, .inr hp.2⟩), if_neg (fun hp => hnow ⟨hp.1, .inl hp.2⟩),
      exec_bind]
    have hlen := (congrArg List.length (sample_readings he elapsed nextSample
      (r s.readings.length) t)).trans ht
    rw [← hlen] at hrest
    exact ih hrest _ _ _

end InitWait

namespace Boot

variable {e : Boot → Boot} {b : Boot}

/-- What `doneAndWaitTargetInit` makes of the last reading. -/
def verdict (val : UInt32) : Bool :=
  decide (val ≠ 0xffffffff ∧ val &&& kFwIndEventPending = 0 ∧ val &&& kFwIndInitialized ≠ 0)

theorem doneAndWait_eq : doneAndWaitTargetInit = (onHost Bmi.done).bind fun ok =>
    if (!ok) = true then .ret false
    else (pollIndicator (pollDeadline 3000) 0).bind fun val => .ret (verdict val) := by
  have hverdict (val : UInt32) : (if val = 0xffffffff then (.ret false : Prog Boot Bool)
      else if val &&& kFwIndEventPending ≠ 0 then .ret false
      else if val &&& kFwIndInitialized = 0 then .ret false else .ret true) =
        .ret (verdict val) := by
    split_ifs with hlive hevent hinit
    · exact congrArg _ (decide_eq_false fun h => h.1 hlive).symm
    · exact congrArg _ (decide_eq_false fun h => hevent h.2.1).symm
    · exact congrArg _ (decide_eq_false fun h => h.2.2 hinit).symm
    · exact congrArg _ (decide_eq_true ⟨hlive, not_not.1 hevent, hinit⟩).symm
  simp only [doneAndWaitTargetInit, bind_eq_bind, pure_eq_ret, hverdict]

theorem onHost_readings (he : Shows r e) (p : Prog Host α) (b : Boot) :
    (exec e (onHost p) b).2.readings = b.readings := by
  induction p generalizing b with
  | ret a => rfl
  | op u n ih => exact (ih _ _).trans (he b).1

/-- One turn of the loop. -/
theorem exec_pollIndicator (he : Shows r e) (b : Boot) (n : Nat) (val : UInt32) :
    ∃ c, c.readings.length = b.readings.length + 1 ∧
      (exec e (pollIndicator (n + 1) val) b).1 =
        if Decisive (r b.readings.length) then r b.readings.length
        else (exec e (pollIndicator n (r b.readings.length)) c).1 := by
  refine ⟨{ e b with readings := (e b).readings ++ [(e b).fwIndicator] }, ?_, ?_⟩
  · rw [List.length_append, (he b).1]
    rfl
  · simp only [pollIndicator, readIndicator, bind_eq_bind, Prog.op_bind, Prog.ret_bind, exec_op,
      pure_eq_ret, (he b).2]
    by_cases hlive : r b.readings.length = 0xffffffff
    · rw [if_pos hlive, if_neg (fun h => h.1 hlive)]
    rw [if_neg hlive]
    by_cases hevent : r b.readings.length &&& kFwIndEventPending ≠ 0
    · rw [if_pos hevent, if_pos ⟨hlive, .inl hevent⟩]
      rfl
    rw [if_neg hevent]
    by_cases hinit : r b.readings.length &&& kFwIndInitialized ≠ 0
    · rw [if_pos hinit, if_pos ⟨hlive, .inr hinit⟩]
      rfl
    · rw [if_neg hinit, if_neg (fun h => h.2.elim hevent hinit)]

theorem pollIndicator_decides (he : Shows r e) (hi : i < n)
    (h : FirstDecisive r b.readings.length i) (val : UInt32) :
    (exec e (pollIndicator n val) b).1 = r (b.readings.length + i) := by
  induction n generalizing i b val with
  | zero => cases hi
  | succ n ih =>
    obtain ⟨c, hc, hturn⟩ := exec_pollIndicator he b n val
    rw [hturn]
    cases i with
    | zero => exact if_pos h.now
    | succ i =>
      obtain ⟨hnow, hrest⟩ := h.later
      rw [← hc] at hrest
      rw [if_neg hnow, ih (Nat.lt_of_succ_lt_succ hi) hrest, hc, Nat.add_right_comm]
      rfl

theorem verdict_undecided (h : ¬ Decisive val) : verdict val = false :=
  decide_eq_false fun hv => h ⟨hv.1, .inr hv.2.2⟩

theorem pollIndicator_undecided (he : Shows r e)
    (h : ∀ k < n, ¬ Decisive (r (b.readings.length + k))) (hval : ¬ Decisive val) :
    ¬ Decisive (exec e (pollIndicator n val) b).1 := by
  induction n generalizing b val with
  | zero => exact hval
  | succ n ih =>
    obtain ⟨c, hc, hturn⟩ := exec_pollIndicator he b n val
    obtain ⟨hnow, hrest⟩ := undecided_later h
    rw [← hc] at hrest
    rw [hturn, if_neg hnow]
    exact ih hrest hnow

/-- The wait behind a BMI_DONE that has been sent. -/
theorem doneAndWait_verdict (he : Shows r e) (hb : b.readings = [])
    (hdone : (exec e (onHost Bmi.done) b).1 = true) :
    ∃ c, c.readings.length = 0 ∧ (exec e doneAndWaitTargetInit b).1 =
      verdict (exec e (pollIndicator (pollDeadline 3000) 0) c).1 := by
  refine ⟨(exec e (onHost Bmi.done) b).2, ?_, ?_⟩
  · rw [onHost_readings he, hb]
    rfl
  · rw [doneAndWait_eq, exec_bind, hdone]
    simp only [Bool.not_true, Bool.false_eq_true, if_false, exec_bind, exec_ret]

end Boot

/-- A crash and an announcement in one reading. -/
def BothBits (x : UInt32) : Prop := x &&& kFWIndEventPending ≠ 0 ∧ x &&& kFWIndInitialized ≠ 0

/-- The environment that only lets FW_INDICATOR read as `r k` at the `k`-th reading. -/
def InitWait.showing (r : Nat → UInt32) (s : InitWait) : InitWait :=
  { s with fwIndicator := r s.readings.length }

def freshWait : InitWait := ⟨0, 3, [], [], []⟩

theorem driver_decides {e : InitWait → InitWait} {s : InitWait} (he : InitWait.Shows r e)
    (hs : s.readings = []) (hi : i < kTargetInitTimeout_ms / kTargetInitStep_ms)
    (h : FirstDecisive r 0 i) :
    (exec e InitWait.waitForTargetInit s).1 = decide (r i &&& kFWIndInitialized ≠ 0) := by
  have hlen : s.readings.length = 0 := congrArg List.length hs
  rw [← hlen] at h
  rw [InitWait.waitForTargetInit, InitWait.pollInit_decides he hi h, hlen, Nat.zero_add]

theorem fw_decides {e : Boot → Boot} {b : Boot} (he : Boot.Shows r e) (hb : b.readings = [])
    (hdone : (exec e (Boot.onHost Bmi.done) b).1 = true) (hi : i < pollDeadline 3000)
    (h : FirstDecisive r 0 i) :
    (exec e Boot.doneAndWaitTargetInit b).1 = Boot.verdict (r i) := by
  obtain ⟨c, hlen, hret⟩ := Boot.doneAndWait_verdict he hb hdone
  rw [← hlen] at h
  rw [hret, Boot.pollIndicator_decides he hi h, hlen, Nat.zero_add]

/-- The two waits agree on every sequence of readings whose first decisive one does not have both
bits set. -/
theorem sameVerdict_iff (r : Nat → UInt32) : SameVerdict r ↔
    ¬ ∃ i < kTargetInitTimeout_ms / kTargetInitStep_ms, FirstDecisive r 0 i ∧ BothBits (r i) := by
  have hbudget : kTargetInitTimeout_ms / kTargetInitStep_ms ≤ pollDeadline 3000 := by decide
  constructor
  · rintro h ⟨i, hi, hfirst, hevent, hinit⟩
    have he : InitWait.Shows r (InitWait.showing r) := fun s => ⟨rfl, rfl⟩
    have hclaim := (h.decided i hi (hi.trans_le hbudget) hfirst).1 _ freshWait he rfl
    rw [driver_decides he rfl hi hfirst, decide_eq_true hinit] at hclaim
    exact hevent (of_decide_eq_true hclaim.symm).2
  · intro h
    have hdecided (i : Nat) (hi : i < kTargetInitTimeout_ms / kTargetInitStep_ms)
        (hfirst : FirstDecisive r 0 i) :
        Announced (r i) ↔ r i &&& kFWIndInitialized ≠ 0 := by
      refine ⟨And.left, fun hinit => ⟨hinit, ?_⟩⟩
      by_contra hevent
      exact h ⟨i, hi, hfirst, hevent, hinit⟩
    refine ⟨fun i hi hi' hfirst => ⟨fun e s he hs => ?_, fun e b he hb hdone => ?_⟩, ?_, ?_⟩
    · rw [driver_decides he hs hi hfirst, decide_eq_decide, hdecided i hi hfirst]
    · have hlive : r i ≠ 0xffffffff := by
        have hdec : Decisive (r (0 + i)) := hfirst.1
        rw [Nat.zero_add] at hdec
        exact hdec.1
      rw [fw_decides he hb hdone hi' hfirst, Boot.verdict, decide_eq_decide]
      exact ⟨fun hv => ⟨hv.2.2, hv.2.1⟩, fun hv => ⟨hlive, hv.2, hv.1⟩⟩
    · intro hnone e s he hs
      apply InitWait.pollInit_undecided he
      rw [hs]
      exact fun k hk => (Nat.zero_add k).symm ▸ hnone k hk
    · intro hnone e b he hb hdone
      obtain ⟨c, hlen, hret⟩ := Boot.doneAndWait_verdict he hb hdone
      rw [hret]
      apply Boot.verdict_undecided
      apply Boot.pollIndicator_undecided he
      · rw [hlen]
        exact fun k hk => (Nat.zero_add k).symm ▸ hnone k hk
      · decide

/-- The engine consumes what is sent, and FW_INDICATOR reads 3. -/
def crashedBoot (b : Boot) : Boot :=
  { b with
    host := b.host.setCtrl (b.host.fCtrl.setSrc b.host.fCtrl.src.eager)
    fwIndicator := 3 }

def freshBoot : Boot := ⟨freshHost, 0, [], [], true⟩

/-- A target that has crashed right after its announcement: the driver takes it for initialised,
the firmware loader does not. -/
theorem both_bits_disagree :
    ¬ SameVerdict (fun _ => 3) ∧ FirstDecisive (fun _ => 3) 0 0 ∧
      (exec (InitWait.showing fun _ => 3) InitWait.waitForTargetInit freshWait).1 = true ∧
      (exec crashedBoot (Boot.onHost Bmi.done) freshBoot).1 = true ∧
      (exec crashedBoot Boot.doneAndWaitTargetInit freshBoot).1 = false := by
  have hfirst : FirstDecisive (fun _ => 3) 0 0 := ⟨by decide, nofun⟩
  have he : InitWait.Shows (fun _ => 3) (InitWait.showing fun _ => 3) := fun s => ⟨rfl, rfl⟩
  have hdriver := driver_decides (s := freshWait) he rfl (by decide) hfirst
  have hdone : (exec crashedBoot (Boot.onHost Bmi.done) freshBoot).1 = true := by decide +kernel
  have hcrashed : Boot.Shows (fun _ => 3) crashedBoot := fun b => ⟨rfl, rfl⟩
  have hfw := fw_decides hcrashed rfl hdone (by decide) hfirst
  refine ⟨fun h => ?_, hfirst, hdriver, hdone, hfw⟩
  have hclaim := (h.decided 0 (by decide) (by decide) hfirst).1 _ freshWait he rfl
  exact absurd (hclaim.symm.trans hdriver) (by decide)

end Qca9377
