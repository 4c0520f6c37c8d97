import Qca9377.ResetRuns

namespace Qca9377
open Bytes Interleaving
set_option autoImplicit true

/-- RTC_STATE shows the target awake. -/
def Awake (state : UInt32) : Prop := state &&& 0x00000007 = kRTCStateValOn

instance (state : UInt32) : Decidable (Awake state) := inferInstanceAs (Decidable (_ = _))

/-- The delay of `wakeTarget` behind its `k`-th reading. -/
def wakeDelay (k : Nat) : Nat := min kWakeStepMax_us (kWakeStepStart_us + 5 * k)

/-- The time that has passed at its `k`-th reading. -/
def wakeElapsed : Nat → Nat
  | 0 => 0
  | k + 1 => wakeElapsed k + wakeDelay k

/-- The readings that fit into its budget. -/
def kWakeReadings : Nat := 605

/-- Readings from the `k`-th on, each with the delay behind it. -/
def asleep (k : Nat) : List (UInt32 × UInt32) → RegTrace
  | [] => []
  | (state, a) :: rs =>
    (.read32 (kPCIe_LocalBaseAddress + 0x00000000), state) :: (.IODelay (wakeDelay k), a) ::
      asleep (k + 1) rs

theorem nextStep_delay (k : Nat) : Reset.nextStep (wakeDelay k) = wakeDelay (k + 1) := by
  rw [Reset.nextStep]
  split
  · next h =>
    change min 50 (5 + 5 * k) < 50 at h
    change min 50 (5 + 5 * k) + 5 = min 50 (5 + 5 * (k + 1))
    omega
  · next h =>
    change ¬ min 50 (5 + 5 * k) < 50 at h
    change min 50 (5 + 5 * k) = min 50 (5 + 5 * (k + 1))
    omega

/-- The delay has grown to its maximum. -/
theorem wakeElapsed_late (j : Nat) : wakeElapsed (9 + j) = 225 + 50 * j := by
  induction j with
  | zero => rfl
  | succ j ih =>
    have hmax : wakeDelay (9 + j) = 50 := by
      simp only [wakeDelay, kWakeStepMax_us, kWakeStepStart_us]
      omega
    rw [← Nat.add_assoc, wakeElapsed, ih, hmax]
    omega

theorem wakeElapsed_mono (h : k ≤ m) : wakeElapsed k ≤ wakeElapsed m := by
  induction h with
  | refl => exact Nat.le_refl _
  | step _ ih => exact ih.trans (Nat.le_add_right _ _)

theorem wakeElapsed_lt (k : Nat) : wakeElapsed k < kWakeTimeout_us ↔ k < kWakeReadings := by
  have hlast : wakeElapsed 604 = 29975 := wakeElapsed_late 595
  have hover : wakeElapsed 605 = 30025 := wakeElapsed_late 596
  simp only [kWakeTimeout_us, kWakeReadings]
  constructor
  · intro h
    apply Nat.lt_of_not_le
    intro hk
    have hmono := hover ▸ wakeElapsed_mono hk
    omega
  · intro h
    have hmono := hlast ▸ wakeElapsed_mono (Nat.le_of_lt_succ h)
    omega

namespace Reset

theorem pollAwake_poll (hstep : 0 < step) (hlt : elapsed < kWakeTimeout_us) :
    pollAwake elapsed step hstep =
      .call (.read32 (kPCIe_LocalBaseAddress + 0x00000000)) fun state =>
        if Awake state then .ret true
        else .call (.IODelay step) fun _ =>
          pollAwake (elapsed + step) (nextStep step) (nextStep_pos hstep) := by
  rw [pollAwake, dif_pos hlt]
  simp only [isAwake, read32, IODelay, Calls.bind_eq_bind, Calls.make_bind, Calls.bind,
    order_bind, Calls.pure_eq_ret, decide_eq_true_eq]
  rfl

/-- The loop of `wakeTarget` from its `k`-th reading on: so many readings in vain, and one that
shows the target awake or the end of the budget. -/
theorem pollAwake_ran (hstep : 0 < step) (helapsed : elapsed = wakeElapsed k)
    (hdelay : step = wakeDelay k) (hk : k ≤ kWakeReadings) :
    (pollAwake elapsed step hstep).Ran l ok ↔ ∃ rs, (∀ r ∈ rs, ¬ Awake r.1) ∧
      ((ok = true ∧ k + rs.length < kWakeReadings ∧ ∃ state, Awake state ∧
          l = asleep k rs ++ [(.read32 (kPCIe_LocalBaseAddress + 0x00000000), state)]) ∨
        (ok = false ∧ k + rs.length = kWakeReadings ∧ l = asleep k rs)) := by
  induction elapsed, step, hstep using pollAwake.induct generalizing k l with
  | case1 elapsed step hstep hlt ih =>
    have hbelow : k < kWakeReadings := (wakeElapsed_lt k).1 (helapsed ▸ hlt)
    have hnext (l : RegTrace) := ih (k := k + 1) (l := l) (helapsed ▸ hdelay ▸ rfl)
      (hdelay ▸ nextStep_delay k) hbelow
    rw [pollAwake_poll hstep hlt]
    constructor
    · intro h
      obtain ⟨state, l₁, rfl, h₁⟩ := h.of_call
      by_cases hawake : Awake state
      · rw [if_pos hawake] at h₁
        obtain ⟨rfl, rfl⟩ := h₁.of_ret
        exact ⟨[], fun r hr => absurd hr List.not_mem_nil, .inl ⟨rfl, hbelow, state, hawake, rfl⟩⟩
      · rw [if_neg hawake] at h₁
        obtain ⟨a, l₂, rfl, h₂⟩ := h₁.of_call
        obtain ⟨rs, hrs, hend⟩ := (hnext l₂).1 h₂
        refine ⟨(state, a) :: rs, List.forall_mem_cons.2 ⟨hawake, hrs⟩, ?_⟩
        rw [List.length_cons, Nat.add_comm rs.length, ← Nat.add_assoc, asleep, hdelay]
        rcases hend with ⟨rfl, hlen, last, hlast, rfl⟩ | ⟨rfl, hlen, rfl⟩
        · exact .inl ⟨rfl, hlen, last, hlast, rfl⟩
        · exact .inr ⟨rfl, hlen, rfl⟩
    · intro h
      obtain ⟨rs, hrs, hend⟩ := h
      cases rs with
      | nil =>
        rcases hend with ⟨rfl, _, state, hawake, rfl⟩ | ⟨_, hlen, _⟩
        · apply Calls.Ran.call
          rw [if_pos hawake]
          exact .ret
        · exact absurd hlen hbelow.ne
      | cons r rs =>
        obtain ⟨state, a⟩ := r
        obtain ⟨hasleep, hrs⟩ := List.forall_mem_cons.1 hrs
        rw [List.length_cons, Nat.add_comm rs.length, ← Nat.add_assoc, asleep, ← hdelay] at hend
        rcases hend with ⟨rfl, hlen, last, hlast, rfl⟩ | ⟨rfl, hlen, rfl⟩
        · apply Calls.Ran.call
          rw [if_neg hasleep]
          exact .call ((hnext _).2 ⟨rs, hrs, .inl ⟨rfl, hlen, last, hlast, rfl⟩⟩)
        · apply Calls.Ran.call
          rw [if_neg hasleep]
          exact .call ((hnext _).2 ⟨rs, hrs, .inr ⟨rfl, hlen, rfl⟩⟩)
  | case2 elapsed step hstep hlt =>
    have hlast : k = kWakeReadings := by
      apply le_antisymm hk
      apply Nat.le_of_not_lt
      intro hlt'
      exact hlt (helapsed ▸ (wakeElapsed_lt k).2 hlt')
    rw [pollAwake, dif_neg hlt]
    constructor
    · intro h
      obtain ⟨rfl, rfl⟩ := h.of_ret
      exact ⟨[], fun r hr => absurd hr List.not_mem_nil, .inr ⟨rfl, hlast, rfl⟩⟩
    · intro h
      obtain ⟨rs, hrs, ⟨_, hlen, _⟩ | ⟨rfl, hlen, rfl⟩⟩ := h
      · omega
      · have hnil : rs = [] := List.length_eq_zero_iff.1 (by omega)
        subst hnil
        exact .ret

end Reset

/-- A wake request, and readings up to one that shows the target awake or to the end of the
budget. -/
inductive WakeRun : RegTrace → Bool → Prop
  | awake (hrs : ∀ r ∈ rs, ¬ Awake r.1) (hlen : rs.length < kWakeReadings) (hstate : Awake state) :
      WakeRun ((.write32 kPCIe_SOCWake_Offset 1, a) :: (asleep 0 rs ++
        [(.read32 (kPCIe_LocalBaseAddress + 0x00000000), state)])) true
  | gaveUp (hrs : ∀ r ∈ rs, ¬ Awake r.1) (hlen : rs.length = kWakeReadings) :
      WakeRun ((.write32 kPCIe_SOCWake_Offset 1, a) :: asleep 0 rs) false

/-- The delay, in microseconds, that a call asks for. -/
def RegCall.delay : RegCall → Nat
  | .IODelay us => us
  | .IOSleep ms => 1000 * ms
  | _ => 0

/-- The time that the calls wait for, in microseconds. -/
def programmed (l : RegTrace) : Nat := (l.map fun c => c.1.delay).sum

@[simp] theorem programmed_nil : programmed [] = 0 := rfl

@[simp] theorem programmed_cons (c : RegCall × UInt32) (l : RegTrace) :
    programmed (c :: l) = c.1.delay + programmed l := List.sum_cons

@[simp] theorem programmed_append (l₁ l₂ : RegTrace) :
    programmed (l₁ ++ l₂) = programmed l₁ + programmed l₂ := by
  rw [programmed, List.map_append, List.sum_append]
  rfl

theorem programmed_asleep (k : Nat) (rs : List (UInt32 × UInt32)) :
    wakeElapsed k + programmed (asleep k rs) = wakeElapsed (k + rs.length) := by
  induction rs generalizing k with
  | nil =>
    rw [asleep, programmed_nil]
    rfl
  | cons r rs ih =>
    rw [List.length_cons, Nat.add_comm rs.length, ← Nat.add_assoc, ← ih, asleep, wakeElapsed]
    simp [RegCall.delay, Nat.add_assoc]

theorem wakeElapsed_end : wakeElapsed 604 = 29975 ∧ wakeElapsed kWakeReadings = 30025 :=
  ⟨wakeElapsed_late 595, wakeElapsed_late 596⟩

theorem WakeRun.awake_time (h : WakeRun l true) : programmed l ≤ 29975 := by
  cases h with
  | awake hrs hlen hstate =>
    rename_i rs state a
    have htime := programmed_asleep 0 rs
    have hmono := wakeElapsed_end.1 ▸ wakeElapsed_mono (Nat.le_of_lt_succ hlen)
    rw [Nat.zero_add] at htime
    simp only [programmed_cons, programmed_append, programmed_nil, RegCall.delay]
    simp only [wakeElapsed] at htime
    omega

theorem WakeRun.gaveUp_time (h : WakeRun l false) : programmed l = 30025 := by
  cases h with
  | gaveUp hrs hlen =>
    rename_i rs a
    have htime := programmed_asleep 0 rs
    rw [Nat.zero_add, hlen, wakeElapsed_end.2] at htime
    simp only [wakeElapsed] at htime
    simp only [programmed_cons, RegCall.delay]
    omega

theorem wakeTarget_ran : Reset.wakeTarget.Ran l ok ↔ WakeRun l ok := by
  have hstart : kWakeStepStart_us = wakeDelay 0 := rfl
  rw [Reset.wakeTarget, Reset.write32, Calls.bind_eq_bind, Reset.order_bind]
  constructor
  · intro h
    obtain ⟨a, l₁, rfl, h₁⟩ := h.of_call
    obtain ⟨rs, hrs, ⟨rfl, hlen, state, hstate, rfl⟩ | ⟨rfl, hlen, rfl⟩⟩ :=
      (Reset.pollAwake_ran (k := 0) _ rfl hstart (Nat.zero_le _)).1 h₁
    · rw [Nat.zero_add] at hlen
      exact .awake hrs hlen hstate
    · rw [Nat.zero_add] at hlen
      exact .gaveUp hrs hlen
  · intro h
    cases h with
    | awake hrs hlen hstate =>
      rw [← Nat.zero_add (List.length _)] at hlen
      exact .call ((Reset.pollAwake_ran (k := 0) _ rfl hstart (Nat.zero_le _)).2
        ⟨_, hrs, .inl ⟨rfl, hlen, _, hstate, rfl⟩⟩)
    | gaveUp hrs hlen =>
      exact .call ((Reset.pollAwake_ran (k := 0) _ rfl hstart (Nat.zero_le _)).2
        ⟨_, hrs, .inr ⟨rfl, (Nat.zero_add _).trans hlen, rfl⟩⟩)

/-- All runs of `wakeTarget`, and the time that they take. -/
theorem wakeTarget_runs (l : RegTrace) (ok : Bool) :
    (Reset.wakeTarget.Ran l ok ↔ WakeRun l ok) ∧
      (WakeRun l true → programmed l ≤ 29975) ∧ (WakeRun l false → programmed l = 30025) :=
  ⟨wakeTarget_ran, WakeRun.awake_time, WakeRun.gaveUp_time⟩

/-- Polls that decide nothing, from the `k`-th to the `m`-th, with the value read before and after
them; every hundredth one is published, and RTC_STATE with it. -/
inductive Undecided : Nat → UInt32 → RegTrace → Nat → UInt32 → Prop
  | none : Undecided k last [] k last
  | poll (hx : ¬ Decisive x) (hk : k % 100 ≠ 0) (h : Undecided (k + 1) x l m last') :
      Undecided k last
        ((.read32 kFWIndicatorAddress, x) :: (.IOSleep kTargetInitStep_ms, a) :: l) m last'
  | sample (hx : ¬ Decisive x) (hk : k % 100 = 0) (h : Undecided (k + 1) x l m last') :
      Undecided k last
        ((.read32 kFWIndicatorAddress, x) :: (.publishNum s!"fw-ind-s{k / 100}" x, a) ::
          (.read32 kPCIe_LocalBaseAddress, y) ::
          (.publishNum s!"rtc-s{k / 100}" (y &&& kRTCStateMaskSt), b) ::
          (.IOSleep kTargetInitStep_ms, c) :: l) m last'

/-- The polls of `waitForTargetInit`. -/
def kInitPolls : Nat := kTargetInitTimeout_ms / kTargetInitStep_ms

/-- The end of a wait at its `k`-th poll. -/
inductive InitEnd (k : Nat) (last : UInt32) : RegTrace → Bool → Prop
  | initialised (hk : k < kInitPolls) (hx : Decisive x) (hinit : x &&& kFWIndInitialized ≠ 0) :
      InitEnd k last [(.read32 kFWIndicatorAddress, x), (.publishNum "fw-indicator" x, a),
        (.qlog (.waited (.initialised (kTargetInitStep_ms * k) x)), b)] true
  | pending (hk : k < kInitPolls) (hx : Decisive x) (hinit : x &&& kFWIndInitialized = 0) :
      InitEnd k last [(.read32 kFWIndicatorAddress, x), (.publishNum "fw-ind-last" x, a),
        (.qlog (.waited (.timedOut x)), b)] false
  | timedOut (hk : k = kInitPolls) : InitEnd k last [(.publishNum "fw-ind-last" last, a),
      (.qlog (.waited (.timedOut last)), b)] false

/-- A wait for the target, from its `k`-th poll on. -/
def InitRun (k : Nat) (last : UInt32) (l : RegTrace) (ok : Bool) : Prop :=
  ∃ l₁ m last' l₂, Undecided k last l₁ m last' ∧ InitEnd m last' l₂ ok ∧ l = l₁ ++ l₂

theorem Undecided.le (h : Undecided k last l m last') : k ≤ m := by
  induction h with
  | none => exact Nat.le_refl _
  | poll _ _ _ ih => exact Nat.le_of_succ_le ih
  | sample _ _ _ ih => exact Nat.le_of_succ_le ih

theorem InitEnd.le (h : InitEnd k last l ok) : k ≤ kInitPolls := by
  cases h with
  | initialised hk => exact hk.le
  | pending hk => exact hk.le
  | timedOut hk => exact hk.le

namespace Reset

theorem initTimedOut_ran : (initTimedOut last).Ran l ok ↔ ok = false ∧
    ∃ a b, l = [(.publishNum "fw-ind-last" last, a), (.qlog (.waited (.timedOut last)), b)] := by
  rw [initTimedOut, Calls.bind_eq_bind, publishNum, order_bind]
  constructor
  · intro h
    obtain ⟨a, l₁, rfl, h₁⟩ := h.of_call
    obtain ⟨b, l₂, rfl, h₂⟩ := Calls.Ran.of_call h₁
    obtain ⟨rfl, rfl⟩ := h₂.of_ret
    exact ⟨rfl, a, b, rfl⟩
  · intro h
    obtain ⟨rfl, a, b, rfl⟩ := h
    exact .call (.call .ret)

/-- When the next samples are due at the `k`-th poll. -/
def nextDue (k : Nat) : Nat := kTargetInitSample_ms * ((k + 99) / 100)

theorem initSample_ran {next : Nat → Regs Bool} :
    ((initSample (kTargetInitStep_ms * k) (nextDue k) x).bind next).Ran l ok ↔
      (k % 100 ≠ 0 ∧ (next (nextDue (k + 1))).Ran l ok) ∨
      (k % 100 = 0 ∧ ∃ a rtc b l', l = (.publishNum s!"fw-ind-s{k / 100}" x, a) ::
          (.read32 kPCIe_LocalBaseAddress, rtc) ::
          (.publishNum s!"rtc-s{k / 100}" (rtc &&& kRTCStateMaskSt), b) :: l' ∧
        (next (nextDue (k + 1))).Ran l' ok) := by
  by_cases hk : k % 100 = 0
  · have hdue : ¬ kTargetInitStep_ms * k < nextDue k := by
      simp only [kTargetInitStep_ms, nextDue, kTargetInitSample_ms]
      omega
    have hindex : nextDue k / 1000 = k / 100 := by
      simp only [nextDue, kTargetInitSample_ms]
      omega
    have hnext : nextDue k + kTargetInitSample_ms = nextDue (k + 1) := by
      simp only [nextDue, kTargetInitSample_ms]
      omega
    rw [initSample, if_neg hdue, hindex, hnext]
    constructor
    · intro h
      obtain ⟨a, l₁, rfl, h₁⟩ := Calls.Ran.of_call h
      obtain ⟨rtc, l₂, rfl, h₂⟩ := Calls.Ran.of_call h₁
      obtain ⟨b, l₃, rfl, h₃⟩ := Calls.Ran.of_call h₂
      exact .inr ⟨hk, a, rtc, b, l₃, rfl, h₃⟩
    · intro h
      obtain ⟨hno, _⟩ | ⟨_, a, rtc, b, l', rfl, h'⟩ := h
      · exact absurd hk hno
      · exact .call (.call (.call h'))
  · have hdue : kTargetInitStep_ms * k < nextDue k := by
      simp only [kTargetInitStep_ms, nextDue, kTargetInitSample_ms]
      omega
    have hnext : nextDue k = nextDue (k + 1) := by
      simp only [nextDue, kTargetInitSample_ms]
      omega
    rw [initSample, if_pos hdue, hnext]
    constructor
    · exact fun h => .inl ⟨hk, h⟩
    · intro h
      obtain ⟨_, h'⟩ | ⟨hyes, _⟩ := h
      · exact h'
      · exact absurd hyes hk

theorem undecided_cases (x : UInt32) :
    (Decisive x ∧ x &&& kFWIndInitialized ≠ 0 ∧ (x ≠ 0xffffffff ∧ x &&& kFWIndInitialized ≠ 0)) ∨
      (Decisive x ∧ x &&& kFWIndInitialized = 0 ∧
        ¬ (x ≠ 0xffffffff ∧ x &&& kFWIndInitialized ≠ 0) ∧
        (x ≠ 0xffffffff ∧ x &&& kFWIndEventPending ≠ 0)) ∨
      (¬ Decisive x ∧ ¬ (x ≠ 0xffffffff ∧ x &&& kFWIndInitialized ≠ 0) ∧
        ¬ (x ≠ 0xffffffff ∧ x &&& kFWIndEventPending ≠ 0)) := by
  rw [Decisive]
  tauto

/-- What one poll does. -/
theorem pollInit_poll (n elapsed nextSample : Nat) (last : UInt32) :
    pollInit (n + 1) elapsed nextSample last = .call (.read32 kFWIndicatorAddress) fun val =>
      if val ≠ 0xffffffff ∧ val &&& kFWIndInitialized ≠ 0 then
        .call (.publishNum "fw-indicator" val) fun _ =>
          .call (.qlog (.waited (.initialised elapsed val))) fun _ => .ret true
      else if val ≠ 0xffffffff ∧ val &&& kFWIndEventPending ≠ 0 then initTimedOut val
      else (initSample elapsed nextSample val).bind fun next =>
        .call (.IOSleep kTargetInitStep_ms) fun _ =>
          pollInit n (elapsed + kTargetInitStep_ms) next val := rfl

/-- The loop of `waitForTargetInit` from its `k`-th poll on. -/
theorem pollInit_ran (hk : k + n = kInitPolls) :
    (pollInit n (kTargetInitStep_ms * k) (nextDue k) last).Ran l ok ↔ InitRun k last l ok := by
  induction n generalizing k last l with
  | zero =>
    rw [pollInit, initTimedOut_ran]
    constructor
    · intro h
      obtain ⟨rfl, a, b, rfl⟩ := h
      exact ⟨[], k, last, _, .none, .timedOut hk, rfl⟩
    · intro h
      obtain ⟨l₁, m, last', l₂, hun, hend, rfl⟩ := h
      cases hun with
      | none =>
        cases hend with
        | initialised hlt => exact absurd hk hlt.ne
        | pending hlt => exact absurd hk hlt.ne
        | timedOut => exact ⟨rfl, _, _, rfl⟩
      | poll _ _ hrest => exact absurd (hrest.le.trans hend.le) (by omega)
      | sample _ _ hrest => exact absurd (hrest.le.trans hend.le) (by omega)
  | succ n ih =>
    have hlt : k < kInitPolls := by omega
    have hsum : k + 1 + n = kInitPolls := by omega
    have hnext (x : UInt32) (l : RegTrace) :
        (pollInit n (kTargetInitStep_ms * k + kTargetInitStep_ms) (nextDue (k + 1)) x).Ran l ok ↔
          InitRun (k + 1) x l ok := ih hsum
    rw [pollInit_poll]
    constructor
    · intro h
      obtain ⟨x, l₁, rfl, h₁⟩ := h.of_call
      rcases undecided_cases x with ⟨hx, hinit, hyes⟩ | ⟨hx, hinit, hno, hyes⟩ | ⟨hx, hno, hno'⟩
      · rw [if_pos hyes] at h₁
        obtain ⟨a, l₂, rfl, h₂⟩ := h₁.of_call
        obtain ⟨b, l₃, rfl, h₃⟩ := h₂.of_call
        obtain ⟨rfl, rfl⟩ := h₃.of_ret
        exact ⟨[], k, last, _, .none, .initialised hlt hx hinit, rfl⟩
      · rw [if_neg hno, if_pos hyes] at h₁
        obtain ⟨rfl, a, b, rfl⟩ := initTimedOut_ran.1 h₁
        exact ⟨[], k, last, _, .none, .pending hlt hx hinit, rfl⟩
      · rw [if_neg hno, if_neg hno'] at h₁
        obtain ⟨hs, h₂⟩ | ⟨hs, a, rtc, b, l₂, rfl, h₂⟩ := initSample_ran.1 h₁
        · obtain ⟨c, l₃, rfl, h₃⟩ := h₂.of_call
          obtain ⟨l₄, m, last', l₅, hun, hend, rfl⟩ := (hnext x l₃).1 h₃
          exact ⟨_, m, last', l₅, .poll hx hs hun, hend, rfl⟩
        · obtain ⟨c, l₃, rfl, h₃⟩ := h₂.of_call
          obtain ⟨l₄, m, last', l₅, hun, hend, rfl⟩ := (hnext x l₃).1 h₃
          exact ⟨_, m, last', l₅, .sample hx hs hun, hend, rfl⟩
    · intro h
      obtain ⟨l₁, m, last', l₂, hun, hend, rfl⟩ := h
      cases hun with
      | none =>
        cases hend with
        | initialised _ hx hinit =>
          apply Calls.Ran.call
          rw [if_pos ⟨hx.1, hinit⟩]
          exact .call (.call .ret)
        | pending _ hx hinit =>
          apply Calls.Ran.call
          rw [if_neg fun hyes => hyes.2 hinit, if_pos ⟨hx.1, hx.2.resolve_right fun h => h hinit⟩]
          exact initTimedOut_ran.2 ⟨rfl, _, _, rfl⟩
        | timedOut hm => exact absurd hm hlt.ne
      | poll hx hs hrest =>
        apply Calls.Ran.call
        rw [if_neg fun hyes => hx ⟨hyes.1, .inr hyes.2⟩, if_neg fun hyes => hx ⟨hyes.1, .inl hyes.2⟩]
        exact initSample_ran.2 (.inl ⟨hs, .call ((hnext _ _).2 ⟨_, m, last', l₂, hrest, hend, rfl⟩)⟩)
      | sample hx hs hrest =>
        apply Calls.Ran.call
        rw [if_neg fun hyes => hx ⟨hyes.1, .inr hyes.2⟩, if_neg fun hyes => hx ⟨hyes.1, .inl hyes.2⟩]
        exact initSample_ran.2 (.inr ⟨hs, _, _, _, _, rfl,
          .call ((hnext _ _).2 ⟨_, m, last', l₂, hrest, hend, rfl⟩)⟩)

theorem waitForTargetInit_ran : waitForTargetInit.Ran l ok ↔ InitRun 0 0xffffffff l ok :=
  pollInit_ran (Nat.zero_add _)

end Reset

theorem Undecided.time (h : Undecided k last l m last') :
    10000 * k + programmed l = 10000 * m := by
  induction h with
  | none => rfl
  | poll _ _ _ ih =>
    rw [Nat.mul_succ] at ih
    simp only [programmed_cons, RegCall.delay, kTargetInitStep_ms]
    omega
  | sample _ _ _ ih =>
    rw [Nat.mul_succ] at ih
    simp only [programmed_cons, RegCall.delay, kTargetInitStep_ms]
    omega

theorem InitEnd.time (h : InitEnd k last l ok) : programmed l = 0 := by
  cases h with
  | initialised => rfl
  | pending => rfl
  | timedOut => rfl

theorem InitEnd.in_time (h : InitEnd k last l true) : k < kInitPolls := by
  cases h with
  | initialised hk => exact hk

theorem InitRun.time (h : InitRun 0 last l ok) : programmed l ≤ 10000000 := by
  obtain ⟨l₁, m, last', l₂, hun, hend, rfl⟩ := h
  have htime := hun.time
  have hm : m ≤ 1000 := hend.le
  rw [programmed_append, hend.time]
  omega

theorem InitRun.announced_time (h : InitRun 0 last l true) : programmed l ≤ 9990000 := by
  obtain ⟨l₁, m, last', l₂, hun, hend, rfl⟩ := h
  have htime := hun.time
  have hm : m < 1000 := hend.in_time
  rw [programmed_append, hend.time]
  omega

/-- All runs of `waitForTargetInit`, and the time that they take. -/
theorem waitForTargetInit_runs (l : RegTrace) (ok : Bool) :
    (Reset.waitForTargetInit.Ran l ok ↔ InitRun 0 0xffffffff l ok) ∧
      (InitRun 0 0xffffffff l true → programmed l ≤ 9990000) ∧
      (InitRun 0 0xffffffff l false → programmed l ≤ 10000000) :=
  ⟨Reset.waitForTargetInit_ran, InitRun.announced_time, InitRun.time⟩

/-- The calls of the wait, made on the two registers of `InitWait`. -/
def InitWait.send : RegCall → Prog InitWait UInt32
  | .read32 offset => if offset = kFWIndicatorAddress then readIndicator else read rtcState
  | .publishNum key val => (publishNum key val).bind fun _ => .ret 0
  | .qlog (.waited m) => (log m).bind fun _ => .ret 0
  | _ => .ret 0

theorem send_initTimedOut (last : UInt32) :
    (Reset.initTimedOut last).run InitWait.send = InitWait.timedOut last := rfl

theorem send_initSample (elapsed nextSample : Nat) (val : UInt32) :
    (Reset.initSample elapsed nextSample val).run InitWait.send =
      InitWait.sample elapsed nextSample val := by
  rw [Reset.initSample, InitWait.sample]
  split
  · rfl
  · rfl

theorem send_pollInit (n elapsed nextSample : Nat) (last : UInt32) :
    (Reset.pollInit n elapsed nextSample last).run InitWait.send =
      InitWait.pollInit n elapsed nextSample last := by
  induction n generalizing elapsed nextSample last with
  | zero => rfl
  | succ n ih =>
    rw [Reset.pollInit_poll, InitWait.pollInit, Calls.run, bind_eq_bind]
    congr 1
    funext val
    split
    · rfl
    · split
      · rfl
      · rw [Calls.run_bind, send_initSample]
        simp only [Calls.run, ih]
        rfl

/-- The wait on the registers is the one on the two registers of `InitWait`. -/
theorem send_waitForTargetInit :
    Reset.waitForTargetInit.run InitWait.send = InitWait.waitForTargetInit := send_pollInit ..

end Qca9377
