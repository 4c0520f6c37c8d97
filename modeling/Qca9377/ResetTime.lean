import Qca9377.ResetWaits

namespace Qca9377
open Bytes Interleaving
set_option autoImplicit true

/-- No run waits for longer than `n` microseconds. -/
def Fits (t : Regs α) (n : Nat) : Prop := ∀ l a, t.Ran l a → programmed l ≤ n

section Fits

theorem fits_ret (a : α) : Fits (.ret a : Regs α) n := by
  intro l b h
  cases h
  exact Nat.zero_le _

theorem fits_call {k : UInt32 → Regs α} (hk : ∀ r, Fits (k r) m) (hn : c.delay + m ≤ n) :
    Fits (.call c k) n := by
  intro l b h
  obtain ⟨r, l', rfl, h'⟩ := h.of_call
  rw [programmed_cons]
  exact (Nat.add_le_add_left (hk r l' b h') _).trans hn

theorem fits_bind {t : Regs α} {k : α → Regs β} (ht : Fits t c) (hk : ∀ a, Fits (k a) m)
    (hn : c + m ≤ n) : Fits (t.bind k) n := by
  intro l b h
  obtain ⟨l₁, a, l₂, rfl, h₁, h₂⟩ := h.of_bind
  rw [programmed_append]
  exact (Nat.add_le_add (ht l₁ a h₁) (hk a l₂ b h₂)).trans hn

/-- What costs no time. -/
theorem fits_free {k : UInt32 → Regs α} (hc : c.delay = 0) (hk : ∀ r, Fits (k r) n) :
    Fits (.call c k) n := by
  apply fits_call hk
  rw [hc, Nat.zero_add]

theorem fits_order {k : Unit → Regs α} (hc : c.delay = 0) (hk : Fits (k ()) n) :
    Fits ((Reset.order c).bind k) n := fits_free hc fun _ => hk

/-- An operation that fails within `d` and succeeds within `c`. -/
theorem fits_check {t : Regs Bool} {next fail : Regs α} (htrue : ∀ l, t.Ran l true → programmed l ≤ c)
    (hfalse : ∀ l, t.Ran l false → programmed l ≤ d) (hnext : Fits next n) (hfail : Fits fail m)
    (hc : c + n ≤ N) (hd : d + m ≤ N) : Fits (t.bind fun ok => if !ok then fail else next) N := by
  intro l b h
  obtain ⟨l₁, ok, l₂, rfl, h₁, h₂⟩ := h.of_bind
  rw [programmed_append]
  cases ok with
  | false => exact (Nat.add_le_add (hfalse l₁ h₁) (hfail l₂ b h₂)).trans hd
  | true => exact (Nat.add_le_add (htrue l₁ h₁) (hnext l₂ b h₂)).trans hc

end Fits

namespace Reset

theorem fits_waitForTargetInit : Fits waitForTargetInit 10000000 :=
  fun _ _ h => (waitForTargetInit_ran.1 h).time

theorem fits_exit (key : String) (val : UInt32) :
    Fits ((publishNum key val).bind fun _ => .ret false) 0 := fits_order rfl (fits_ret false)

theorem fits_coldReset : Fits coldReset 40000 := by
  apply fits_free rfl
  intro v
  apply fits_free rfl
  intro _
  apply fits_free rfl
  intro _
  apply fits_call (m := 20000) _ (by decide)
  intro _
  apply fits_free rfl
  intro _
  apply fits_call (m := 0) _ (by decide)
  intro _
  apply fits_free rfl
  intro _
  exact fits_ret true

theorem fits_resetSi0 : Fits resetSi0 10000 := by
  apply fits_free rfl
  intro v
  apply fits_free rfl
  intro _
  exact fits_call (m := 0) (fun _ => fits_ret ()) (by decide)

theorem fits_warmResetCpu : Fits warmResetCpu 0 := by
  apply fits_free rfl
  intro _
  apply fits_free rfl
  intro v
  exact fits_free rfl fun _ => fits_ret ()

theorem fits_clearLfTimer : Fits clearLfTimer 0 := by
  apply fits_free rfl
  intro v
  exact fits_free rfl fun _ => fits_ret ()

theorem fits_resetCe : Fits resetCe 10000 := by
  apply fits_free rfl
  intro v
  apply fits_free rfl
  intro _
  apply fits_call (m := 0) _ (by decide)
  intro _
  exact fits_free rfl fun _ => fits_ret ()

theorem fits_ensureCE : Fits ensureCE 0 := fits_free rfl fun _ => fits_ret _

theorem fits_warmReset : Fits warmReset 20020000 := by
  apply fits_bind (m := 20010000) fits_resetSi0 _ (by decide)
  intro _
  apply fits_order rfl
  apply fits_bind (m := 20010000) fits_warmResetCpu _ (by decide)
  intro _
  apply fits_order rfl
  apply fits_check (fun l => fits_ensureCE l true) (fun l => fits_ensureCE l false) (n := 20010000)
    (m := 0) _ _ (by decide) (by decide)
  · apply fits_bind (m := 10010000) fits_waitForTargetInit _ (by decide)
    intro _
    apply fits_order rfl
    apply fits_bind (m := 10010000) fits_clearLfTimer _ (by decide)
    intro _
    apply fits_order rfl
    apply fits_bind (m := 10000000) fits_resetCe _ (by decide)
    intro _
    apply fits_order rfl
    apply fits_bind (m := 10000000) fits_warmResetCpu _ (by decide)
    intro _
    apply fits_order rfl
    apply fits_check (fun l => fits_ensureCE l true) (fun l => fits_ensureCE l false) (n := 10000000)
      (m := 0) _ _ (by decide) (by decide)
    · apply fits_check (fun l => fits_waitForTargetInit l true)
        (fun l => fits_waitForTargetInit l false) (n := 0) (m := 0) _ _ (by decide) (by decide)
      · exact fits_order rfl (fits_ret true)
      · exact fits_order rfl (fits_order rfl (fits_ret false))
    · exact fits_order rfl (fits_order rfl (fits_ret false))
  · exact fits_order rfl (fits_order rfl (fits_ret false))

theorem wakeTarget_true (l : RegTrace) (h : wakeTarget.Ran l true) : programmed l ≤ 29975 :=
  (wakeTarget_ran.1 h).awake_time

theorem wakeTarget_false (l : RegTrace) (h : wakeTarget.Ran l false) : programmed l ≤ 30025 :=
  (wakeTarget_ran.1 h).gaveUp_time.le

theorem fits_resetChip : Fits resetChip 30119950 := by
  apply fits_order rfl
  apply fits_check wakeTarget_true wakeTarget_false (n := 30089975) (m := 0) _ (fits_exit _ _)
    (by decide) (by decide)
  apply fits_check (fun l => fits_coldReset l true) (fun l => fits_coldReset l false)
    (n := 30049975) (m := 0) _ (fits_exit _ _) (by decide) (by decide)
  apply fits_check wakeTarget_true wakeTarget_false (n := 30020000) (m := 0) _ (fits_exit _ _)
    (by decide) (by decide)
  apply fits_check (fun l => fits_waitForTargetInit l true)
    (fun l => fits_waitForTargetInit l false) (n := 0) (m := 20020000) _ _ (by decide) (by decide)
  · exact fits_order rfl (fits_ret true)
  · apply fits_order rfl
    apply fits_free rfl
    intro chipId
    apply fits_order rfl
    apply fits_free rfl
    intro bar
    apply fits_order rfl
    apply fits_free rfl
    intro rtc
    apply fits_order rfl
    apply fits_bind (m := 0) fits_warmReset _ (by decide)
    intro warm
    cases warm with
    | false => exact fits_exit _ _
    | true => exact fits_order rfl (fits_ret true)

end Reset

/-- Some run with this result waits for exactly `n` microseconds. -/
def Takes (t : Regs α) (a : α) (n : Nat) : Prop := ∃ l, t.Ran l a ∧ programmed l = n

section Takes

theorem takes_ret (a : α) : Takes (.ret a : Regs α) a 0 := ⟨[], .ret, rfl⟩

theorem takes_bind {t : Regs α} {k : α → Regs β} (ht : Takes t a n) (hk : Takes (k a) b m) :
    Takes (t.bind k) b (n + m) := by
  obtain ⟨l₁, h₁, rfl⟩ := ht
  obtain ⟨l₂, h₂, rfl⟩ := hk
  exact ⟨l₁ ++ l₂, h₁.bind h₂, programmed_append l₁ l₂⟩

theorem takes_call {k : UInt32 → Regs α} (r : UInt32) (hk : Takes (k r) a n) :
    Takes (.call c k) a (c.delay + n) := by
  obtain ⟨l, hl, rfl⟩ := hk
  exact ⟨(c, r) :: l, .call hl, programmed_cons _ l⟩

/-- What costs no time and is answered with 0. -/
theorem takes_free {k : UInt32 → Regs α} (hc : c.delay = 0) (hk : Takes (k 0) a n) :
    Takes (.call c k) a n := by
  have hcall := takes_call (c := c) 0 hk
  rw [hc, Nat.zero_add] at hcall
  exact hcall

theorem takes_order {k : Unit → Regs α} (hc : c.delay = 0) (hk : Takes (k ()) a n) :
    Takes ((Reset.order c).bind k) a n := takes_free hc hk

end Takes

/-- Nothing but zeros is read. -/
theorem exists_undecided (n k : Nat) (last : UInt32) :
    ∃ l last', Undecided k last l (k + n) last' := by
  induction n generalizing k last with
  | zero => exact ⟨[], last, .none⟩
  | succ n ih =>
    obtain ⟨l, last', h⟩ := ih (k + 1) 0
    rw [Nat.add_assoc, Nat.add_comm 1] at h
    by_cases hk : k % 100 = 0
    · exact ⟨_, _, .sample (a := 0) (b := 0) (c := 0) (y := 0) (by decide) hk h⟩
    · exact ⟨_, _, .poll (a := 0) (by decide) hk h⟩

namespace Reset

theorem takes_waitForTargetInit : Takes waitForTargetInit false 10000000 := by
  obtain ⟨l, last', hun⟩ := exists_undecided kInitPolls 0 0xffffffff
  rw [Nat.zero_add] at hun
  refine ⟨_, waitForTargetInit_ran.2 ⟨l, _, last', _, hun, .timedOut (a := 0) (b := 0) rfl, rfl⟩, ?_⟩
  have htime := hun.time
  rw [programmed_append]
  exact (Nat.zero_add (programmed l)).symm.trans htime

theorem takes_wakeTarget : Takes wakeTarget true 29975 := by
  have hrs : ∀ r ∈ List.replicate 604 ((0, 0) : UInt32 × UInt32), ¬ Awake r.1 := by
    intro r hr
    rw [List.eq_of_mem_replicate hr]
    decide
  have hlen : (List.replicate 604 ((0, 0) : UInt32 × UInt32)).length = 604 := List.length_replicate
  have hlt : (List.replicate 604 ((0, 0) : UInt32 × UInt32)).length < kWakeReadings := by
    rw [hlen]
    decide
  have hstate : Awake 3 := by decide
  refine ⟨_, wakeTarget_ran.2 (.awake (a := 0) hrs hlt hstate), ?_⟩
  have htime := programmed_asleep 0 (List.replicate 604 ((0, 0) : UInt32 × UInt32))
  rw [hlen, Nat.zero_add, wakeElapsed_end.1] at htime
  simp only [wakeElapsed] at htime
  simp only [programmed_cons, programmed_append, programmed_nil, RegCall.delay]
  omega

theorem takes_coldReset : Takes coldReset true 40000 := by
  apply takes_free rfl
  apply takes_free rfl
  apply takes_free rfl
  apply takes_call (n := 20000) 0
  apply takes_free rfl
  apply takes_call (n := 0) 0
  apply takes_free rfl
  exact takes_ret true

theorem takes_ensureCE : Takes ensureCE true 0 := ⟨[(.ensureCE, 1)], .call .ret, rfl⟩

theorem takes_resetSi0 : Takes resetSi0 () 10000 := by
  apply takes_free rfl
  apply takes_free rfl
  exact takes_call (n := 0) 0 (takes_ret ())

theorem takes_warmResetCpu : Takes warmResetCpu () 0 := by
  apply takes_free rfl
  apply takes_free rfl
  exact takes_free rfl (takes_ret ())

theorem takes_clearLfTimer : Takes clearLfTimer () 0 := by
  apply takes_free rfl
  exact takes_free rfl (takes_ret ())

theorem takes_resetCe : Takes resetCe () 10000 := by
  apply takes_free rfl
  apply takes_free rfl
  apply takes_call (n := 0) 0
  exact takes_free rfl (takes_ret ())

theorem takes_warmReset : Takes warmReset false 20020000 := by
  apply takes_bind (n := 10000) (m := 20010000) takes_resetSi0
  apply takes_order rfl
  apply takes_bind (n := 0) (m := 20010000) takes_warmResetCpu
  apply takes_order rfl
  apply takes_bind (n := 0) (m := 20010000) takes_ensureCE
  apply takes_bind (n := 10000000) (m := 10010000) takes_waitForTargetInit
  apply takes_order rfl
  apply takes_bind (n := 0) (m := 10010000) takes_clearLfTimer
  apply takes_order rfl
  apply takes_bind (n := 10000) (m := 10000000) takes_resetCe
  apply takes_order rfl
  apply takes_bind (n := 0) (m := 10000000) takes_warmResetCpu
  apply takes_order rfl
  apply takes_bind (n := 0) (m := 10000000) takes_ensureCE
  apply takes_bind (n := 10000000) (m := 0) takes_waitForTargetInit
  exact takes_order rfl (takes_order rfl (takes_ret false))

theorem takes_resetChip : Takes resetChip false 30119950 := by
  apply takes_order rfl
  apply takes_bind (n := 29975) (m := 30089975) takes_wakeTarget
  apply takes_bind (n := 40000) (m := 30049975) takes_coldReset
  apply takes_bind (n := 29975) (m := 30020000) takes_wakeTarget
  apply takes_bind (n := 10000000) (m := 20020000) takes_waitForTargetInit
  apply takes_order rfl
  apply takes_free rfl
  apply takes_order rfl
  apply takes_free rfl
  apply takes_order rfl
  apply takes_free rfl
  apply takes_order rfl
  apply takes_bind (n := 20020000) (m := 0) takes_warmReset
  exact takes_order rfl (takes_ret false)

end Reset

/-- The longest that the reset of the chip can wait, in microseconds. -/
theorem resetChip_time :
    (∀ l ok, Reset.resetChip.Ran l ok → programmed l ≤ 30119950) ∧
      ∃ l, Reset.resetChip.Ran l false ∧ programmed l = 30119950 :=
  ⟨Reset.fits_resetChip, Reset.takes_resetChip⟩

end Qca9377
