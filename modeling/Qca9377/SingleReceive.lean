import Qca9377.ControlPath
import Qca9377.Htc

namespace Qca9377
open Bytes Interleaving
set_option autoImplicit true

variable {D : List (List UInt8) → DstRing → List UInt8 → Prop} {d e : DstRing}

/-- `n` entries of the ring are posted and not taken. -/
structure Armed (n : Nat) (d : DstRing) : Prop where
  sw : d.fDstSw < kRingN
  write : d.fDstWrite = (d.fDstSw + n) % kRingN

theorem Armed.rxArmed (h : Armed n d) (hn : n < kRingN) : d.rxArmed = n :=
  rxArmed_eq (Nat.mod_eq_of_lt h.sw).symm h.write hn

theorem Armed.same (h : Armed n d) (hs : d.Same e) : Armed n e :=
  ⟨hs.dstSw.symm ▸ h.sw, by rw [hs.dstWrite, hs.dstSw, h.write]⟩

theorem armed_assertion {E : DstRing → List UInt8 → Prop} (hn : n ≤ 1) :
    Assertion (DstRing.Engine E) (fun d => d.rxArmed ≤ 1) (Armed n) where
  step := fun _ _ h hs => h.same hs.same
  inv := fun d h => by
    rw [h.rxArmed (hn.trans_lt (by decide))]
    exact hn

theorem DstRing.postRecv_armed {E : DstRing → List UInt8 → Prop} (h : Armed 0 d) :
    Safe (DstRing.Engine E) (fun d => d.rxArmed ≤ 1) (fun _ _ => True)
      (fun r e => r = true ∧ Armed 1 e) DstRing.postRecv d := by
  apply Safe.op (armed_assertion (Nat.zero_le 1)) h (fun _ _ => trivial)
  intro d₁ h₁
  have hdesc : Armed 0 d₁.writeDesc := ⟨h₁.sw, h₁.write⟩
  apply Safe.op (armed_assertion (Nat.zero_le 1)) hdesc (fun _ _ => trivial)
  intro d₂ h₂
  have hstep : Armed 1 d₂.stepWrite := by
    refine ⟨h₂.sw, ?_⟩
    rw [DstRing.stepWrite, h₂.write, Nat.add_zero, succ_mod_ring]
  apply Safe.op (armed_assertion (Nat.le_refl 1)) hstep (fun _ _ => trivial)
  intro d₃ h₃
  exact .ret (armed_assertion (Nat.le_refl 1)) ⟨h₃.sw, h₃.write⟩ fun e he => ⟨rfl, he⟩

theorem Armed.consume (h : Armed 1 d) (nbytes : Nat) : Armed 0 (d.consume nbytes) := by
  constructor
  · exact Nat.mod_lt _ (by decide)
  · simp only [DstRing.consume, h.write, Nat.add_zero, Nat.mod_mod]

theorem recvPoll_armed {E : DstRing → List UInt8 → Prop} (n : Nat) (h : Armed 1 d) :
    Safe (DstRing.Engine E) (fun d => d.rxArmed ≤ 1) (fun _ _ => True)
      (fun r e => Armed (if r then 0 else 1) e) (recvPoll n) d := by
  have hP := armed_assertion (E := E) (Nat.le_refl 1)
  induction n generalizing d with
  | zero =>
    apply Safe.op hP h (fun _ _ => trivial)
    intro e he
    apply Safe.op hP he (fun _ _ => trivial)
    intro c hc
    exact .ret hP ⟨hc.sw, hc.write⟩ fun _ => id
  | succ n ih =>
    apply Safe.op hP h (fun _ _ => trivial)
    intro e he
    dsimp only [Prog.ret_bind, bind_eq_bind, id_eq]
    split
    · exact ih he
    · apply Safe.op hP he (fun _ _ => trivial)
      intro c hc
      dsimp only [Prog.ret_bind, bind_eq_bind, id_eq]
      split
      · exact ih hc
      · apply Safe.op hP hc (fun _ _ => trivial)
        intro b hb
        exact .ret (armed_assertion (Nat.zero_le 1)) (hb.consume _) fun _ => id

def CtrlArmed (n : Nat) (h : Host) : Prop := Armed n h.fCtrl.dst

def OneEntry (h : Host) : Prop := h.fCtrl.dst.rxArmed ≤ 1

/-- One entry at most, with the ring indices in range. -/
def AtMostOne (h : Host) : Prop := ∃ n, n ≤ 1 ∧ CtrlArmed n h

theorem Host.CtrlEngine.same (hs : Host.CtrlEngine D h t) : h.fCtrl.dst.Same t.fCtrl.dst := by
  cases hs with
  | src => exact .refl _
  | dst hd => exact hd.same

theorem ctrlArmed_assertion (hn : n ≤ 1) :
    Assertion (Host.CtrlEngine D) OneEntry (CtrlArmed n) where
  step := fun _ _ h hs => h.same hs.same
  inv := fun _ h => (armed_assertion (E := fun _ _ => True) hn).inv h

theorem atMostOne_assertion : Assertion (Host.CtrlEngine D) OneEntry AtMostOne where
  step := fun _ _ h hs => by
    obtain ⟨n, hn, h⟩ := h
    exact ⟨n, hn, h.same hs.same⟩
  inv := fun t h => by
    obtain ⟨n, hn, h⟩ := h
    exact (ctrlArmed_assertion (D := D) hn).inv h

theorem ctrlPost_armed (h : CtrlArmed 0 t) :
    Safe (Host.CtrlEngine D) OneEntry (fun _ _ => True)
      (fun r u => r = true ∧ CtrlArmed 1 u) CEManager.postRecv t := by
  have hz := ctrl_dst_safe (D := D) (E := fun _ _ => True) (F := fun _ => True)
    (fun _ _ _ _ => trivial) (fun _ _ _ _ _ => trivial) trivial (DstRing.postRecv_armed h)
  exact hz.mono (fun _ => id) (fun _ _ => id) fun _ _ hu => hu.1

theorem ctrlWait_armed (timeoutMs : Nat) (h : CtrlArmed 1 t) :
    Safe (Host.CtrlEngine D) OneEntry (fun _ _ => True)
      (fun r u => CtrlArmed (if r then 0 else 1) u) (CEManager.recvWait timeoutMs) t := by
  have hz := ctrl_dst_safe (D := D) (E := fun _ _ => True) (F := fun _ => True)
    (fun _ _ _ _ => trivial) (fun _ _ _ _ _ => trivial) trivial
    (recvPoll_armed (pollDeadline timeoutMs) h)
  exact hz.mono (fun _ => id) (fun _ _ => id) fun _ _ hu => hu.1

theorem ctrlSend_armed (cmd : List UInt8) (hn : n ≤ 1) (h : CtrlArmed n t) :
    Safe (Host.CtrlEngine D) OneEntry (fun _ _ => True) (fun _ u => CtrlArmed n u)
      (CEManager.send cmd) t := by
  have hz := ctrl_src_safe (D := D) (I := fun _ d => Armed n d) (fun _ _ _ hd _ => hd)
    (fun _ _ _ hd _ => hd) (fun _ _ _ _ hd hs => hd.same hs.same) h
    (Safe.any (SrcRing.send cmd) t.fCtrl.src)
  apply hz.mono _ (fun _ _ => id) fun _ _ hu => hu.2.1
  exact fun u hu => (ctrlArmed_assertion (D := D) hn).inv hu

theorem armed_sendOnly (hn : n ≤ 1) :
    SendOnly (Host.CtrlEngine D) OneEntry (CtrlArmed n) where
  kept := ctrlArmed_assertion hn
  send := fun cmd _ _ h => ctrlSend_armed cmd hn h
  bmi := fun _ _ h => h

theorem CtrlArmed.most (h : CtrlArmed n t) (hn : n ≤ 1) : AtMostOne t := ⟨n, hn, h⟩

theorem atMostOne_ret {r : α} (h : AtMostOne t) :
    Safe (Host.CtrlEngine D) OneEntry (fun _ _ => True) (fun _ u => AtMostOne u) (.ret r) t :=
  .ret atMostOne_assertion h fun _ => id

theorem Bmi.setStage_armed (hn : n ≤ 1) (stage : BmiStage) (h : CtrlArmed n t) :
    Safe (Host.CtrlEngine D) OneEntry (fun _ _ => True) (fun _ u => CtrlArmed n u)
      (Bmi.setStage stage) t := by
  apply Safe.op (ctrlArmed_assertion hn) h (fun _ _ => trivial)
  intro u hu
  have hset : CtrlArmed n (u.stage stage) := hu
  exact .ret (ctrlArmed_assertion hn) hset fun _ => id

theorem exchangeWait_armed (cmd : List UInt8) (respLen : Nat) (h : CtrlArmed 0 t) :
    Safe (Host.CtrlEngine D) OneEntry (fun _ _ => True) (fun _ u => AtMostOne u)
      (Bmi.exchangeWait cmd respLen) t := by
  have hzero := ctrlArmed_assertion (D := D) (Nat.zero_le 1)
  unfold Bmi.exchangeWait
  simp only [bind_eq_bind, pure_eq_ret, read_bind]
  apply Safe.op hzero h (fun _ _ => trivial)
  intro t ht
  split
  · apply Safe.bind
    apply (Bmi.setStage_armed (Nat.zero_le 1) _ ht).mono (fun _ => id) (fun _ _ => id)
    exact fun _ u hu => atMostOne_ret (hu.most (Nat.zero_le 1))
  apply Safe.bind
  apply (Bmi.setStage_armed (Nat.zero_le 1) _ ht).mono (fun _ => id) (fun _ _ => id)
  intro _ t ht
  apply Safe.bind
  apply (ctrlPost_armed ht).mono (fun _ => id) (fun _ _ => id)
  rintro _ t ⟨rfl, ht⟩
  apply Safe.bind
  apply (Bmi.setStage_armed (Nat.le_refl 1) _ ht).mono (fun _ => id) (fun _ _ => id)
  intro _ t ht
  apply Safe.bind
  apply (ctrlSend_armed cmd (Nat.le_refl 1) ht).mono (fun _ => id) (fun _ _ => id)
  intro r t ht
  cases r with
  | false => exact atMostOne_ret (ht.most (Nat.le_refl 1))
  | true =>
  apply Safe.bind
  apply (Bmi.setStage_armed (Nat.le_refl 1) _ ht).mono (fun _ => id) (fun _ _ => id)
  intro _ t ht
  apply Safe.bind
  apply (ctrlWait_armed _ ht).mono (fun _ => id) (fun _ _ => id)
  intro r t ht
  cases r with
  | false => exact atMostOne_ret (ht.most (Nat.le_refl 1))
  | true =>
  apply Safe.bind
  apply (Bmi.setStage_armed (Nat.zero_le 1) _ ht).mono (fun _ => id) (fun _ _ => id)
  intro _ t ht
  apply Safe.op hzero ht (fun _ _ => trivial)
  intro t ht
  split
  · exact atMostOne_ret (ht.most (Nat.zero_le 1))
  · apply Safe.op hzero ht (fun _ _ => trivial)
    intro t ht
    apply Safe.bind
    apply (Bmi.setStage_armed (Nat.zero_le 1) _ ht).mono (fun _ => id) (fun _ _ => id)
    exact fun _ u hu => atMostOne_ret (hu.most (Nat.zero_le 1))

theorem sendCtrlFrame_armed (payload : List UInt8) (hn : n ≤ 1) (h : CtrlArmed n t) :
    Safe (Host.CtrlEngine D) OneEntry (fun _ _ => True) (fun _ u => CtrlArmed n u)
      (Htc.sendCtrlFrame payload) t := by
  unfold Htc.sendCtrlFrame
  simp only [bind_eq_bind, pure_eq_ret, read_bind, modify_bind]
  split
  · exact .ret (ctrlArmed_assertion hn) h fun _ => id
  apply Safe.op (ctrlArmed_assertion hn) h (fun _ _ => trivial)
  intro t ht
  apply Safe.op (ctrlArmed_assertion hn) ht (fun _ _ => trivial)
  exact fun u hu => ctrlSend_armed _ hn hu

/-- Each round of the wait for READY takes the entry it has posted before it goes on. -/
theorem waitReady_armed (timeoutMs n : Nat) (h : CtrlArmed 0 t) :
    Safe (Host.CtrlEngine D) OneEntry (fun _ _ => True) (fun _ u => AtMostOne u)
      (Htc.waitReady timeoutMs n) t := by
  induction n generalizing t with
  | zero => exact atMostOne_ret (h.most (Nat.zero_le 1))
  | succ n ih =>
    simp only [Htc.waitReady, bind_eq_bind, pure_eq_ret, read_bind]
    apply Safe.bind
    apply (ctrlPost_armed h).mono (fun _ => id) (fun _ _ => id)
    rintro _ t ⟨rfl, ht⟩
    apply Safe.bind
    apply (ctrlWait_armed _ ht).mono (fun _ => id) (fun _ _ => id)
    intro r t ht
    cases r with
    | false => exact atMostOne_ret (ht.most (Nat.le_refl 1))
    | true =>
      apply Safe.op (ctrlArmed_assertion (Nat.zero_le 1)) ht (fun _ _ => trivial)
      intro t ht
      split
      · exact ih ht
      · split
        · exact atMostOne_ret (ht.most (Nat.zero_le 1))
        · split
          · exact ih ht
          · exact atMostOne_ret (ht.most (Nat.zero_le 1))

theorem waitTarget_armed (timeoutMs : Nat) (h : AtMostOne t)
    (h0 : 0 < pollDeadline timeoutMs → CtrlArmed 0 t) :
    Safe (Host.CtrlEngine D) OneEntry (fun _ _ => True) (fun _ u => AtMostOne u)
      (Htc.waitTarget timeoutMs) t := by
  have hready : Safe (Host.CtrlEngine D) OneEntry (fun _ _ => True) (fun _ u => AtMostOne u)
      (Htc.waitReady timeoutMs (pollDeadline timeoutMs)) t := by
    cases hn : pollDeadline timeoutMs with
    | zero => exact atMostOne_ret h
    | succ n =>
      apply waitReady_armed
      apply h0
      rw [hn]
      exact Nat.succ_pos n
  unfold Htc.waitTarget
  simp only [bind_eq_bind, pure_eq_ret, read_bind, modify_bind]
  apply Safe.bind
  apply hready.mono (fun _ => id) (fun _ _ => id)
  intro r t ht
  split
  · exact atMostOne_ret ht
  · exact atMostOne_ret ht
  · apply Safe.op atMostOne_assertion ht (fun _ _ => trivial)
    intro t ht
    split
    · exact atMostOne_ret ht
    split
    · apply Safe.op atMostOne_assertion ht (fun _ _ => trivial)
      intro t ht
      have hset (c : Htc) : AtMostOne (t.setHtc c) := ht
      exact atMostOne_ret (hset _)
    · exact atMostOne_ret ht

theorem connectService_armed (serviceId : Nat) (h : CtrlArmed 0 t) :
    Safe (Host.CtrlEngine D) OneEntry (fun _ _ => True) (fun _ u => AtMostOne u)
      (Htc.connectService serviceId) t := by
  unfold Htc.connectService
  simp only [bind_eq_bind, pure_eq_ret, read_bind, modify_bind]
  apply Safe.op (ctrlArmed_assertion (Nat.zero_le 1)) h (fun _ _ => trivial)
  intro t ht
  apply Safe.bind
  apply (ctrlPost_armed ht).mono (fun _ => id) (fun _ _ => id)
  rintro _ t ⟨rfl, ht⟩
  apply Safe.bind
  apply (sendCtrlFrame_armed _ (Nat.le_refl 1) ht).mono (fun _ => id) (fun _ _ => id)
  intro r t ht
  cases r with
  | false => exact atMostOne_ret (ht.most (Nat.le_refl 1))
  | true =>
  apply Safe.bind
  apply (ctrlWait_armed _ ht).mono (fun _ => id) (fun _ _ => id)
  intro r t ht
  cases r with
  | false => exact atMostOne_ret (ht.most (Nat.le_refl 1))
  | true =>
  apply Safe.op (ctrlArmed_assertion (Nat.zero_le 1)) ht (fun _ _ => trivial)
  intro t ht
  split
  · exact atMostOne_ret (ht.most (Nat.zero_le 1))
  · exact atMostOne_ret (ht.most (Nat.zero_le 1))
  · split
    · apply Safe.op (ctrlArmed_assertion (Nat.zero_le 1)) ht (fun _ _ => trivial)
      intro u hu
      have hset (c : Htc) : CtrlArmed 0 (u.setHtc c) := hu
      exact atMostOne_ret ((hset _).most (Nat.zero_le 1))
    · exact atMostOne_ret (ht.most (Nat.zero_le 1))

/-- The calls of the clients of the control pair. -/
inductive CtrlCall where
  | bmi (c : BmiCall)
  | waitTarget (timeoutMs : Nat)
  | connectService (serviceId : Nat)
  | setupComplete

def CtrlCall.body : CtrlCall → Prog Host Unit
  | .bmi c => do let _ ← c.body
  | .waitTarget timeoutMs => do let _ ← Htc.waitTarget timeoutMs
  | .connectService serviceId => do let _ ← Htc.connectService serviceId
  | .setupComplete => do let _ ← Htc.setupComplete

/-- Calls on the control pair next to its engines. -/
def ctrlSystem (D : List (List UInt8) → DstRing → List UInt8 → Prop) :
    System Host CtrlCall Unit where
  init := fun h => TxFresh h.fCtrl.src ∧ RxFresh h.fCtrl.dst
  body := CtrlCall.body
  env := Host.CtrlEngine D

/-- A call that posts a receive entry. -/
def CtrlCall.posts (c : CtrlCall) (h : Host) : Prop :=
  match c with
  | .bmi c => c.query.isSome ∧ h.bmi.fDoneSent = false
  | .waitTarget timeoutMs => 0 < pollDeadline timeoutMs
  | .connectService _ => True
  | .setupComplete => False

/-- A call only posts a receive entry while none is armed. -/
def postsIdle (c : CtrlCall) (h : Host) : Prop := c.posts h → h.fCtrl.dst.rxArmed = 0

theorem AtMostOne.zero (h : AtMostOne t) (h0 : t.fCtrl.dst.rxArmed = 0) : CtrlArmed 0 t := by
  obtain ⟨n, hn, ha⟩ := h
  rw [Armed.rxArmed ha (hn.trans_lt (by decide))] at h0
  exact h0 ▸ ha

theorem afterDone_armed (cmd : List UInt8) (respLen : Nat) (h : AtMostOne t)
    (hdone : t.bmi.fDoneSent = true) :
    Safe (Host.CtrlEngine D) OneEntry (fun _ _ => True) (fun _ u => AtMostOne u)
      (Bmi.exchangeWait cmd respLen) t := by
  have hP : Assertion (Host.CtrlEngine D) OneEntry
      (fun u => AtMostOne u ∧ u.bmi.fDoneSent = true) := by
    constructor
    · intro u v hu hs
      refine ⟨atMostOne_assertion.step hu.1 hs, ?_⟩
      cases hs with
      | src => exact hu.2
      | dst => exact hu.2
    · exact fun u hu => (atMostOne_assertion (D := D)).inv hu.1
  unfold Bmi.exchangeWait Bmi.setStage
  simp only [bind_eq_bind, pure_eq_ret, read_bind, modify_bind]
  apply Safe.op hP ⟨h, hdone⟩ (fun _ _ => trivial)
  intro t ht
  rw [if_pos ht.2]
  apply Safe.op atMostOne_assertion ht.1 (fun _ _ => trivial)
  intro u hu
  have hset : AtMostOne (u.stage .afterDone) := hu
  exact atMostOne_ret hset

theorem query_armed (q : BmiQuery) (respLen : Nat) (h : AtMostOne t)
    (h0 : t.bmi.fDoneSent = false → t.fCtrl.dst.rxArmed = 0) :
    Safe (Host.CtrlEngine D) OneEntry (fun _ _ => True) (fun _ u => AtMostOne u)
      (Bmi.exchangeWait q.cmd respLen) t := by
  cases hdone : t.bmi.fDoneSent with
  | false => exact exchangeWait_armed _ _ (h.zero (h0 hdone))
  | true => exact afterDone_armed _ _ h hdone

theorem bmiCall_armed (c : BmiCall) (h : AtMostOne t) (hg : postsIdle (.bmi c) t) :
    Safe (Host.CtrlEngine D) OneEntry (fun _ _ => True) (fun _ u => AtMostOne u) c.body t := by
  cases hc : c.query with
  | none =>
    obtain ⟨n, hn, ha⟩ := h
    exact ((armed_sendOnly hn).call ha hc).mono (fun _ => id) (fun _ _ => id)
      fun _ _ hu => hu.most hn
  | some q =>
    have h0 (hdone : t.bmi.fDoneSent = false) : t.fCtrl.dst.rxArmed = 0 :=
      hg ⟨by rw [hc]; rfl, hdone⟩
    by_cases ht : c = .getTargetInfo
    · subst ht
      simp only [BmiCall.body, Bmi.getTargetInfo, bind_eq_bind, pure_eq_ret]
      apply Safe.bind
      apply Safe.bind
      apply (query_armed .getTargetInfo 12 h h0).mono (fun _ => id) (fun _ _ => id)
      intro r u hu
      cases r with
      | none => exact .ret atMostOne_assertion hu fun _ hv => atMostOne_ret hv
      | some x =>
        apply Safe.op atMostOne_assertion hu (fun _ _ => trivial)
        intro v hv
        have hset (b : Bmi) : AtMostOne (v.setBmi b) := hv
        exact .ret atMostOne_assertion (hset _) fun _ hw => atMostOne_ret hw
    · rw [BmiCall.body_query hc ht]
      apply Safe.bind
      apply (query_armed q _ h h0).mono (fun _ => id) (fun _ _ => id)
      exact fun _ u hu => atMostOne_ret hu

theorem ctrlSystem_sound (h : Reachable (ctrlSystem D) postsIdle cfg) :
    Sound (ctrlSystem D) AtMostOne (fun _ _ => OneEntry) (fun _ _ => True)
      (fun _ _ _ _ => True) cfg := by
  apply h.sound
  · rintro h ⟨-, hrx⟩
    refine ⟨0, Nat.zero_le 1, ?_, ?_⟩
    · rw [hrx.dstSw]
      decide
    · rw [hrx.dstWrite, hrx.dstSw]
      rfl
  · exact fun _ _ hi hs => atMostOne_assertion.step hi hs
  · intro c h hg hi
    have hdrop {α : Type} {p : Prog Host α}
        (hp : Safe (Host.CtrlEngine D) OneEntry (fun _ _ => True) (fun _ u => AtMostOne u) p h) :
        Safe (Host.CtrlEngine D) OneEntry (fun _ _ => True) (fun _ u => AtMostOne u ∧ True)
          (p.bind fun _ => .ret ()) h :=
      Safe.map (hp.mono (fun _ => id) (fun _ _ => id) fun _ _ hu => ⟨hu, trivial⟩)
    cases c with
    | bmi c => exact hdrop (bmiCall_armed c hi hg)
    | waitTarget timeoutMs =>
      exact hdrop (waitTarget_armed timeoutMs hi fun hpos => hi.zero (hg hpos))
    | connectService serviceId =>
      exact hdrop (connectService_armed serviceId (hi.zero (hg trivial)))
    | setupComplete =>
      obtain ⟨n, hn, ha⟩ := hi
      exact hdrop ((sendCtrlFrame_armed _ hn ha).mono (fun _ => id) (fun _ _ => id)
        fun _ _ hu => hu.most hn)

/-- Where every call that posts an entry begins with none armed, one entry at most is armed in
every state. -/
theorem one_entry_armed (h : Reachable (ctrlSystem D) postsIdle cfg) :
    cfg.state.fCtrl.dst.rxArmed ≤ 1 := by
  have hs := ctrlSystem_sound h
  cases cfg with
  | idle h => exact (atMostOne_assertion (D := D)).inv hs
  | busy c h₀ prog h =>
    have hinv := Safe.inv hs
    exact hinv

theorem freshHost_ctrl (guard : CtrlCall → Host → Prop) :
    Reachable (ctrlSystem D) guard (.idle freshHost) :=
  .init ⟨⟨rfl, rfl, rfl, rfl, rfl, rfl, rfl⟩,
    ⟨rfl, rfl, rfl, rfl, rfl, rfl, rfl, rfl, rfl, rfl, rfl, rfl⟩⟩

theorem unansweredHost_ctrl (guard : CtrlCall → Host → Prop)
    (hg : guard (.bmi .getTargetInfo) freshHost) :
    Reachable (ctrlSystem D) guard (.idle unansweredHost) := by
  have hrun := ((freshHost_ctrl (D := D) guard).step (.call hg)).alone.step .finish
  have hb : exec id ((ctrlSystem D).body (.bmi .getTargetInfo)) freshHost =
      ((), unansweredHost) := by
    have hbody : (ctrlSystem D).body (.bmi .getTargetInfo) =
        (BmiCall.body .getTargetInfo).bind fun _ => .ret () := rfl
    rw [hbody, exec_bind, exec_unanswered]
    rfl
  rw [hb] at hrun
  exact hrun

theorem one_entry_armed_unanswered : unansweredHost.fCtrl.dst.rxArmed ≤ 1 := by
  have h := one_entry_armed (unansweredHost_ctrl (D := fun _ => fits) postsIdle fun _ => rfl)
  exact h

/-- A second exchange after a failed one arms a second entry. -/
theorem two_entries_armed :
    ∃ cfg, Reachable (ctrlSystem fun _ => fits) anyCall cfg ∧
      cfg.state.fCtrl.dst.rxArmed = 2 := by
  have hcall := (unansweredHost_ctrl (D := fun _ => fits) anyCall trivial).step
    (.call (c := .bmi .getTargetInfo) trivial)
  have hposted := ((((hcall.step .host).step .host).step .host).step .host).step .host
  exact ⟨_, hposted, by decide +kernel⟩

end Qca9377
