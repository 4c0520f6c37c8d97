import Mathlib.Algebra.Order.Floor.Div
import Qca9377.BringUp

namespace Qca9377
open Bytes Interleaving
set_option autoImplicit true

/-- Anything may happen to the rings and their buffers. -/
def Host.Elsewhere (h h' : Host) : Prop := h'.htc = h.htc

section Htc

variable {P : Htc → Prop}

theorem htc_assertion (P : Htc → Prop) :
    Assertion Host.Elsewhere (fun _ => True) fun h => P h.htc where
  step := by
    intro s t hP hst
    have hhtc : t.htc = s.htc := hst
    rw [hhtc]
    exact hP
  inv := fun _ _ => trivial

theorem ctrl_keeps (p : Prog CECopyPair α) (h : P s.htc) :
    Safe Host.Elsewhere (fun _ => True) (fun _ _ => True) (fun _ t => P t.htc)
      (p.zoom Host.fCtrl Host.setCtrl) s := by
  have hput (t : Host) (q : CECopyPair) (ht : P t.htc) : P (t.setCtrl q).htc := ht
  exact Safe.beside (htc_assertion P) hput h p

theorem wmi_keeps (p : Prog CECopyPair α) (h : P s.htc) :
    Safe Host.Elsewhere (fun _ => True) (fun _ _ => True) (fun _ t => P t.htc)
      (p.zoom Host.fWmi Host.setWmi) s := by
  have hput (t : Host) (q : CECopyPair) (ht : P t.htc) : P (t.setWmi q).htc := ht
  exact Safe.beside (htc_assertion P) hput h p

theorem wmiArmRecv_keeps (h : P s.htc) :
    Safe Host.Elsewhere (fun _ => True) (fun _ _ => True) (fun _ t => P t.htc)
      CEManager.wmiArmRecv s := by
  unfold CEManager.wmiArmRecv
  simp only [bind_eq_bind, pure_eq_ret, read_bind]
  apply Safe.op (htc_assertion P) h (fun _ _ => trivial)
  intro t ht
  split
  · apply Safe.bind
    apply (wmi_keeps _ ht).mono (fun _ => id) (fun _ _ => id)
    exact fun _ _ hu => .ret (htc_assertion P) hu fun _ => id
  · exact .ret (htc_assertion P) ht fun _ => id

theorem wmiPostRecvIfIdle_keeps (h : P s.htc) :
    Safe Host.Elsewhere (fun _ => True) (fun _ _ => True) (fun _ t => P t.htc)
      CEManager.wmiPostRecvIfIdle s := by
  unfold CEManager.wmiPostRecvIfIdle
  simp only [bind_eq_bind, pure_eq_ret, read_bind]
  apply Safe.op (htc_assertion P) h (fun _ _ => trivial)
  intro t ht
  split
  · exact .ret (htc_assertion P) ht fun _ => id
  · exact wmi_keeps _ ht

theorem sendCtrlFrame_keeps (hseq : ∀ c n, P c → P { c with fCtrlSeq := n }) (payload : List UInt8)
    (h : P s.htc) :
    Safe Host.Elsewhere (fun _ => True) (fun _ _ => True) (fun _ t => P t.htc)
      (Htc.sendCtrlFrame payload) s := by
  unfold Htc.sendCtrlFrame
  simp only [bind_eq_bind, pure_eq_ret, read_bind, modify_bind]
  split
  · exact .ret (htc_assertion P) h fun _ => id
  apply Safe.op (htc_assertion P) h (fun _ _ => trivial)
  intro t ht
  apply Safe.op (htc_assertion P) ht (fun _ _ => trivial)
  exact fun u hu => ctrl_keeps _ (hseq _ _ hu)

theorem waitReady_keeps (timeoutMs n : Nat) (h : P s.htc) :
    Safe Host.Elsewhere (fun _ => True) (fun _ _ => True) (fun _ t => P t.htc)
      (Htc.waitReady timeoutMs n) s := by
  have hret {t : Host} (r : Option Bool) (ht : P t.htc) :
      Safe Host.Elsewhere (fun _ => True) (fun _ _ => True) (fun _ t => P t.htc) (.ret r) t :=
    .ret (htc_assertion P) ht fun _ => id
  induction n generalizing s with
  | zero => exact hret _ h
  | succ n ih =>
    simp only [Htc.waitReady, bind_eq_bind, pure_eq_ret, read_bind]
    apply Safe.bind
    apply (ctrl_keeps _ h).mono (fun _ => id) (fun _ _ => id)
    intro r t ht
    cases r with
    | false => exact hret _ ht
    | true =>
    apply Safe.bind
    apply (ctrl_keeps _ ht).mono (fun _ => id) (fun _ _ => id)
    intro r t ht
    cases r with
    | false => exact hret _ ht
    | true =>
    apply Safe.op (htc_assertion P) ht (fun _ _ => trivial)
    intro t ht
    split
    · exact ih ht
    split
    · exact hret _ ht
    split
    · exact ih ht
    · exact hret _ ht

end Htc

/-- The credit size is one that READY can announce and `waitTarget` lets pass. -/
def Htc.Ready (c : Htc) : Prop := 0 < c.fCreditSize ∧ c.fCreditSize < 2 ^ 16

theorem rd16At_lt (h : rd16At b off = some n) : n < 2 ^ 16 := by
  simp only [rd16At, Option.bind_eq_bind, Option.bind_eq_some_iff, Option.pure_def,
    Option.some.injEq] at h
  obtain ⟨p₀, -, p₁, -, rfl⟩ := h
  exact rd16_lt p₀ p₁

theorem waitTarget_ready (timeoutMs : Nat) (s : Host) :
    Safe Host.Elsewhere (fun _ => True) (fun _ _ => True)
      (fun r t => r = some true → t.htc.Ready) (Htc.waitTarget timeoutMs) s := by
  have hany := htc_assertion fun _ => True
  have hfail {t : Host} {r : Option Bool} (hr : r ≠ some true) :
      Safe Host.Elsewhere (fun _ => True) (fun _ _ => True)
        (fun r t => r = some true → t.htc.Ready) (.ret r) t :=
    .ret hany trivial fun _ _ h => absurd h hr
  unfold Htc.waitTarget
  simp only [bind_eq_bind, pure_eq_ret, read_bind, modify_bind]
  apply Safe.bind
  apply (waitReady_keeps (P := fun _ => True) _ _ trivial).mono (fun _ => id) (fun _ _ => id)
  intro r t _
  split
  · exact hfail (by simp)
  · exact hfail (by simp)
  · apply Safe.op hany trivial (fun _ _ => trivial)
    intro t _
    split
    · exact hfail (by simp)
    split
    · next total size _ hsize =>
      apply Safe.op hany trivial (fun _ _ => trivial)
      intro u _
      apply Safe.ret (htc_assertion fun c => c.fCreditSize = size) rfl
      intro v hv hr
      have hpos := (of_decide_eq_true (Option.some.inj hr)).2
      rw [Htc.Ready, hv]
      exact ⟨hpos, rd16At_lt hsize⟩
    · exact hfail (by simp)

theorem rxTrailer_credits {c c' : Htc} (h : c.rxTrailer raw rawLen x = some c') :
    ∃ n, c' = { c with fWmiCredits := n } := by
  unfold Htc.rxTrailer at h
  dsimp only at h
  split at h
  · split at h
    · simp only [Htc.applyCreditReport, Option.bind_eq_bind, Option.bind_eq_some_iff,
        Option.pure_def, Option.some.injEq] at h
      obtain ⟨trailer, -, n, -, rfl⟩ := h
      exact ⟨n, rfl⟩
    · exact ⟨c.fWmiCredits, (Option.some.inj h).symm⟩
  · exact ⟨c.fWmiCredits, (Option.some.inj h).symm⟩

theorem recvWmi_keeps {P : Htc → Prop} (hcredits : ∀ c n, P c → P { c with fWmiCredits := n })
    (bufLen timeoutMs : Nat) (h : P s.htc) :
    Safe Host.Elsewhere (fun _ => True) (fun _ _ => True) (fun _ t => P t.htc)
      (Htc.recvWmi bufLen timeoutMs) s := by
  have hret {t : Host} (r : Option (List UInt8)) (ht : P t.htc) :
      Safe Host.Elsewhere (fun _ => True) (fun _ _ => True) (fun _ t => P t.htc) (.ret r) t :=
    .ret (htc_assertion P) ht fun _ => id
  unfold Htc.recvWmi
  simp only [bind_eq_bind, pure_eq_ret, read_bind, modify_bind]
  apply Safe.bind
  apply (wmi_keeps _ h).mono (fun _ => id) (fun _ _ => id)
  intro r t ht
  cases r with
  | false => exact hret _ ht
  | true =>
  apply Safe.op (htc_assertion P) ht (fun _ _ => trivial)
  intro t ht
  split
  · exact hret _ ht
  · exact hret _ ht
  · apply Safe.op (htc_assertion P) ht (fun _ _ => trivial)
    intro u hu
    split
    · exact hret _ hu
    · next c hc =>
      obtain ⟨n, rfl⟩ := rxTrailer_credits hc
      apply Safe.op (htc_assertion P) hu (fun _ _ => trivial)
      intro v _
      apply Safe.op (htc_assertion P) (hcredits _ n hu) (fun _ _ => trivial)
      exact fun w hw => hret _ hw

/-- A response that `connectService` has to refuse. -/
def ConnectAnswer.Bad (a : ConnectAnswer) : Prop :=
  a.rawLen < kHtcFrameHdrLen + 2 + 6 ∨
    rd16At a.raw kHtcFrameHdrLen ≠ some kHtcMsgConnectResp ∨
    rd16At a.raw (kHtcFrameHdrLen + 2) ≠ some kHtcSvcWmiControl ∨
    a.raw[kHtcFrameHdrLen + 4]? ≠ some 0

theorem connectResp_good (h : Htc.connectResp kHtcSvcWmiControl raw rawLen = some (some granted))
    (eid : UInt8) (credits : Nat) : ¬ ConnectAnswer.Bad ⟨raw, rawLen, eid, credits⟩ := by
  unfold Htc.connectResp at h
  split at h
  · cases h
  next hlen =>
  simp only [Option.bind_eq_bind, Option.bind_eq_some_iff] at h
  obtain ⟨msgId, hmsg, h⟩ := h
  split at h
  · cases h
  next hid =>
  simp only [Option.bind_eq_some_iff] at h
  obtain ⟨svc, hsvc, st, hst, eid', -, maxMsg, -, h⟩ := h
  split at h
  · cases h
  next hok =>
  obtain ⟨hservice, hstatus⟩ := not_or.1 hok
  rintro (hbad | hbad | hbad | hbad)
  · exact hlen hbad
  · exact hbad (hmsg.trans (congrArg some (not_not.1 hid)))
  · exact hbad (hsvc.trans (congrArg some (not_not.1 hservice)))
  · exact hbad (hst.trans (congrArg some (not_not.1 hstatus)))

/-- The divisor is not zero and the sum does not leave 32 bits. -/
def CreditNeed.Safe (k : CreditNeed) : Prop := k.fCreditSize ≠ 0 ∧ k.len + k.fCreditSize < 2 ^ 32

/-- The debit removes the length in credits, rounded up, and no more than there is. -/
def CreditDebit.Exact (d : CreditDebit) : Prop :=
  0 < d.fCreditSize ∧ d.len ⌈/⌉ d.fCreditSize ≤ d.before ∧
    d.after = d.before - d.len ⌈/⌉ d.fCreditSize

/-- Everything on record is in order. -/
structure CreditTrace.Clean (tr : CreditTrace) : Prop where
  needs : ∀ k ∈ tr.needs, k.Safe
  debits : ∀ d ∈ tr.debits, d.Exact
  answers : ∀ a ∈ tr.answers, ¬ a.Bad

/-- What holds at every moment of the bring-up. -/
structure CreditSafe (s : BringUp) : Prop where
  needs : ∀ k ∈ s.trace.needs, k.Safe
  debits : ∀ d ∈ s.trace.debits, d.Exact
  answers : ∀ a ∈ s.trace.answers, a.Bad →
    s.host.htc.fWmiEid = a.fWmiEid ∧ s.host.htc.fWmiCredits = a.fWmiCredits

theorem CreditTrace.Clean.safe {s : BringUp} (h : s.trace.Clean) : CreditSafe s where
  needs := h.needs
  debits := h.debits
  answers := fun a ha hbad => absurd hbad (h.answers a ha)

theorem CreditTrace.Clean.need {tr : CreditTrace} (h : tr.Clean) (hk : k.Safe) :
    CreditTrace.Clean { tr with needs := tr.needs ++ [k] } where
  needs := List.forall_mem_append.2 ⟨h.needs, List.forall_mem_singleton.2 hk⟩
  debits := h.debits
  answers := h.answers

theorem CreditTrace.Clean.debit {tr : CreditTrace} (h : tr.Clean) (hd : d.Exact) :
    CreditTrace.Clean { tr with debits := tr.debits ++ [d] } where
  needs := h.needs
  debits := List.forall_mem_append.2 ⟨h.debits, List.forall_mem_singleton.2 hd⟩
  answers := h.answers

theorem CreditTrace.Clean.answer {tr : CreditTrace} (h : tr.Clean) (ha : ¬ a.Bad) :
    CreditTrace.Clean { tr with answers := tr.answers ++ [a] } where
  needs := h.needs
  debits := h.debits
  answers := List.forall_mem_append.2 ⟨h.answers, List.forall_mem_singleton.2 ha⟩

/-- The credit fields are those that the last response has found. -/
theorem CreditTrace.Clean.refused {t u : BringUp} (h : t.trace.Clean)
    (hhtc : u.host.htc = t.host.htc) (htrace : u.trace = t.noteAnswer.trace) : CreditSafe u where
  needs := htrace ▸ h.needs
  debits := htrace ▸ h.debits
  answers := by
    intro a ha hbad
    rw [htrace, BringUp.noteAnswer, List.mem_append, List.mem_singleton] at ha
    rcases ha with ha | rfl
    · exact absurd hbad (h.answers a ha)
    · rw [hhtc]
      exact ⟨rfl, rfl⟩

namespace BringUp

/-- Between two accesses of the driver anything may change but its own fields and the record. -/
def Env (s t : BringUp) : Prop := t.host.htc = s.host.htc ∧ t.trace = s.trace

section

variable {P : Htc → CreditTrace → Prop}

theorem env_assertion (hP : ∀ s : BringUp, P s.host.htc s.trace → CreditSafe s) :
    Assertion Env CreditSafe fun s => P s.host.htc s.trace where
  step := by
    rintro s t h ⟨hhtc, htrace⟩
    rw [hhtc, htrace]
    exact h
  inv := hP

end

/-- The chip is ready, or `P` holds of it, and the record is clean. -/
structure At (P : Htc → Prop) (c : Htc) (tr : CreditTrace) : Prop where
  htc : P c
  clean : tr.Clean

theorem at_assertion (P : Htc → Prop) :
    Assertion Env CreditSafe fun s => At P s.host.htc s.trace :=
  env_assertion fun _ h => h.clean.safe

theorem onHost_safe {p : Prog Host α} {Q : α → Htc → Prop} (htr : s.trace.Clean)
    (h : Safe Host.Elsewhere (fun _ => True) (fun _ _ => True) (fun r t => Q r t.htc) p s.host) :
    Safe Env CreditSafe (fun _ _ => True) (fun r t => At (Q r) t.host.htc t.trace)
      (onHost p) s := by
  have hz := Safe.zoom host setHost Env (fun t => t.trace = s.trace)
    (fun _ _ => rfl) (fun t t' ht hs => ⟨hs.2.trans ht, .single hs.1⟩) (fun _ _ ht => ht) rfl h
  apply hz.mono
  · intro t ht
    have hclean : t.trace.Clean := ht.2 ▸ htr
    exact hclean.safe
  · exact fun _ _ _ => trivial
  · exact fun r t ht => ⟨ht.1, ht.2 ▸ htr⟩

theorem At.mono {P Q : Htc → Prop} (h : At P c tr) (hPQ : ∀ c, P c → Q c) : At Q c tr :=
  ⟨hPQ c h.htc, h.clean⟩

theorem at_ret {P : Htc → Prop} (r : α) (h : At P s.host.htc s.trace) :
    Safe Env CreditSafe (fun _ _ => True) (fun _ t => At P t.host.htc t.trace) (.ret r) s :=
  .ret (at_assertion P) h fun _ => id

/-- A debit that the credits cover. -/
theorem At.debit {y : BringUp} (h : At (Eq c) y.host.htc y.trace) (hready : c.Ready)
    (hn : ¬ c.fWmiCredits < (len + c.fCreditSize - 1) / c.fCreditSize) :
    let needed := (len + c.fCreditSize - 1) / c.fCreditSize
    let t := (y.noteDebit len c.fCreditSize needed).setHtc
      { y.host.htc with fWmiCredits := y.host.htc.fWmiCredits - needed }
    At Htc.Ready t.host.htc t.trace := by
  have hhtc : y.host.htc = c := h.htc.symm
  have hexact : CreditDebit.Exact ⟨len, c.fCreditSize, y.host.htc.fWmiCredits,
      y.host.htc.fWmiCredits - (len + c.fCreditSize - 1) / c.fCreditSize⟩ := by
    refine ⟨hready.1, ?_, rfl⟩
    rw [hhtc]
    exact Nat.le_of_not_lt hn
  have hready' (n : Nat) : Htc.Ready { y.host.htc with fWmiCredits := n } := by
    simp only [Htc.Ready, hhtc]
    exact hready
  exact ⟨hready' _, h.clean.debit hexact⟩

theorem sendWmi_safe (payload : List UInt8) (h : At Htc.Ready s.host.htc s.trace) :
    Safe Env CreditSafe (fun _ _ => True) (fun _ t => At Htc.Ready t.host.htc t.trace)
      (sendWmi payload) s := by
  unfold sendWmi
  simp only [bind_eq_bind, pure_eq_ret, read_bind, modify_bind]
  apply Safe.op (at_assertion Htc.Ready) h (fun _ _ => trivial)
  intro t ht
  obtain ⟨c, hc⟩ : ∃ c, t.host.htc = c := ⟨_, rfl⟩
  rw [hc]
  rw [hc] at ht
  have hready := ht.htc
  have hkeep {u : BringUp} {r : Bool} (hu : At (Eq c) u.host.htc u.trace) :
      Safe Env CreditSafe (fun _ _ => True) (fun _ t => At Htc.Ready t.host.htc t.trace)
        (.ret r) u :=
    at_ret r (hu.mono fun _ he => he ▸ hready)
  have hat : At (Eq c) t.host.htc t.trace := ⟨hc.symm, ht.clean⟩
  split
  · exact hkeep hat
  split
  · exact hkeep hat
  next hlen =>
  apply Safe.op (at_assertion (Eq c)) hat (fun _ _ => trivial)
  intro u hu
  have hneed : CreditNeed.Safe ⟨payload.length, c.fCreditSize⟩ := by
    have hsize := hready.2
    exact ⟨hready.1.ne', by simp only; omega⟩
  have hu' : At (Eq c) (u.noteNeed ⟨payload.length, c.fCreditSize⟩).host.htc
      (u.noteNeed ⟨payload.length, c.fCreditSize⟩).trace := ⟨hu.htc, hu.clean.need hneed⟩
  split
  · exact hkeep hu'
  next hn =>
  apply Safe.bind
  apply (onHost_safe hu'.clean (wmiPostRecvIfIdle_keeps hu'.htc)).mono
    (fun _ => id) (fun _ _ => id)
  intro r v hv
  cases r with
  | false => exact hkeep hv
  | true =>
  apply Safe.op (at_assertion (Eq c)) hv (fun _ _ => trivial)
  intro w hw
  have hseq : w.host.htc = c := hw.htc.symm
  have hw' : At (Eq { c with fWmiSeq := c.fWmiSeq + 1 })
      (w.setHtc { w.host.htc with fWmiSeq := w.host.htc.fWmiSeq + 1 }).host.htc
      (w.setHtc { w.host.htc with fWmiSeq := w.host.htc.fWmiSeq + 1 }).trace := by
    rw [hseq]
    exact ⟨rfl, hw.clean⟩
  apply Safe.bind
  apply (onHost_safe hw'.clean (wmi_keeps _ hw'.htc)).mono (fun _ => id) (fun _ _ => id)
  intro r x hx
  cases r with
  | false => exact at_ret false (hx.mono fun _ he => he ▸ hready)
  | true =>
  apply Safe.op (at_assertion _) hx (fun _ _ => trivial)
  intro y hy
  exact at_ret true (hy.debit hready hn)

/-- What `connectService` does with the response in the rx buffer. -/
def takeAnswer (serviceId : Nat) : Prog BringUp (Option (Option (UInt8 × Nat))) := do
  let frame ← .op noteAnswer fun s => .ret (s.host.fCtrl.dst.rxBuf, s.host.fCtrl.dst.fRxNbytes)
  match Htc.connectResp serviceId frame.1 frame.2 with
  | none => return none
  | some none => return some none
  | some (some granted) =>
    if serviceId = kHtcSvcWmiControl then
      modify fun s => s.setHtc
        { s.host.htc with fWmiEid := granted.1, fWmiCredits := s.host.htc.fTotalCredits }
    return some (some granted)

/-- The service has been granted only where the chip is still ready and the record clean. -/
def Connected (r : Option (Option (UInt8 × Nat))) (t : BringUp) : Prop :=
  (∃ granted, r = some (some granted)) → At Htc.Ready t.host.htc t.trace

/-- A refused response is followed by nothing that touches the credits. -/
theorem takeAnswer_safe (h : At Htc.Ready s.host.htc s.trace) :
    Safe Env CreditSafe (fun _ _ => True) Connected (takeAnswer kHtcSvcWmiControl) s := by
  unfold takeAnswer
  simp only [bind_eq_bind, pure_eq_ret, modify_bind, Prog.op_bind, Prog.ret_bind]
  apply Safe.op (at_assertion Htc.Ready) h (fun _ _ => trivial)
  intro t ht
  have hrefused {r : Option (Option (UInt8 × Nat))} (hr : ∀ granted, r ≠ some (some granted)) :
      Safe Env CreditSafe (fun _ _ => True) Connected (.ret r) t.noteAnswer := by
    have hstill : Assertion Env CreditSafe fun u =>
        u.host.htc = t.host.htc ∧ u.trace = t.noteAnswer.trace := by
      apply env_assertion (P := fun c tr => c = t.host.htc ∧ tr = t.noteAnswer.trace)
      rintro u ⟨hhtc, htrace⟩
      exact ht.clean.refused hhtc htrace
    exact .ret hstill ⟨rfl, rfl⟩ fun _ _ ⟨granted, he⟩ => absurd he (hr granted)
  split
  · exact hrefused nofun
  · exact hrefused nofun
  · next granted hgranted =>
    have hgood : t.noteAnswer.trace.Clean := ht.clean.answer (connectResp_good hgranted _ _)
    have hat : At Htc.Ready t.noteAnswer.host.htc t.noteAnswer.trace := ⟨ht.htc, hgood⟩
    rw [if_pos trivial]
    apply Safe.op (at_assertion Htc.Ready) hat (fun _ _ => trivial)
    intro u hu
    have hset : At Htc.Ready (u.setHtc { u.host.htc with
        fWmiEid := granted.1
        fWmiCredits := u.host.htc.fTotalCredits }).host.htc u.trace := ⟨hu.htc, hu.clean⟩
    exact .ret (at_assertion Htc.Ready) hset fun _ hv _ => hv

theorem connectService_safe (h : At Htc.Ready s.host.htc s.trace) :
    Safe Env CreditSafe (fun _ _ => True) Connected (connectService kHtcSvcWmiControl) s := by
  have hfail {t : BringUp} (ht : At Htc.Ready t.host.htc t.trace) :
      Safe Env CreditSafe (fun _ _ => True) Connected (.ret (some none)) t :=
    .ret (at_assertion Htc.Ready) ht fun _ hu _ => hu
  unfold connectService
  simp only [bind_eq_bind, pure_eq_ret, read_bind, modify_bind]
  apply Safe.op (at_assertion Htc.Ready) h (fun _ _ => trivial)
  intro t ht
  apply Safe.bind
  apply (onHost_safe ht.clean (ctrl_keeps _ ht.htc)).mono (fun _ => id) (fun _ _ => id)
  intro r t ht
  cases r with
  | false => exact hfail ht
  | true =>
  apply Safe.bind
  apply (onHost_safe ht.clean (sendCtrlFrame_keeps (fun _ _ hc => hc) _ ht.htc)).mono
    (fun _ => id) (fun _ _ => id)
  intro r t ht
  cases r with
  | false => exact hfail ht
  | true =>
  apply Safe.bind
  apply (onHost_safe ht.clean (ctrl_keeps _ ht.htc)).mono (fun _ => id) (fun _ _ => id)
  intro r t ht
  cases r with
  | false => exact hfail ht
  | true => exact takeAnswer_safe ht

theorem recvWmi_safe (bufLen timeoutMs : Nat) (h : At Htc.Ready s.host.htc s.trace) :
    Safe Env CreditSafe (fun _ _ => True) (fun _ t => At Htc.Ready t.host.htc t.trace)
      (recvWmi bufLen timeoutMs) s := by
  unfold recvWmi
  simp only [bind_eq_bind, pure_eq_ret, modify_bind, Interleaving.read]
  apply Safe.bind
  apply (onHost_safe h.clean (recvWmi_keeps (fun _ _ hc => hc) _ _ h.htc)).mono
    (fun _ => id) (fun _ _ => id)
  intro r t ht
  split
  · exact at_ret _ ht
  · apply Safe.op (at_assertion Htc.Ready) ht (fun _ _ => trivial)
    intro u hu
    have hset (n : Nat) : At Htc.Ready (u.setHtc { u.host.htc with fWmiCredits := n }).host.htc
        u.trace := ⟨hu.htc, hu.clean⟩
    apply Safe.op (at_assertion Htc.Ready) (hset (u.behind.1 % 2 ^ 16)) (fun _ _ => trivial)
    exact fun v hv => at_ret _ hv

theorem call_safe (c : WmiCall) (h : At Htc.Ready s.host.htc s.trace) :
    Safe Env CreditSafe (fun _ _ => True) (fun _ t => At Htc.Ready t.host.htc t.trace)
      (call c) s := by
  cases c with
  | armRecv =>
    apply Safe.map
    exact onHost_safe h.clean (wmiArmRecv_keeps h.htc)
  | sendWmi payload =>
    apply Safe.map
    exact sendWmi_safe payload h
  | recvWmi bufLen timeoutMs =>
    apply Safe.map
    exact recvWmi_safe bufLen timeoutMs h

/-- Whatever calls are made, and however they depend on what the earlier ones have returned. -/
theorem run_safe (t : Calls WmiCall WmiResult α) (h : At Htc.Ready s.host.htc s.trace) :
    Safe Env CreditSafe (fun _ _ => True) (fun _ t => At Htc.Ready t.host.htc t.trace)
      (t.run call) s := by
  induction t generalizing s with
  | ret a => exact at_ret a h
  | call c k ih =>
    rw [Calls.run]
    apply Safe.bind
    apply (call_safe c h).mono (fun _ => id) (fun _ _ => id)
    exact fun r u hu => ih r hu

theorem creditSafe_assertion : Assertion Env CreditSafe CreditSafe where
  step := by
    rintro s t ⟨hneeds, hdebits, hanswers⟩ ⟨hhtc, htrace⟩
    refine ⟨htrace ▸ hneeds, htrace ▸ hdebits, ?_⟩
    rw [hhtc, htrace]
    exact hanswers
  inv := fun _ => id

theorem startHtcWmi_safe (pair : Option CECopyPair) (events : Nat) (h : s.trace.Clean) :
    Safe Env CreditSafe (fun _ _ => True) (fun _ _ => True) (startHtcWmi pair events) s := by
  have hany := at_assertion fun _ => True
  have hret {t : BringUp} {P : Htc → Prop} (r : Bool) (ht : At P t.host.htc t.trace) :
      Safe Env CreditSafe (fun _ _ => True) (fun _ _ => True) (.ret r) t :=
    .ret (at_assertion P) ht fun _ _ => trivial
  have hclean : At (fun _ => True) s.host.htc s.trace := ⟨trivial, h⟩
  cases pair with
  | none => exact hret false hclean
  | some pair =>
  unfold startHtcWmi
  simp only [bind_eq_bind, pure_eq_ret, modify_bind]
  apply Safe.op hany hclean (fun _ _ => trivial)
  intro t ht
  have hpair : At (fun _ => True) (t.setHost (t.host.setWmi pair)).host.htc
      (t.setHost (t.host.setWmi pair)).trace := ht
  apply Safe.op hany hpair (fun _ _ => trivial)
  intro u hu
  have hhtc : (u.setHtc freshHost.htc).trace.Clean := hu.clean
  apply Safe.bind
  apply (onHost_safe (Q := fun r c => r = some true → c.Ready) hhtc
    (waitTarget_ready 10000 _)).mono (fun _ => id) (fun _ _ => id)
  intro r v hv
  split
  · exact hret false hv
  next hr =>
  have hready : At Htc.Ready v.host.htc v.trace := hv.mono fun _ hc => hc (not_not.1 hr)
  apply Safe.bind
  apply (connectService_safe hready).inv_post.mono (fun _ => id) (fun _ _ => id)
  rintro r w ⟨hsafe, hw⟩
  split
  · next granted =>
    have hconnected := hw ⟨granted, rfl⟩
    apply Safe.bind
    apply (onHost_safe hconnected.clean
      (sendCtrlFrame_keeps (fun _ _ hc => hc) _ hconnected.htc)).mono (fun _ => id) (fun _ _ => id)
    intro ok x hx
    cases ok with
    | false => exact hret false hx
    | true =>
      apply Safe.bind
      apply (run_safe _ hx).mono (fun _ => id) (fun _ _ => id)
      exact fun _ _ hy => hret _ hy
  · exact .ret creditSafe_assertion hsafe fun _ _ => trivial

end BringUp

/-- One run of `startHtcWmi` on a record that is still empty. -/
def bringUpSystem : System BringUp (Option CECopyPair × Nat) Bool where
  init := fun s => s.trace = ⟨[], [], []⟩
  body := fun c => BringUp.startHtcWmi c.1 c.2
  env := BringUp.Env

theorem bringUpSystem_sound
    (h : Reachable bringUpSystem (fun _ s => s.trace = ⟨[], [], []⟩) cfg) :
    Sound bringUpSystem (fun _ => True) (fun _ _ => CreditSafe) (fun _ _ => True)
      (fun _ _ _ _ => True) cfg := by
  apply Reachable.sound (fun _ _ => trivial) (fun _ _ _ _ => trivial) ?_ h
  intro c s hs _
  have hclean : s.trace.Clean := by
    rw [hs]
    exact ⟨nofun, nofun, nofun⟩
  exact (BringUp.startHtcWmi_safe c.1 c.2 hclean).mono (fun _ => id) (fun _ _ => id)
    fun _ _ _ => ⟨trivial, trivial⟩

/-- A pair whose target has taken every transmit and has just filled one receive buffer. -/
def CECopyPair.answered (p : CECopyPair) (frame : List UInt8) : CECopyPair where
  src := { p.src with currentSRRI := p.src.fSrcWrite, gone := false }
  dst :=
    { p.dst with
      rxBuf := frame
      fDstDesc := fun _ => ⟨0, frame.length, 0⟩
      currentDRRI := (p.dst.fDstSw + 1) % kRingN
      gone := false }

/-- A target with two credits of 1792 bytes that answers CONNECT with the status `st`. -/
def promptTarget (st : UInt8) (s : BringUp) : BringUp :=
  let ready := List.replicate 8 0 ++ encodeLE 2 kHtcMsgReady ++ encodeLE 2 2 ++ encodeLE 2 1792 ++
    [0, 0]
  let connected := List.replicate 8 0 ++ encodeLE 2 kHtcMsgConnectResp ++
    encodeLE 2 kHtcSvcWmiControl ++ [st, 1] ++ encodeLE 2 2048
  s.setHost { s.host with
    fCtrl := s.host.fCtrl.answered (if s.host.htc.fCreditSize = 0 then ready else connected)
    fWmi := s.host.fWmi.answered serviceReadyFrame.encode }

def unstarted : BringUp := ⟨freshHost, (0, []), ⟨[], [], []⟩⟩

def broughtUp (st : UInt8) : Bool × BringUp :=
  exec (promptTarget st) (bringUpSystem.body (some freshPair, 1)) unstarted

theorem broughtUp_reachable (st : UInt8) :
    Reachable bringUpSystem (fun _ s => s.trace = ⟨[], [], []⟩)
      (.busy (some freshPair, 1) unstarted (.ret (broughtUp st).1) (broughtUp st).2) := by
  have hidle : Reachable bringUpSystem (fun _ s => s.trace = ⟨[], [], []⟩) (.idle unstarted) :=
    .init rfl
  have hcalled := hidle.step (.call (c := (some freshPair, 1)) rfl)
  exact hcalled.exec fun _ => .single ⟨rfl, rfl⟩

end Qca9377
