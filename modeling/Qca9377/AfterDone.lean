import Qca9377.Answers

namespace Qca9377
open Bytes Interleaving
set_option autoImplicit true

def bmiRuns (env : Host → Host → Prop) (init : Host → Prop) : System Host BmiCall BmiResult where
  init := init
  body := BmiCall.body
  env := env

/-- The calls that give the target a command without asking for an answer. -/
def BmiCall.Sends : BmiCall → Prop
  | .writeMemory _ _ buf => buf ≠ []
  | .write32 _ _ _ => True
  | .fastDownload _ buf => buf ≠ []
  | .done => True
  | _ => False

def BmiResult.Failed : BmiResult → Prop
  | .flag ok => ok = false
  | .bytes resp => resp = none
  | .word val => val = none

def SameRings (h h' : Host) : Prop := h'.fCtrl = h.fCtrl ∧ h'.fWmi = h.fWmi

/-- The next access of a call leaves the rings alone, and what it returns is a failure. -/
def Refusing : Config Host BmiCall BmiResult → Prop
  | .idle _ => True
  | .busy _ _ (.op u _) h => SameRings h (u h)
  | .busy _ _ (.ret r) _ => r.Failed

def DoneSent (h : Host) : Prop := h.bmi.fDoneSent = true

section Latch

variable {env : Host → Host → Prop}

theorem doneSent_assertion (henv : ∀ s t, env s t → t.bmi = s.bmi) :
    Assertion env DoneSent DoneSent := by
  constructor
  · intro s t hs hst
    rw [DoneSent, henv s t hst]
    exact hs
  · exact fun _ => id

theorem exchangeWait_refused (henv : ∀ s t, env s t → t.bmi = s.bmi) (h : DoneSent s)
    (cmd : List UInt8) (respLen : Nat) :
    Safe env DoneSent SameRings (fun r t => r = none ∧ DoneSent t)
      (Bmi.exchangeWait cmd respLen) s := by
  have hP := doneSent_assertion henv
  unfold Bmi.exchangeWait Bmi.setStage
  simp only [bind_eq_bind, pure_eq_ret, read_bind, modify_bind]
  apply Safe.op hP h (fun _ _ => ⟨rfl, rfl⟩)
  intro t ht
  have hflag : t.bmi.fDoneSent = true := ht
  rw [if_pos hflag]
  apply Safe.op hP ht (fun _ _ => ⟨rfl, rfl⟩)
  intro u hu
  exact .ret hP hu fun v hv => ⟨rfl, hv⟩

theorem BmiCall.outOf_failed {c : BmiCall} : (c.outOf none).Failed := by
  cases c <;> rfl

/-- A call that neither sends a bare command nor may ask for an answer any more. -/
theorem BmiCall.refused {c : BmiCall} (henv : ∀ s t, env s t → t.bmi = s.bmi) (h : DoneSent s)
    (hc : ¬ c.Sends) :
    Safe env DoneSent SameRings (fun r t => r.Failed ∧ DoneSent t) c.body s := by
  have hP := doneSent_assertion henv
  have hret {r : BmiResult} {t : Host} (hr : r.Failed) (ht : DoneSent t) :
      Safe env DoneSent SameRings (fun r t => r.Failed ∧ DoneSent t) (.ret r) t :=
    .ret hP ht fun u hu => ⟨hr, hu⟩
  cases hq : c.query with
  | some q =>
    by_cases hinfo : c = .getTargetInfo
    · subst hinfo
      apply Safe.bind
      apply Safe.bind
      apply (exchangeWait_refused henv h _ _).mono (fun _ => id) (fun _ _ => id)
      rintro r t ⟨rfl, ht⟩
      exact .ret hP ht fun u hu => hret rfl hu
    · rw [BmiCall.body_query hq hinfo]
      apply Safe.bind
      apply (exchangeWait_refused henv h _ _).mono (fun _ => id) (fun _ _ => id)
      rintro r t ⟨rfl, ht⟩
      exact hret BmiCall.outOf_failed ht
  | none =>
    cases c with
    | exchangeWait => cases hq
    | getTargetInfo => cases hq
    | readMemory addr len =>
      by_cases hlen : len = 0 ∨ kBmiMaxDataSize < len
      · rw [BmiCall.body, Bmi.readMemory, if_pos hlen]
        exact hret rfl h
      · rw [BmiCall.query, if_neg hlen] at hq
        cases hq
    | read32 => cases hq
    | execute => cases hq
    | writeMemory stack addr buf =>
      obtain rfl : buf = [] := not_not.1 hc
      exact hret rfl h
    | write32 => exact absurd trivial hc
    | fastDownload addr buf =>
      obtain rfl : buf = [] := not_not.1 hc
      exact hret rfl h
    | done => exact absurd trivial hc

theorem done_sets (henv : ∀ s t, env s t → t.bmi = s.bmi) (s : Host) :
    Safe env (fun _ => True) (fun _ _ => True) (fun r t => r = .flag true → DoneSent t)
      (BmiCall.body .done) s := by
  have hP : Assertion env (fun _ => True) DoneSent :=
    ⟨(doneSent_assertion henv).step, fun _ _ => trivial⟩
  have htrue : Assertion env (fun _ => True) (fun _ => True) :=
    ⟨fun _ _ _ _ => trivial, fun _ _ => trivial⟩
  apply Safe.bind
  apply Safe.bind
  apply (Safe.any _ s).mono (fun _ => id) (fun _ _ => id)
  intro ok t _
  cases ok with
  | false =>
    apply Safe.ret htrue trivial
    intro u _
    exact .ret htrue trivial fun v _ => nofun
  | true =>
    apply Safe.op htrue trivial (fun _ _ => trivial)
    intro u _
    have hset : DoneSent (u.setBmi { u.bmi with fDoneSent := true }) := rfl
    apply Safe.ret hP hset
    intro v hv
    exact .ret hP hv fun w hw _ => hw

theorem done_latched (henv : ∀ s t, env s t → t.bmi = s.bmi)
    (h : Reachable (bmiRuns env init) anyCall (.busy .done h₀ (.ret (.flag true)) s)) :
    DoneSent s := by
  have hsound : Sound (bmiRuns env init) (fun _ => True) (fun _ _ _ => True) (fun _ _ => True)
      (fun c _ r t => c = .done → r = .flag true → DoneSent t)
      (.busy .done h₀ (.ret (.flag true)) s) := by
    apply h.sound (fun _ _ => trivial) (fun _ _ _ _ => trivial)
    intro c s _ _
    by_cases hc : c = .done
    · subst hc
      exact (done_sets henv s).mono (fun _ => id) (fun _ _ => id)
        fun _ _ hr => ⟨trivial, fun _ => hr⟩
    · exact (Safe.any _ s).mono (fun _ => id) (fun _ _ => id)
        fun _ _ _ => ⟨trivial, fun he => absurd he hc⟩
  exact hsound.post rfl rfl

/-- Once `done` has returned true, calls that send no bare commands leave the rings alone and
fail, in every state that they go through. -/
theorem refusing_after_done {guard : BmiCall → Host → Prop} (henv : ∀ s t, env s t → t.bmi = s.bmi)
    (hdone : Reachable (bmiRuns env init) anyCall (.busy .done h₀ (.ret (.flag true)) s))
    (hall : ∀ c t, guard c t → ¬ c.Sends) (hrun : Reachable (bmiRuns env (· = s)) guard a) :
    Refusing a := by
  have hsound : Sound (bmiRuns env (· = s)) DoneSent (fun _ _ => DoneSent) SameRings
      (fun _ _ r _ => r.Failed) a := by
    apply hrun.sound
    · intro t ht
      rw [show t = s from ht]
      exact done_latched henv hdone
    · exact fun _ _ ht hs => (doneSent_assertion henv).step ht hs
    · intro c t hc ht
      exact (BmiCall.refused henv ht (hall c t hc)).mono (fun _ => id) (fun _ _ => id)
        fun _ _ hr => hr.symm
  cases a with
  | idle t => trivial
  | busy c s₀ p t =>
    cases p with
    | ret r => exact hsound.post
    | op u n => exact (hsound t .refl).2.1

end Latch

theorem BmiCall.sends_frame {c : BmiCall} (hc : c.Sends) :
    ∃ frame, ∃ k : Bool → Prog Host BmiResult,
      c.body = (CEManager.send frame).bind k ∧ ¬ BadLen frame.length ∧
        k false = .ret (.flag false) := by
  have hwrite (stack : List UInt8) (addr : Nat) (buf : List UInt8) (hbuf : buf ≠ []) :
      ∃ frame, ∃ k : Bool → Prog Host BmiResult,
        (Bmi.writeMemory stack addr buf).bind (fun ok => .ret (.flag ok)) =
          (CEManager.send frame).bind k ∧ ¬ BadLen frame.length ∧
          k false = .ret (.flag false) := by
    rw [Bmi.writeMemory, if_neg hbuf, Bmi.writeChunks, dif_neg hbuf]
    refine ⟨_, _, Prog.bind_assoc _ _ _, ?_, rfl⟩
    simp only [BadLen, List.length_append, List.length_take, bmiCmd, encodeWords_length,
      List.length_cons, List.length_nil, kTxBufSz, kBmiMaxDataSize]
    omega
  cases c with
  | writeMemory stack addr buf => exact hwrite stack addr buf hc
  | write32 stack itemOffset val =>
    apply hwrite
    exact List.ne_nil_of_length_eq_add_one (encodeLE_length 4 val)
  | fastDownload addr buf =>
    have hbuf : buf ≠ [] := hc
    rw [BmiCall.body, Bmi.fastDownload, if_neg hbuf]
    refine ⟨_, _, Prog.bind_assoc _ _ _, ?_, rfl⟩
    rw [bmiCmd, encodeWords_length, List.length_cons, List.length_singleton]
    decide
  | done =>
    refine ⟨_, _, Prog.bind_assoc _ _ _, ?_, rfl⟩
    decide
  | _ => cases hc

theorem exec_refusing {S : System Host BmiCall BmiResult} {guard : BmiCall → Host → Prop}
    (hall : ∀ a, Reachable S guard a → Refusing a) (h : Reachable S guard (.busy c s₀ p s)) :
    SameRings s (exec id p s).2 := by
  induction p generalizing s with
  | ret r => exact ⟨rfl, rfl⟩
  | op u n ih =>
    have hstep := hall _ h
    have hrest := ih s (h.step .host)
    exact ⟨hrest.1.trans hstep.1, hrest.2.trans hstep.2⟩

/-- On an idle ring a call that sends a bare command posts it, whatever was sent before. -/
theorem sends_not_refusing {S : System Host BmiCall BmiResult} {guard : BmiCall → Host → Prop}
    (hbody : S.body = BmiCall.body) (hs : Reachable S guard (.idle s)) (hc : c.Sends)
    (hg : guard c s) (hidle : s.fCtrl.src.srri = s.fCtrl.src.fSrcWrite) :
    ∃ a, Reachable S guard a ∧ ¬ Refusing a := by
  obtain ⟨frame, k, hsend, hlen, hk⟩ := BmiCall.sends_frame hc
  by_contra hno
  have hall (a) (ha : Reachable S guard a) : Refusing a := by
    by_contra hr
    exact hno ⟨a, ha, hr⟩
  have hsame := (exec_refusing hall (hs.step (.call hg))).1
  have hexec : (exec id (S.body c) s).2 =
      s.setCtrl (s.fCtrl.setSrc (s.fCtrl.src.expire frame)) := by
    rw [hbody, hsend, exec_bind, Host.exec_ctrlSend s hlen hidle, hk]
    rfl
  rw [hexec] at hsame
  have hposted := congrArg (fun p => p.src.posted.length) hsame
  have hmore : (s.fCtrl.src.expire frame).posted.length = s.fCtrl.src.posted.length + 1 := by
    have happ : (s.fCtrl.src.expire frame).posted = s.fCtrl.src.posted ++ [frame] := rfl
    rw [happ, List.length_append, List.length_singleton]
  exact absurd (hmore.symm.trans hposted) (Nat.succ_ne_self _)

/-- With these calls after `done`, no run sends anything more. -/
def LatchHolds (allowed : BmiCall → Prop) : Prop :=
  ∀ env init h₀ s a, (∀ s t, env s t → t.bmi = s.bmi) →
    Reachable (bmiRuns env init) anyCall (.busy .done h₀ (.ret (.flag true)) s) →
      Reachable (bmiRuns env (· = s)) (fun c _ => allowed c) a → Refusing a

def sampleEngine : Host → Host → Prop := Host.CtrlEngine fun _ => fits

theorem sampleEngine_bmi (s t : Host) (h : sampleEngine s t) : t.bmi = s.bmi := by
  cases h with
  | src => rfl
  | dst => rfl

def doneHost : Host := (exec Host.consuming (BmiCall.body .done) freshHost).2

theorem doneHost_reachable :
    Reachable (bmiRuns sampleEngine (· = freshHost)) anyCall
      (.busy .done freshHost (.ret (.flag true)) doneHost) := by
  have hstart : Reachable (bmiRuns sampleEngine (· = freshHost)) anyCall (.idle freshHost) :=
    .init rfl
  have hrun := (hstart.step (.call (c := .done) trivial)).exec (Host.consuming_star _)
  have hr : (exec Host.consuming (BmiCall.body .done) freshHost).1 = .flag true := by
    decide +kernel
  have hbody : (bmiRuns sampleEngine (· = freshHost)).body .done = BmiCall.body .done := rfl
  rw [hbody, hr] at hrun
  exact hrun

/-- The latch, which only the exchanges look at, holds exactly for the calls that send no bare
commands. -/
theorem latchHolds_iff (allowed : BmiCall → Prop) :
    LatchHolds allowed ↔ ∀ c, allowed c → ¬ c.Sends := by
  constructor
  · intro h c hc hsends
    have hidle : doneHost.fCtrl.src.srri = doneHost.fCtrl.src.fSrcWrite := by decide +kernel
    have hstart : Reachable (bmiRuns sampleEngine (· = doneHost)) (fun c _ => allowed c)
        (.idle doneHost) := .init rfl
    obtain ⟨a, ha, hnot⟩ := sends_not_refusing rfl hstart hsends hc hidle
    exact hnot (h _ _ _ _ a sampleEngine_bmi doneHost_reachable ha)
  · intro h env init h₀ s a henv hdone hrun
    exact refusing_after_done henv hdone (fun c _ hc => h c hc) hrun

theorem write_after_done :
    Reachable (bmiRuns sampleEngine (· = freshHost)) anyCall
        (.busy .done freshHost (.ret (.flag true)) doneHost) ∧
      ∃ a, Reachable (bmiRuns sampleEngine (· = doneHost))
          (fun c _ => c = .writeMemory [] 0x400 [1]) a ∧ ¬ Refusing a := by
  refine ⟨doneHost_reachable, ?_⟩
  have hsends : (BmiCall.writeMemory [] 0x400 [1]).Sends := List.cons_ne_nil _ _
  have hidle : doneHost.fCtrl.src.srri = doneHost.fCtrl.src.fSrcWrite := by decide +kernel
  exact sends_not_refusing rfl (.init rfl) hsends rfl hidle

end Qca9377
