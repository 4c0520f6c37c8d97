import Qca9377.Exchange

namespace Qca9377
open Bytes Interleaving
set_option autoImplicit true

variable {answer : List (List UInt8) → List UInt8}

theorem sendOnly_safe (h : BmiIdle answer t) (hq : responseBearing cmd = false) :
    Safe (Host.CtrlEngine (due answer)) (fun _ => True) (fun _ _ => True)
      (fun _ u => BmiIdle answer u) (CEManager.send cmd) t := by
  have hdue := h.pending
  rw [← queries_concat_silent _ hq] at hdue
  apply (ctrlSend_safe (rxBetween_outlasts hdue) h.at).mono (fun _ => id) (fun _ _ => id)
  rintro r u ⟨-, hu | hu⟩
  · exact hu.idle hu.rx.idle (Nat.le_of_eq (congrArg List.length hu.rx.received.symm)) h.pending
  · exact hu.idle hu.rx.idle (Nat.le_of_eq (congrArg List.length hu.rx.received.symm)) hdue

theorem BmiIdle.setBmi (h : BmiIdle answer t) (b : Bmi) : BmiIdle answer (t.setBmi b) :=
  ⟨h.tx, h.rx, h.answered, h.pending⟩

theorem bmiIdle_sendOnly (answer : List (List UInt8) → List UInt8) :
    SendOnly (Host.CtrlEngine (due answer)) (fun _ => True) (BmiIdle answer) where
  kept := ⟨fun _ _ => BmiIdle.engine, fun _ _ => trivial⟩
  send := fun _ _ hq h => sendOnly_safe h hq
  bmi := fun _ b h => h.setBmi b

theorem query_safe (h : BmiIdle answer h₀) (q : BmiQuery)
    (hnone : h₀.bmi.fDoneSent = false →
      (queries h₀.fCtrl.src.posted).length = h₀.fCtrl.dst.received.length) (respLen : Nat) :
    Safe (Host.CtrlEngine (due answer)) (fun _ => True) (fun _ _ => True)
      (fun r t => BmiIdle answer t ∧ ExchangePost answer h₀.fCtrl.src.posted q.cmd respLen r)
      (Bmi.exchangeWait q.cmd respLen) h₀ := by
  cases hdone : h₀.bmi.fDoneSent with
  | false => exact exchangeWait_safe h q.bearing (hnone hdone) respLen
  | true =>
    unfold Bmi.exchangeWait Bmi.setStage
    simp only [bind_eq_bind, pure_eq_ret, read_bind, modify_bind]
    apply Safe.op (bmiIdle_assertion answer fun b => b.fDoneSent = true) ⟨h, hdone⟩
      (fun _ _ => trivial)
    intro t ht
    rw [if_pos ht.2]
    apply Safe.op (bmiIdle_assertion answer fun _ => True) ⟨ht.1, trivial⟩ (fun _ _ => trivial)
    intro u hu
    apply Safe.ret (bmiIdle_assertion answer fun _ => True) ⟨hu.1.setBmi _, trivial⟩
    exact fun v hv => ⟨hv.1, nofun⟩

/-- BMI calls next to a target that answers its queries one by one, each at any time. -/
def bmiSystem (answer : List (List UInt8) → List UInt8) : System Host BmiCall BmiResult where
  init := fun h => TxFresh h.fCtrl.src ∧ RxFresh h.fCtrl.dst
  body := BmiCall.body
  env := Host.CtrlEngine (due answer)

theorem bmiSystem_body (c : BmiCall) : (bmiSystem answer).body c = c.body := rfl

/-- Every answer has been taken before a further query is put to the target. -/
def noneOutstanding (c : BmiCall) (h : Host) : Prop :=
  c.query.isSome → h.bmi.fDoneSent = false →
    (queries h.fCtrl.src.posted).length = h.fCtrl.dst.received.length

/-- What a call hands out is taken from the answer to its own query. -/
def BmiPost (answer : List (List UInt8) → List UInt8) (c : BmiCall) (h₀ : Host) (r : BmiResult)
    (h : Host) : Prop :=
  ∀ q, c.query = some q →
    let resp := (answerTo answer h₀.fCtrl.src.posted q.cmd).take q.respLen
    match r with
    | .bytes (some out) => out = resp
    | .word (some val) => val = decodeLE resp
    | .flag true =>
      h.bmi.fTargetVersion = decodeLE ((resp.drop 4).take 4) ∧
        h.bmi.fTargetType = decodeLE ((resp.drop 8).take 4)
    | _ => True

theorem bmiPost_outOf (hc : c.query = some q) (ht : c ≠ .getTargetInfo)
    (hr : ∀ bytes, resp = some bytes →
      bytes = (answerTo answer h₀.fCtrl.src.posted q.cmd).take q.respLen) :
    BmiPost answer c h₀ (c.outOf resp) t := by
  intro p hp
  obtain rfl := Option.some.inj (hc.symm.trans hp)
  cases resp with
  | none => cases c <;> trivial
  | some bytes =>
    cases c with
    | read32 => exact congrArg decodeLE (hr bytes rfl)
    | execute => exact congrArg decodeLE (hr bytes rfl)
    | getTargetInfo => exact absurd rfl ht
    | exchangeWait => exact hr bytes rfl
    | readMemory => exact hr bytes rfl
    | writeMemory => exact hr bytes rfl
    | write32 => exact hr bytes rfl
    | fastDownload => exact hr bytes rfl
    | done => exact hr bytes rfl

theorem query_call_safe (h : BmiIdle answer h₀) (hc : c.query = some q) (ht : c ≠ .getTargetInfo)
    (hnone : noneOutstanding c h₀) :
    Safe (Host.CtrlEngine (due answer)) (fun _ => True) (fun _ _ => True)
      (fun r t => BmiIdle answer t ∧ BmiPost answer c h₀ r t) c.body h₀ := by
  rw [BmiCall.body_query hc ht]
  apply Safe.bind
  apply (query_safe h q (hnone (by rw [hc]; rfl)) _).mono (fun _ => id) (fun _ _ => id)
  intro r t hr
  apply Safe.ret (bmiIdle_assertion answer fun _ => True) ⟨hr.1, trivial⟩
  intro u hu
  refine ⟨hu.1, bmiPost_outOf hc ht ?_⟩
  intro bytes hb
  obtain ⟨x, rfl, rfl⟩ := Option.map_eq_some_iff.1 hb
  exact (hr.2 x.1 x.2 rfl).2.2

theorem getTargetInfo_safe (h : BmiIdle answer h₀)
    (hnone : noneOutstanding .getTargetInfo h₀) :
    Safe (Host.CtrlEngine (due answer)) (fun _ => True) (fun _ _ => True)
      (fun r t => BmiIdle answer t ∧ BmiPost answer .getTargetInfo h₀ r t)
      (BmiCall.body .getTargetInfo) h₀ := by
  simp only [BmiCall.body, Bmi.getTargetInfo, bind_eq_bind, pure_eq_ret]
  apply Safe.bind
  apply Safe.bind
  apply (query_safe h .getTargetInfo (hnone rfl) 12).mono (fun _ => id) (fun _ _ => id)
  rintro r t ⟨ht, hpost⟩
  cases r with
  | none =>
    apply Safe.ret (bmiIdle_assertion answer fun _ => True) ⟨ht, trivial⟩
    intro u hu
    exact .ret (bmiIdle_assertion answer fun _ => True) hu fun v hv => ⟨hv.1, fun q _ => trivial⟩
  | some x =>
    obtain ⟨resp, nbytes⟩ := x
    have hresp := (hpost resp nbytes rfl).2.2
    apply Safe.op (bmiIdle_assertion answer fun _ => True) ⟨ht, trivial⟩ (fun _ _ => trivial)
    intro u hu
    have hset := bmiIdle_assertion answer fun b =>
      b.fTargetVersion = decodeLE ((resp.drop 4).take 4) ∧
        b.fTargetType = decodeLE ((resp.drop 8).take 4)
    apply Safe.ret hset ⟨hu.1.setBmi _, rfl, rfl⟩
    intro v hv
    apply Safe.ret hset hv
    intro w hw
    refine ⟨hw.1, fun q hq => ?_⟩
    obtain rfl := Option.some.inj hq
    exact hresp ▸ hw.2

theorem bmiSystem_sound (h : Reachable (bmiSystem answer) noneOutstanding cfg) :
    Sound (bmiSystem answer) (BmiIdle answer) (fun _ _ _ => True) (fun _ _ => True)
      (BmiPost answer) cfg := by
  apply h.sound
  · rintro h ⟨htx, hrx⟩
    refine ⟨htx.idle, hrx.single.idle, ?_, ?_⟩
    · rw [Answered, hrx.filled]
      exact List.nil_prefix
    · rw [htx.posted]
      exact Nat.zero_le _
  · exact fun _ _ hi hs => hi.engine hs
  · intro c h hg hi
    cases hc : c.query with
    | none =>
      apply ((bmiIdle_sendOnly answer).call hi hc).mono (fun _ => id) (fun _ _ => id)
      intro r t ht
      refine ⟨ht, fun q hq => ?_⟩
      rw [hc] at hq
      cases hq
    | some q =>
      by_cases ht : c = .getTargetInfo
      · subst ht
        exact getTargetInfo_safe hi hg
      · exact query_call_safe hi hc ht hg

/-- As long as no query is put to the target while an earlier answer is outstanding, every
successful exchange copies out the answer to its own command. -/
theorem own_answer (h : Reachable (bmiSystem answer) noneOutstanding (.busy c h₀ (.ret r) t)) :
    BmiPost answer c h₀ r t :=
  (bmiSystem_sound h).post

def Host.consuming (h : Host) : Host := h.setCtrl (h.fCtrl.setSrc h.fCtrl.src.eager)

def Host.delivering (f : List UInt8) (h : Host) : Host :=
  h.setCtrl (h.fCtrl.setDst (((h.fCtrl.dst.fill f).land f.length []).advance))

theorem Host.consuming_star (D : List (List UInt8) → DstRing → List UInt8 → Prop) (h : Host) :
    Relation.ReflTransGen (Host.CtrlEngine D) h h.consuming := by
  have hlift {s t : SrcRing} (hst : Relation.ReflTransGen SrcRing.Engine s t) :
      Relation.ReflTransGen (Host.CtrlEngine D) (h.setCtrl (h.fCtrl.setSrc s))
        (h.setCtrl (h.fCtrl.setSrc t)) := by
    induction hst with
    | refl => exact .refl
    | @tail u v _ hs ih => exact ih.tail (.src (h := h.setCtrl (h.fCtrl.setSrc u)) hs)
  exact hlift h.fCtrl.src.eager_star

theorem Host.delivering_star {D : List (List UInt8) → DstRing → List UInt8 → Prop} (h : Host)
    (hd : D h.fCtrl.src.consumed h.fCtrl.dst f)
    (hw : h.fCtrl.dst.fillIdx ≠ h.fCtrl.dst.dstWrIndex) (hu : h.fCtrl.dst.unlanded = [])
    (ha : h.fCtrl.dst.currentDRRI ≠ h.fCtrl.dst.dstWrIndex) :
    Relation.ReflTransGen (Host.CtrlEngine D) h (h.delivering f) := by
  have hfill : (h.fCtrl.dst.fill f).unlanded = [f.length] := by
    simp only [DstRing.fill, hu, List.nil_append]
  have h₁ : Host.CtrlEngine D h (h.setCtrl (h.fCtrl.setDst (h.fCtrl.dst.fill f))) :=
    .dst (.fill hd hw)
  have h₂ : Host.CtrlEngine D (h.setCtrl (h.fCtrl.setDst (h.fCtrl.dst.fill f)))
      (h.setCtrl (h.fCtrl.setDst ((h.fCtrl.dst.fill f).land f.length []))) :=
    .dst (h := h.setCtrl (h.fCtrl.setDst (h.fCtrl.dst.fill f))) (.land hfill)
  have h₃ : Host.CtrlEngine D
      (h.setCtrl (h.fCtrl.setDst ((h.fCtrl.dst.fill f).land f.length []))) (h.delivering f) :=
    .dst (h := h.setCtrl (h.fCtrl.setDst ((h.fCtrl.dst.fill f).land f.length []))) (.advance ha)
  exact .head h₁ (.head h₂ (.single h₃))

/-- A target that answers its first query with the target information and any later one with
eights. -/
def sampleAnswer (cs : List (List UInt8)) : List UInt8 :=
  if cs.length = 1 then encodeWords 4 [12, 0x05020000, 1] else encodeWords 4 [8, 8, 8]

def Host.answering (h : Host) : Host :=
  let g := h.consuming
  if g.fCtrl.src.consumed = [bmiCmd kBmiGetTargetInfo []] ∧ g.fCtrl.dst.filled = [] ∧
      g.fCtrl.dst.fillIdx ≠ g.fCtrl.dst.dstWrIndex ∧ g.fCtrl.dst.unlanded = [] ∧
      g.fCtrl.dst.currentDRRI ≠ g.fCtrl.dst.dstWrIndex then
    g.delivering (sampleAnswer [bmiCmd kBmiGetTargetInfo []])
  else g

theorem sampleAnswer_due {d : DstRing} (hc : frames = [bmiCmd kBmiGetTargetInfo []])
    (hf : d.filled = []) :
    due sampleAnswer frames d (sampleAnswer [bmiCmd kBmiGetTargetInfo []]) := by
  subst hc
  rw [due, hf]
  exact ⟨by decide +kernel, by decide, by decide⟩

theorem Host.answering_star (h : Host) :
    Relation.ReflTransGen (Host.CtrlEngine (due sampleAnswer)) h h.answering := by
  have hstart := Host.consuming_star (due sampleAnswer) h
  unfold Host.answering
  dsimp only
  split
  · next hg =>
    obtain ⟨hc, hf, hw, hu, ha⟩ := hg
    exact hstart.trans (Host.delivering_star _ (sampleAnswer_due hc hf) hw hu ha)
  · exact hstart

def informedHost : Host := (exec Host.answering (BmiCall.body .getTargetInfo) freshHost).2

theorem informedHost_reachable :
    Reachable (bmiSystem sampleAnswer) noneOutstanding
      (.busy .getTargetInfo freshHost (.ret (.flag true)) informedHost) := by
  have hstart : Reachable (bmiSystem sampleAnswer) noneOutstanding (.idle freshHost) :=
    .init ⟨⟨rfl, rfl, rfl, rfl, rfl, rfl, rfl⟩,
      ⟨rfl, rfl, rfl, rfl, rfl, rfl, rfl, rfl, rfl, rfl, rfl, rfl⟩⟩
  have hrun := (hstart.step (.call (c := .getTargetInfo) fun _ _ => rfl)).exec Host.answering_star
  have hr : (exec Host.answering (BmiCall.body .getTargetInfo) freshHost).1 = .flag true := by
    decide +kernel
  rw [bmiSystem_body, hr] at hrun
  exact hrun

theorem own_answer_target_info :
    informedHost.bmi.fTargetVersion = 0x05020000 ∧ informedHost.bmi.fTargetType = 1 :=
  own_answer informedHost_reachable .getTargetInfo rfl

theorem unansweredHost_reachable :
    Reachable (bmiSystem sampleAnswer) anyCall (.idle unansweredHost) := by
  have hstart : Reachable (bmiSystem sampleAnswer) anyCall (.idle freshHost) :=
    .init ⟨⟨rfl, rfl, rfl, rfl, rfl, rfl, rfl⟩,
      ⟨rfl, rfl, rfl, rfl, rfl, rfl, rfl, rfl, rfl, rfl, rfl, rfl⟩⟩
  have hrun := (hstart.step (.call (c := .getTargetInfo) trivial)).alone.step .finish
  rw [bmiSystem_body, exec_unanswered] at hrun
  exact hrun

/-- The late answer to that `getTargetInfo` in the rx buffer. -/
def lateHost : Host :=
  unansweredHost.consuming.delivering (sampleAnswer [bmiCmd kBmiGetTargetInfo []])

theorem lateHost_reachable : Reachable (bmiSystem sampleAnswer) anyCall (.idle lateHost) := by
  apply unansweredHost_reachable.envs
  have hc : unansweredHost.consuming.fCtrl.src.consumed = [bmiCmd kBmiGetTargetInfo []] := by
    decide +kernel
  exact (Host.consuming_star _ _).trans (Host.delivering_star _
    (sampleAnswer_due hc rfl) (by decide +kernel) (by decide +kernel) (by decide +kernel))

/-- The command to execute is answered with eights; the exchange hands out the late answer. -/
theorem late_answer_taken :
    ∃ t, Reachable (bmiSystem sampleAnswer) anyCall
        (.busy (.execute 0x1234 0) lateHost (.ret (.word (some 12))) t) ∧
      ¬ BmiPost sampleAnswer (.execute 0x1234 0) lateHost (.word (some 12)) t := by
  have hrun := (lateHost_reachable.step (.call (c := .execute 0x1234 0) trivial)).exec
    (Host.consuming_star (due sampleAnswer))
  have hr : (exec Host.consuming (BmiCall.body (.execute 0x1234 0)) lateHost).1 =
      .word (some 12) := by decide +kernel
  rw [bmiSystem_body, hr] at hrun
  refine ⟨_, hrun, fun hpost => ?_⟩
  have hval := hpost (.execute 0x1234 0) rfl
  revert hval
  decide +kernel

end Qca9377
