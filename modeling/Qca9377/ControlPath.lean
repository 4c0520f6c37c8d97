import Qca9377.Bmi
import Qca9377.Receive

namespace Qca9377
open Bytes Interleaving
set_option autoImplicit true

/-- The engines of the control pair; what the target has to deliver depends on the commands it
has consumed. -/
inductive Host.CtrlEngine (D : List (List UInt8) → DstRing → List UInt8 → Prop) :
    Host → Host → Prop
  | src (hs : SrcRing.Engine h.fCtrl.src s) : CtrlEngine D h (h.setCtrl (h.fCtrl.setSrc s))
  | dst (hd : DstRing.Engine (D h.fCtrl.src.consumed) h.fCtrl.dst d) :
      CtrlEngine D h (h.setCtrl (h.fCtrl.setDst d))

variable {D : List (List UInt8) → DstRing → List UInt8 → Prop}

/-- A program on the receive half keeps what concerns the rest of the host. -/
theorem ctrl_dst_safe {E : DstRing → List UInt8 → Prop} {F : SrcRing → Prop}
    (hsrc : ∀ s t, F s → SrcRing.Engine s t → F t) (hD : ∀ s, F s → ∀ d f, D s.consumed d f → E d f)
    (hF : F h.fCtrl.src) (hp : Safe (DstRing.Engine E) J G Q p h.fCtrl.dst) :
    Safe (Host.CtrlEngine D) (fun t => J t.fCtrl.dst) (fun _ _ => True)
      (fun r t => Q r t.fCtrl.dst ∧ F t.fCtrl.src ∧ t.bmi = h.bmi ∧ t.htc = h.htc)
      ((p.zoom CECopyPair.dst CECopyPair.setDst).zoom Host.fCtrl Host.setCtrl) h := by
  rw [Prog.zoom_zoom]
  have hz := Safe.zoom (fun t : Host => t.fCtrl.dst) (fun t d => t.setCtrl (t.fCtrl.setDst d))
    (Host.CtrlEngine D) (fun t => F t.fCtrl.src ∧ t.bmi = h.bmi ∧ t.htc = h.htc) (fun _ _ => rfl)
    (by
      intro t t' ht hs
      cases hs with
      | src hs => exact ⟨⟨hsrc _ _ ht.1 hs, ht.2⟩, .refl⟩
      | dst hd => exact ⟨ht, .single (hd.mono (hD _ ht.1))⟩)
    (fun _ _ ht => ht) ⟨hF, rfl, rfl⟩ hp
  exact hz.mono (fun _ ht => ht.1) (fun _ _ _ => trivial) fun _ _ => id

/-- A program on the source half keeps what concerns the rest of the host. -/
theorem ctrl_src_safe {I : SrcRing → DstRing → Prop}
    (hsrc : ∀ s t d, I s d → SrcRing.Engine s t → I t d)
    (hG : ∀ s t d, I s d → G s t → I t d)
    (hdst : ∀ s d e, J s → I s d → DstRing.Engine (D s.consumed) d e → I s e)
    (hI : I h.fCtrl.src h.fCtrl.dst) (hp : Safe SrcRing.Engine J G Q p h.fCtrl.src) :
    Safe (Host.CtrlEngine D) (fun t => I t.fCtrl.src t.fCtrl.dst) (fun _ _ => True)
      (fun r t => Q r t.fCtrl.src ∧ I t.fCtrl.src t.fCtrl.dst ∧ t.bmi = h.bmi ∧ t.htc = h.htc)
      ((p.zoom CECopyPair.src CECopyPair.setSrc).zoom Host.fCtrl Host.setCtrl) h := by
  rw [Prog.zoom_zoom]
  have hz := Safe.zoom (fun t : Host => t.fCtrl.src) (fun t s => t.setCtrl (t.fCtrl.setSrc s))
    (Host.CtrlEngine D) (fun t => t.bmi = h.bmi ∧ t.htc = h.htc) (fun _ _ => rfl)
    (by
      intro t t' ht hs
      cases hs with
      | src hs => exact ⟨ht, .single hs⟩
      | dst => exact ⟨ht, .refl⟩)
    (fun _ _ ht => ht) ⟨rfl, rfl⟩ hp
  have hk := hz.keep (I := fun t => I t.fCtrl.src t.fCtrl.dst)
    (by
      intro t t' ht hi hs
      cases hs with
      | src hs => exact hsrc _ _ _ hi hs
      | dst hd => exact hdst _ _ _ ht.1 hi hd)
    (by
      rintro t t' _ hi ⟨hs, s, rfl⟩
      exact hG _ _ _ hi hs) hI
  exact hk.mono (fun _ ht => ht.2) (fun _ _ _ => trivial) fun _ _ ht => ⟨ht.1.1, ht.2, ht.1.2⟩

/-- A fact about the host that outlasts every command the target does not answer. -/
structure SendOnly (env : Host → Host → Prop) (J P : Host → Prop) : Prop where
  kept : Assertion env J P
  send : ∀ cmd t, responseBearing cmd = false → P t →
    Safe env J (fun _ _ => True) (fun _ u => P u) (CEManager.send cmd) t
  bmi : ∀ t b, P t → P (t.setBmi b)

section SendOnly

variable {env : Host → Host → Prop} {J P : Host → Prop}

theorem SendOnly.ret {r : α} (hP : SendOnly env J P) (h : P t) :
    Safe env J (fun _ _ => True) (fun _ u => P u) (.ret r) t := .ret hP.kept h fun _ => id

theorem SendOnly.orFail {k : Prog Host Bool} (hP : SendOnly env J P) (h : P t)
    (hq : responseBearing cmd = false)
    (hk : ∀ u, P u → Safe env J (fun _ _ => True) (fun _ u => P u) k u) :
    Safe env J (fun _ _ => True) (fun _ u => P u)
      ((CEManager.send cmd).bind fun ok => if (!ok) = true then .ret false else k) t := by
  apply Safe.bind
  apply (hP.send cmd t hq h).mono (fun _ => id) (fun _ _ => id)
  intro r u hu
  cases r with
  | false => exact hP.ret hu
  | true => exact hk u hu

theorem SendOnly.writeChunks (hP : SendOnly env J P) (payload : List UInt8) (addr : Nat)
    (buf : List UInt8) (h : P t) :
    Safe env J (fun _ _ => True) (fun _ u => P u) (Bmi.writeChunks payload addr buf) t := by
  induction payload, addr, buf using Bmi.writeChunks.induct generalizing t with
  | case1 payload addr =>
    rw [Bmi.writeChunks]
    exact hP.ret h
  | case2 payload addr buf hbuf tx filled =>
    rename_i ih
    rw [Bmi.writeChunks, dif_neg hbuf]
    exact hP.orFail h (responseBearing_bmiCmd _ _ _) fun _ hu => ih hu

theorem SendOnly.lzChunks (hP : SendOnly env J P) (buf : List UInt8) (h : P t) :
    Safe env J (fun _ _ => True) (fun _ u => P u) (Bmi.lzChunks buf) t := by
  induction buf using Bmi.lzChunks.induct generalizing t with
  | case1 =>
    rw [Bmi.lzChunks]
    exact hP.ret h
  | case2 buf hbuf tx =>
    rename_i ih
    rw [Bmi.lzChunks, dif_neg hbuf]
    exact hP.orFail h (responseBearing_bmiCmd _ _ _) fun _ hu => ih hu

theorem SendOnly.writeMemory (hP : SendOnly env J P) (stack : List UInt8) (addr : Nat)
    (buf : List UInt8) (h : P t) :
    Safe env J (fun _ _ => True) (fun _ u => P u) (Bmi.writeMemory stack addr buf) t := by
  rw [Bmi.writeMemory]
  split
  · exact hP.ret h
  · exact hP.writeChunks stack addr buf h

theorem SendOnly.fastDownload (hP : SendOnly env J P) (addr : Nat) (buf : List UInt8)
    (h : P t) : Safe env J (fun _ _ => True) (fun _ u => P u) (Bmi.fastDownload addr buf) t := by
  have hstart (a : Nat) : responseBearing (bmiCmd kBmiLzStreamStart [a]) = false := by
    rw [← List.append_nil (bmiCmd _ _), responseBearing_bmiCmd]
    rfl
  have hflush {u : Host} (hu : P u) :
      Safe env J (fun _ _ => True) (fun _ u => P u)
        ((CEManager.send (bmiCmd kBmiLzStreamStart [0])).bind fun ok =>
          if (!ok) = true then .ret false else .ret true) u :=
    hP.orFail hu (hstart 0) fun v hv => hP.ret hv
  unfold Bmi.fastDownload
  simp only [bind_eq_bind, pure_eq_ret]
  split
  · exact hP.ret h
  apply hP.orFail h (hstart addr)
  intro u hu
  apply Safe.bind
  apply (hP.lzChunks _ hu).mono (fun _ => id) (fun _ _ => id)
  intro r v hv
  cases r with
  | false => exact hP.ret hv
  | true =>
    simp only [Bool.not_true, Bool.false_eq_true, if_false]
    split
    · exact hP.orFail hv (responseBearing_bmiCmd _ _ _) fun w hw => hflush hw
    · exact hflush hv

theorem SendOnly.done (hP : SendOnly env J P) (h : P t) :
    Safe env J (fun _ _ => True) (fun _ u => P u) Bmi.done t := by
  have hq : responseBearing (bmiCmd kBmiDone []) = false := by
    rw [← List.append_nil (bmiCmd _ _), responseBearing_bmiCmd]
    rfl
  apply hP.orFail h hq
  intro u hu
  apply Safe.op hP.kept hu (fun _ _ => trivial)
  intro v hv
  exact hP.ret (hP.bmi _ _ hv)

theorem SendOnly.call {c : BmiCall} (hP : SendOnly env J P) (h : P t) (hc : c.query = none) :
    Safe env J (fun _ _ => True) (fun _ u => P u) c.body t := by
  cases c with
  | exchangeWait => cases hc
  | getTargetInfo => cases hc
  | readMemory addr len =>
    simp only [BmiCall.query] at hc
    split at hc
    · next hlen =>
      rw [BmiCall.body, Bmi.readMemory, if_pos hlen]
      exact hP.ret h
    · cases hc
  | read32 => cases hc
  | execute => cases hc
  | writeMemory stack addr buf => exact Safe.map (hP.writeMemory stack addr buf h)
  | write32 stack itemOffset val => exact Safe.map (hP.writeMemory stack _ _ h)
  | fastDownload addr buf => exact Safe.map (hP.fastDownload addr buf h)
  | done => exact Safe.map (hP.done h)

end SendOnly

theorem Host.exec_ctrlSend (h : Host) (hlen : ¬ BadLen frame.length)
    (hq : h.fCtrl.src.srri = h.fCtrl.src.fSrcWrite) :
    exec id (CEManager.send frame) h =
      (false, h.setCtrl (h.fCtrl.setSrc (h.fCtrl.src.expire frame))) := by
  rw [CEManager.send, CECopyPair.send, Prog.zoom_zoom,
    exec_zoom (fun h : Host => h.fCtrl.src) (fun h s => h.setCtrl (h.fCtrl.setSrc s))
      (fun _ _ => rfl) (fun _ _ _ => rfl) (fun _ => rfl), exec_send hlen hq]

/-- The control pair with one more entry posted. -/
def Host.posting (h : Host) : Host :=
  h.setCtrl (h.fCtrl.setDst h.fCtrl.dst.writeDesc.stepWrite.ring)

def Host.asking (h : Host) : Host := (h.stage .postRecv).posting.stage .send

/-- An exchange whose command is not consumed in time fails and leaves entry and command behind. -/
theorem exchangeWait_expires (h : Host) (respLen : Nat) (hdone : h.bmi.fDoneSent = false)
    (hlen : ¬ BadLen cmd.length) (hq : h.fCtrl.src.srri = h.fCtrl.src.fSrcWrite) :
    exec id (Bmi.exchangeWait cmd respLen) h =
      (none, h.asking.setCtrl (h.asking.fCtrl.setSrc (h.fCtrl.src.expire cmd))) := by
  have hpost (t : Host) : exec id CEManager.postRecv t = (true, t.posting) := rfl
  have hsend := Host.exec_ctrlSend h.asking hlen hq
  rw [Host.asking] at hsend
  unfold Bmi.exchangeWait Bmi.setStage
  simp only [bind_eq_bind, pure_eq_ret, read_bind, modify_bind, exec_op, id_eq]
  rw [if_neg (by rw [hdone]; exact Bool.false_ne_true)]
  simp only [exec_op, exec_bind, id_eq, hpost, hsend, Bool.not_true, Bool.not_false,
    Bool.false_eq_true, if_false, if_true, exec_ret]
  rfl

def unansweredHost : Host :=
  freshHost.asking.setCtrl
    (freshHost.asking.fCtrl.setSrc (freshHost.fCtrl.src.expire (bmiCmd kBmiGetTargetInfo [])))

theorem exec_unanswered :
    exec id (BmiCall.body .getTargetInfo) freshHost = (.flag false, unansweredHost) := by
  have hlen : ¬ BadLen (bmiCmd kBmiGetTargetInfo []).length := by decide
  simp only [BmiCall.body, Bmi.getTargetInfo, bind_eq_bind, exec_bind,
    exchangeWait_expires freshHost 12 rfl hlen rfl, pure_eq_ret, exec_ret]
  rfl

end Qca9377
