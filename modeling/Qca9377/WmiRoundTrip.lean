import Qca9377.WmiPath
import Qca9377.HtcFrame
import Qca9377.Posting

namespace Qca9377
open Bytes Interleaving
set_option autoImplicit true

/-- An environment that rings no doorbell of CE3 and leaves the HTC object alone. -/
def KeepsWmi (R : Host → Host → Prop) : Prop :=
  ∀ s t, R s t → t.fWmi.src.posted = s.fWmi.src.posted ∧ t.htc = s.htc

/-- Nothing has been posted on CE3 behind `P`, and the HTC object is `c`. -/
def WmiStill (P : List (List UInt8)) (c : Htc) (t : Host) : Prop :=
  t.fWmi.src.posted = P ∧ t.htc = c

/-- On CE3 nothing has been posted behind `P`, or one frame. -/
def PostedOnce (P : List (List UInt8)) (f : List UInt8) (t : Host) : Prop :=
  t.fWmi.src.posted = P ∨ t.fWmi.src.posted = P ++ [f]

section Runs

variable {R : Host → Host → Prop}

theorem wmiStill_assertion (hR : KeepsWmi R) (P : List (List UInt8)) (f : List UInt8) (c : Htc) :
    Assertion R (PostedOnce P f) (WmiStill P c) := by
  constructor
  · intro s t hs hst
    obtain ⟨hposted, hhtc⟩ := hR s t hst
    exact ⟨hposted.trans hs.1, hhtc.trans hs.2⟩
  · exact fun s hs => .inl hs.1

theorem wmiPostRecvIfIdle_still (hR : KeepsWmi R) (f : List UInt8) (h : WmiStill P c s) :
    Safe R (PostedOnce P f) (fun _ _ => True) (fun _ t => WmiStill P c t)
      CEManager.wmiPostRecvIfIdle s := by
  have hpost {t : Host} (ht : WmiStill P c t) :
      Safe R (PostedOnce P f) (fun _ _ => True) (fun _ t => WmiStill P c t)
        CEManager.wmiPostRecv t := by
    rw [CEManager.wmiPostRecv, CECopyPair.postRecv, Prog.zoom_zoom]
    have hz := Safe.zoom (fun t : Host => t.fWmi.dst)
      (fun t d => t.setWmi (t.fWmi.setDst d)) R (WmiStill P c) (fun _ _ => rfl)
      (fun t t' ht hst => ⟨(wmiStill_assertion hR P f c).step ht hst, .single trivial⟩)
      (fun _ _ ht => ht) ht (Safe.any (R := fun _ _ => True) DstRing.postRecv t.fWmi.dst)
    exact hz.mono (fun _ hu => .inl hu.2.1) (fun _ _ _ => trivial) fun _ _ hu => hu.2
  apply Safe.op (wmiStill_assertion hR P f c) h (fun _ _ => trivial)
  intro t ht
  dsimp only [Prog.ret_bind, bind_eq_bind, id_eq]
  split
  · exact .ret (wmiStill_assertion hR P f c) ht fun _ => id
  · exact hpost ht

theorem wmiSend_once (hR : KeepsWmi R) (f : List UInt8) (h : WmiStill P c s) :
    Safe R (PostedOnce P f) (fun _ _ => True)
      (fun r t => PostedOnce P f t ∧ (r = true → t.fWmi.src.posted = P ++ [f]))
      (CEManager.wmiSend f) s := by
  rw [CEManager.wmiSend, CECopyPair.send, Prog.zoom_zoom]
  have hz := Safe.zoom (fun t : Host => t.fWmi.src) (fun t s => t.setWmi (t.fWmi.setSrc s)) R
    (fun _ => True) (fun _ _ => rfl) (fun t t' _ hs => ⟨trivial, .single (hR t t' hs).1⟩)
    (fun _ _ _ => trivial) trivial (SrcRing.send_posted f s.fWmi.src)
  rw [h.1] at hz
  exact hz.inv_post.mono (fun _ ht => ht.1) (fun _ _ _ => trivial) fun _ _ ht => ⟨ht.1.1, ht.2.1⟩

theorem sendWmi_once (hR : KeepsWmi R) (payload : List UInt8) (h : WmiStill P c s) :
    Safe R (PostedOnce P (c.wmiFrame payload)) (fun _ _ => True)
      (fun r t => r = true → t.fWmi.src.posted = P ++ [c.wmiFrame payload])
      (Htc.sendWmi payload) s := by
  have hstill := wmiStill_assertion hR P (c.wmiFrame payload) c
  have hrefuse {t : Host} (ht : WmiStill P c t) :
      Safe R (PostedOnce P (c.wmiFrame payload)) (fun _ _ => True)
        (fun r t => r = true → t.fWmi.src.posted = P ++ [c.wmiFrame payload]) (.ret false) t :=
    .ret hstill ht fun _ _ => nofun
  have hsent (r : Bool) : Assertion R (PostedOnce P (c.wmiFrame payload)) fun t =>
      PostedOnce P (c.wmiFrame payload) t ∧
        (r = true → t.fWmi.src.posted = P ++ [c.wmiFrame payload]) := by
    constructor
    · intro t u ht hs
      rw [PostedOnce, (hR t u hs).1]
      exact ht
    · exact fun t ht => ht.1
  unfold Htc.sendWmi
  simp only [bind_eq_bind, pure_eq_ret, read_bind, modify_bind]
  apply Safe.op hstill h (fun _ _ => trivial)
  intro t ht
  rw [ht.2]
  split
  · exact hrefuse ht
  split
  · exact hrefuse ht
  split
  · exact hrefuse ht
  apply Safe.bind
  apply (wmiPostRecvIfIdle_still hR (c.wmiFrame payload) ht).mono (fun _ => id) (fun _ _ => id)
  intro ok u hu
  cases ok with
  | false => exact hrefuse hu
  | true =>
    have hseq : Assertion R (PostedOnce P (c.wmiFrame payload))
        (WmiStill P { c with fWmiSeq := c.fWmiSeq + 1 }) := wmiStill_assertion hR P _ _
    apply Safe.op hstill hu (fun _ _ => trivial)
    intro v hv
    have hv' : WmiStill P { c with fWmiSeq := c.fWmiSeq + 1 }
        (v.setHtc { v.htc with fWmiSeq := v.htc.fWmiSeq + 1 }) := by
      refine ⟨hv.1, ?_⟩
      rw [hv.2]
      rfl
    apply Safe.bind
    apply (wmiSend_once hR (c.wmiFrame payload) hv').mono (fun _ => id) (fun _ _ => id)
    intro r w hw
    cases r with
    | false => exact .ret (hsent false) hw fun _ hx => hx.2
    | true =>
      apply Safe.op (hsent true) hw (fun _ _ => trivial)
      exact fun x hx => .ret (hsent true) hx fun _ hy => hy.2

end Runs

theorem sendWmi_refuses (hlen : payload.length = 0 ∨ 2040 < payload.length) :
    Htc.sendWmi payload = .op id fun _ => .ret false := by
  unfold Htc.sendWmi
  simp only [bind_eq_bind, pure_eq_ret, read_bind]
  congr 1
  funext h
  rw [if_pos hlen, ite_self]

/-- The frame as a receiver sees it: a payload and no trailer. -/
def Htc.asReceived (c : Htc) (payload : List UInt8) : HtcFrame where
  eid := c.fWmiEid
  flags := kHtcTxFlagNeedCreditUpdate
  ctrlByte1 := c.fWmiSeq
  pad0 := 0
  pad1 := 0
  payload := payload
  trailer := []
  extra := []

theorem Htc.asReceived_encode (c : Htc) (payload : List UInt8) :
    (c.asReceived payload).encode = c.wmiFrame payload := by
  simp only [HtcFrame.encode, HtcFrame.header, Htc.asReceived, Htc.wmiFrame, htcHdr,
    List.length_nil, Nat.add_zero, List.append_nil]
  rfl

theorem Htc.wmiFrame_length (c : Htc) (payload : List UInt8) :
    (c.wmiFrame payload).length = kHtcFrameHdrLen + payload.length := by
  rw [← c.asReceived_encode, HtcFrame.encode_length]
  rfl

theorem Htc.recvFrame_wmiFrame (c d : Htc) (hmax : payload.length ≤ 2040)
    (heid : d.fWmiEid = c.fWmiEid) (hbuf : payload.length ≤ bufLen) (beyond : List UInt8) :
    d.recvFrame (c.wmiFrame payload ++ beyond) (c.wmiFrame payload).length bufLen =
      some (d, payload) := by
  have hwf : (c.asReceived payload).WellFormed d.fWmiEid := by
    refine ⟨.inl heid.symm, Nat.succ_pos 255, fun h => absurd rfl h, ?_⟩
    rw [c.asReceived_encode, c.wmiFrame_length, kHtcFrameHdrLen, kRxBufSz]
    omega
  obtain ⟨n, hn, hrecv⟩ := Htc.recvFrame_encode hwf beyond bufLen
  have hnil : creditRecords d.fWmiEid [] 0 d.fWmiCredits = some d.fWmiCredits := by
    rw [creditRecords, if_neg (by decide)]
  obtain rfl := Option.some.inj (hnil.symm.trans hn)
  rw [c.asReceived_encode] at hrecv
  rw [hrecv]
  exact congrArg (fun b => some (d, b)) (if_neg (Nat.not_lt.2 hbuf))

end Qca9377
