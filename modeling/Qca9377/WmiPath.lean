import Qca9377.Htc
import Qca9377.Receive

namespace Qca9377
open Bytes Interleaving
set_option autoImplicit true

variable {Rs : SrcRing → SrcRing → Prop} {D : DstRing → List UInt8 → Prop}

/-- What may happen to the WMI pair next to the host: `Rs` on the source half, the engine on the
receive half. -/
inductive Host.WmiEngine (Rs : SrcRing → SrcRing → Prop)
    (D : DstRing → List UInt8 → Prop) : Host → Host → Prop
  | src (hs : Rs h.fWmi.src s) : WmiEngine Rs D h (h.setWmi (h.fWmi.setSrc s))
  | dst (hd : DstRing.Engine D h.fWmi.dst d) :
      WmiEngine Rs D h (h.setWmi (h.fWmi.setDst d))

theorem Host.WmiEngine.same (hs : Host.WmiEngine Rs D h h') : h.fWmi.dst.Same h'.fWmi.dst := by
  cases hs with
  | src => exact .refl _
  | dst hd => exact hd.same

theorem Host.WmiEngine.rxBuf (hs : Host.WmiEngine Rs D h h')
    (hd : RxDuring R (R.length + 1) h.fWmi.dst) (ht : Taken R f h.fWmi.dst) :
    h'.fWmi.dst.rxBuf = h.fWmi.dst.rxBuf := by
  cases hs with
  | src => rfl
  | dst he => exact hd.rxBuf_engine ht he

/-- One access of the host on the WMI pair. -/
structure WmiStep (TG : SrcRing → SrcRing → Prop) (h h' : Host) : Prop where
  src : TG h.fWmi.src h'.fWmi.src
  dst : RxStep h.fWmi.dst h'.fWmi.dst

/-- A program on the receive half keeps what only concerns the source half and the HTC state. -/
theorem wmi_dst_safe {F : SrcRing → Htc → Prop} {TG : SrcRing → SrcRing → Prop}
    (hsrc : ∀ s t c, F s c → Rs s t → F t c) (hTG : ∀ s, TG s s) (hG : ∀ d e, G d e → RxStep d e)
    (hF : F h.fWmi.src h.htc) (hp : Safe (DstRing.Engine D) J G Q p h.fWmi.dst) :
    Safe (Host.WmiEngine Rs D)
      (fun t => J t.fWmi.dst ∧ F t.fWmi.src t.htc) (WmiStep TG)
      (fun r t => Q r t.fWmi.dst ∧ F t.fWmi.src t.htc)
      ((p.zoom CECopyPair.dst CECopyPair.setDst).zoom Host.fWmi Host.setWmi) h := by
  rw [Prog.zoom_zoom]
  have hz := Safe.zoom (fun t : Host => t.fWmi.dst) (fun t d => t.setWmi (t.fWmi.setDst d))
    (Host.WmiEngine Rs D) (fun t => F t.fWmi.src t.htc) (fun _ _ => rfl)
    (by
      intro t t' ht hs
      cases hs with
      | src hs => exact ⟨hsrc _ _ _ ht hs, .refl⟩
      | dst hd => exact ⟨ht, .single hd⟩)
    (fun _ _ ht => ht) hF hp
  apply hz.mono (fun _ => id) _ (fun _ _ => id)
  rintro t t' ⟨hd, d, rfl⟩
  exact ⟨hTG _, hG _ _ hd⟩

/-- A program on the source half keeps what only concerns the receive half and the HTC state. -/
theorem wmi_src_safe {F : DstRing → Htc → Prop} {TG : SrcRing → SrcRing → Prop}
    (hdst : ∀ d e c, F d c → DstRing.Engine D d e → F e c) (hF : F h.fWmi.dst h.htc)
    (hp : Safe Rs J TG Q p h.fWmi.src) :
    Safe (Host.WmiEngine Rs D)
      (fun t => J t.fWmi.src ∧ F t.fWmi.dst t.htc) (WmiStep TG)
      (fun r t => Q r t.fWmi.src ∧ F t.fWmi.dst t.htc)
      ((p.zoom CECopyPair.src CECopyPair.setSrc).zoom Host.fWmi Host.setWmi) h := by
  rw [Prog.zoom_zoom]
  have hz := Safe.zoom (fun t : Host => t.fWmi.src) (fun t s => t.setWmi (t.fWmi.setSrc s))
    (Host.WmiEngine Rs D) (fun t => F t.fWmi.dst t.htc) (fun _ _ => rfl)
    (by
      intro t t' ht hs
      cases hs with
      | src hs => exact ⟨ht, .single hs⟩
      | dst hd => exact ⟨hdst _ _ _ ht hd, .refl⟩)
    (fun _ _ ht => ht) hF hp
  apply hz.mono (fun _ => id) _ (fun _ _ => id)
  rintro t t' ⟨hs, s, rfl⟩
  exact ⟨hs, .refl _⟩

/-- What the WMI path needs to know about `send`: an assertion to start from, an assertion for
each outcome, and an invariant in between. -/
structure SendContract (Rs : SrcRing → SrcRing → Prop) (TJ : SrcRing → Prop)
    (TG : SrcRing → SrcRing → Prop) (TI : SrcRing → Prop) (TQ : Bool → SrcRing → Prop)
    (frame : List UInt8) : Prop where
  before : Assertion Rs TJ TI
  after : ∀ r, Assertion Rs TJ (TQ r)
  refl : ∀ s, TG s s
  send : ∀ s, TI s → Safe Rs TJ TG TQ (SrcRing.send frame) s

section Contracts

variable {TI TJ : SrcRing → Prop} {TG : SrcRing → SrcRing → Prop} {TQ : Bool → SrcRing → Prop}

/-- The invariant of a WMI call in progress. -/
def WmiDuring (TJ : SrcRing → Prop) (R : List (List UInt8)) (h : Host) : Prop :=
  RxDuring R (R.length + 1) h.fWmi.dst ∧ TJ h.fWmi.src

/-- Between the accesses of a call nothing has been received and the HTC state is `c`. -/
structure WmiAt (R : List (List UInt8)) (c : Htc) (T : SrcRing → Prop) (h : Host) : Prop where
  rx : RxSingle h.fWmi.dst
  received : h.fWmi.dst.received = R
  htc : h.htc = c
  src : T h.fWmi.src

theorem RxSingle.during {d : DstRing} (h : RxSingle d) (hr : d.received = R) :
    RxDuring R (R.length + 1) d := by
  subst hr
  exact (rxAt_assertion (paced_single (D := fun _ _ => False) h.posts) h.posts).inv h.at

theorem wmiAt_assertion (hT : Assertion Rs TJ TI) (R : List (List UInt8)) (c : Htc) :
    Assertion (Host.WmiEngine Rs D) (WmiDuring TJ R) (WmiAt R c TI) where
  step := fun h h' hh hs => by
    cases hs with
    | src hs => exact ⟨hh.rx, hh.received, hh.htc, hT.step hh.src hs⟩
    | dst hd => exact ⟨hh.rx.engine hd, hd.same.received.trans hh.received, hh.htc, hh.src⟩
  inv := fun h hh => ⟨hh.rx.during hh.received, hT.inv hh.src⟩

theorem wmiAt_read (hG : ∀ s, TG s s) (h : Host) : WmiStep TG h h := ⟨hG _, .refl _⟩

theorem wmiPostRecv_safe (hT : Assertion Rs TJ TI) (hG : ∀ s, TG s s) (h : WmiAt R c TI h₀)
    (h0 : h₀.fWmi.dst.rxArmed = 0) :
    Safe (Host.WmiEngine Rs D) (WmiDuring TJ R) (WmiStep TG)
      (fun r t => r = true ∧ WmiAt R c TI t) CEManager.wmiPostRecv h₀ := by
  have hk : h₀.fWmi.dst.posts = R.length := by
    have hle := h.rx.idle.1.posts
    rw [h.rx.armed, h.received] at h0
    rw [h.received] at hle
    omega
  have hf : h₀.fWmi.dst.filled = R := by
    rw [← h.received]
    apply h.rx.idle.1.filled_eq
    rw [h.received, ← hk]
    exact h.rx.idle.1.filled_posts
  have hp := DstRing.postRecv_safe (D := D) h.rx.idle h.received hf hk
    (settled_single (Nat.le_refl _)) (paced_single (Nat.le_refl _))
  have hz := wmi_dst_safe (F := fun s k => TI s ∧ k = c)
    (fun s u k hs hr => ⟨hT.step hs.1 hr, hs.2⟩) hG (fun _ _ => id) ⟨h.src, h.htc⟩ hp
  apply hz.mono
  · intro u hu
    exact ⟨hu.1, hT.inv hu.2.1⟩
  · exact fun _ _ => id
  · rintro r u ⟨⟨hr, hat⟩, hs, hc⟩
    exact ⟨hr, ⟨hat.idle, by rw [hat.posts, hat.received]⟩, hat.received, hc, hs⟩

theorem wmiArmRecv_safe (hT : Assertion Rs TJ TI) (hG : ∀ s, TG s s) (h : WmiAt R c TI h₀) :
    Safe (Host.WmiEngine Rs D) (WmiDuring TJ R) (WmiStep TG)
      (fun _ t => WmiAt R c TI t) CEManager.wmiArmRecv h₀ := by
  unfold CEManager.wmiArmRecv
  simp only [bind_eq_bind, pure_eq_ret, read_bind]
  apply Safe.op (wmiAt_assertion hT R c) h (fun t _ => wmiAt_read hG t)
  intro t ht
  split
  · next h0 =>
    apply Safe.bind
    apply (wmiPostRecv_safe hT hG ht h0).mono (fun _ => id) (fun _ _ => id)
    rintro r u ⟨-, hu⟩
    exact .ret (wmiAt_assertion hT R c) hu fun _ => id
  · exact .ret (wmiAt_assertion hT R c) ht fun _ => id

theorem postRecvIfIdle_safe (hT : Assertion Rs TJ TI) (hG : ∀ s, TG s s) (h : WmiAt R c TI h₀) :
    Safe (Host.WmiEngine Rs D) (WmiDuring TJ R) (WmiStep TG)
      (fun r t => r = true ∧ WmiAt R c TI t) CEManager.wmiPostRecvIfIdle h₀ := by
  unfold CEManager.wmiPostRecvIfIdle
  simp only [bind_eq_bind, pure_eq_ret, read_bind]
  apply Safe.op (wmiAt_assertion hT R c) h (fun t _ => wmiAt_read hG t)
  intro t ht
  split
  · exact .ret (wmiAt_assertion hT R c) ht fun u hu => ⟨rfl, hu⟩
  · next h0 => exact wmiPostRecv_safe hT hG ht (not_not.1 h0)

theorem wmiSend_safe (hT : SendContract Rs TJ TG TI TQ frame) (h : WmiAt R c TI h₀) :
    Safe (Host.WmiEngine Rs D) (WmiDuring TJ R) (WmiStep TG)
      (fun r t => WmiAt R c (TQ r) t) (CEManager.wmiSend frame) h₀ := by
  have hz := wmi_src_safe (D := D)
    (F := fun d k => (RxSingle d ∧ d.received = R) ∧ k = c)
    (fun d e k hd he => ⟨⟨hd.1.1.engine he, he.same.received.trans hd.1.2⟩, hd.2⟩)
    ⟨⟨h.rx, h.received⟩, h.htc⟩ (hT.send _ h.src)
  apply hz.mono
  · intro t ht
    exact ⟨ht.2.1.1.during ht.2.1.2, ht.1⟩
  · exact fun _ _ => id
  · intro r t ht
    exact ⟨ht.2.1.1, ht.2.1.2, ht.2.2, ht.1⟩

def Htc.wmiFrame (c : Htc) (payload : List UInt8) : List UInt8 :=
  htcHdr c.fWmiEid kHtcTxFlagNeedCreditUpdate payload.length c.fWmiSeq ++ payload

def Htc.needed (c : Htc) (len : Nat) : Nat := (len + c.fCreditSize - 1) / c.fCreditSize

inductive SendWmiPost (c : Htc) (payload : List UInt8) (TI : SrcRing → Prop)
    (TQ : Bool → SrcRing → Prop) : Bool → Host → Prop
  | refused {h : Host} (hc : h.htc = c) (hs : TI h.fWmi.src) : SendWmiPost c payload TI TQ false h
  | failed {h : Host} (hc : h.htc = { c with fWmiSeq := c.fWmiSeq + 1 })
      (hs : TQ false h.fWmi.src) : SendWmiPost c payload TI TQ false h
  | sent {h : Host} (hn : c.needed payload.length ≤ c.fWmiCredits)
      (hc : h.htc =
        { c with
          fWmiSeq := c.fWmiSeq + 1
          fWmiCredits := c.fWmiCredits - c.needed payload.length })
      (hs : TQ true h.fWmi.src) : SendWmiPost c payload TI TQ true h

theorem sendWmi_safe (hT : SendContract Rs TJ TG TI TQ (c.wmiFrame payload))
    (h : WmiAt R c TI h₀) :
    Safe (Host.WmiEngine Rs D) (WmiDuring TJ R) (WmiStep TG)
      (fun r t => (RxSingle t.fWmi.dst ∧ t.fWmi.dst.received = R) ∧ SendWmiPost c payload TI TQ r t)
      (Htc.sendWmi payload) h₀ := by
  have hrefuse {t : Host} (ht : WmiAt R c TI t) :
      Safe (Host.WmiEngine Rs D) (WmiDuring TJ R) (WmiStep TG)
        (fun r t => (RxSingle t.fWmi.dst ∧ t.fWmi.dst.received = R) ∧
          SendWmiPost c payload TI TQ r t) (.ret false) t :=
    .ret (wmiAt_assertion hT.before R c) ht fun u hu =>
      ⟨⟨hu.rx, hu.received⟩, .refused hu.htc hu.src⟩
  unfold Htc.sendWmi
  simp only [bind_eq_bind, pure_eq_ret, read_bind, modify_bind]
  apply Safe.op (wmiAt_assertion hT.before R c) h (fun t _ => wmiAt_read hT.refl t)
  intro t ht
  rw [ht.htc]
  split
  · exact hrefuse ht
  split
  · exact hrefuse ht
  split
  · exact hrefuse ht
  next hn =>
  apply Safe.bind
  apply (postRecvIfIdle_safe hT.before hT.refl ht).mono (fun _ => id) (fun _ _ => id)
  rintro _ u ⟨rfl, hu⟩
  apply Safe.op (wmiAt_assertion hT.before R c) hu (fun v _ => ⟨hT.refl _, .refl _⟩)
  intro v hv
  have hseq : WmiAt R { c with fWmiSeq := c.fWmiSeq + 1 } TI
      (v.setHtc { v.htc with fWmiSeq := v.htc.fWmiSeq + 1 }) :=
    ⟨hv.rx, hv.received, by rw [hv.htc]; rfl, hv.src⟩
  apply Safe.bind
  apply (wmiSend_safe hT hseq).mono (fun _ => id) (fun _ _ => id)
  intro r w hw
  cases r with
  | false =>
    exact .ret (wmiAt_assertion (hT.after false) R _) hw fun x hx =>
      ⟨⟨hx.rx, hx.received⟩, .failed hx.htc hx.src⟩
  | true =>
    apply Safe.op (wmiAt_assertion (hT.after true) R _) hw (fun x _ => ⟨hT.refl _, .refl _⟩)
    intro x hx
    have hdebit : WmiAt R
        { c with
          fWmiSeq := c.fWmiSeq + 1
          fWmiCredits := c.fWmiCredits - c.needed payload.length } (TQ true)
        (x.setHtc { x.htc with
          fWmiCredits := x.htc.fWmiCredits - c.needed payload.length }) :=
      ⟨hx.rx, hx.received, by rw [hx.htc]; rfl, hx.src⟩
    exact .ret (wmiAt_assertion (hT.after true) R _) hdebit fun y hy =>
      ⟨⟨hy.rx, hy.received⟩, .sent (not_lt.1 hn) hy.htc hy.src⟩

inductive RecvWmiPost (c : Htc) (bufLen : Nat) (R : List (List UInt8)) :
    Option (List UInt8) → Host → Prop
  | timeout {h : Host} (hr : h.fWmi.dst.received = R) (hc : h.htc = c) :
      RecvWmiPost c bufLen R (some []) h
  | frame {h : Host} (ht : Taken R f h.fWmi.dst)
      (hr : r = (c.recvFrame h.fWmi.dst.rxBuf f.length bufLen).map Prod.snd)
      (hc : ∀ x, c.recvFrame h.fWmi.dst.rxBuf f.length bufLen = some x → h.htc = x.1) :
      RecvWmiPost c bufLen R r h

/-- The rx buffer stays as it is once its frame has been taken. -/
theorem taken_assertion (hT : Assertion Rs TJ TI) (R : List (List UInt8)) (f raw : List UInt8)
    (hk : k ≤ R.length + 1) (c : Htc) :
    Assertion (Host.WmiEngine Rs D) (WmiDuring TJ R)
      (fun t => RxTaken R f k raw t.fWmi.dst ∧ t.htc = c ∧ TI t.fWmi.src) := by
  have hlen : (R ++ [f]).length = R.length + 1 := by
    rw [List.length_append, List.length_singleton]
  have hrx : Assertion (DstRing.Engine D) (RxDuring R (R.length + 1)) (RxTaken R f k raw) :=
    rxTaken_assertion (settled_single (hk.trans_eq hlen.symm)) hk
  constructor
  · intro t u hh hs
    cases hs with
    | src hs => exact ⟨hh.1, hh.2.1, hT.step hh.2.2 hs⟩
    | dst hd => exact ⟨hrx.step hh.1 hd, hh.2⟩
  · exact fun t hh => ⟨hrx.inv hh.1, hT.inv hh.2.2⟩

theorem RxTaken.single {d : DstRing} (h : RxTaken R f k raw d) (hk : k ≤ R.length + 1) :
    RxSingle d := by
  refine ⟨h.idle, ?_⟩
  rw [h.posts, h.taken.received, List.length_append]
  exact hk.trans (Nat.le_add_right _ _)

/-- What `recvWmi` does with the frame in the rx buffer. -/
def decodeRx (bufLen : Nat) : Prog Host (Option (List UInt8)) := do
  match ← read fun h => h.htc.parseHdr h.fWmi.dst.rxBuf h.fWmi.dst.fRxNbytes with
  | none => return none
  | some none => return some []
  | some (some x) =>
    match ← read fun h => h.htc.rxTrailer h.fWmi.dst.rxBuf h.fWmi.dst.fRxNbytes x with
    | none => return none
    | some htc =>
      modify fun h => h.setHtc htc
      read fun h => x.payload h.fWmi.dst.rxBuf bufLen

/-- What is left to return: the decoded payload, with the credits it brings already booked. -/
theorem decoded_ret (hT : Assertion Rs TJ TI) (hp : p ≤ R.length + 1)
    (hf : c.recvFrame raw f.length bufLen = o) (hr : r = o.map Prod.snd)
    (hk : ∀ x, o = some x → k = x.1)
    (h : RxTaken R f p raw h₀.fWmi.dst ∧ h₀.htc = k ∧ TI h₀.fWmi.src) :
    Safe (Host.WmiEngine Rs D) (WmiDuring TJ R) (WmiStep TG)
      (fun r t => (RxSingle t.fWmi.dst ∧ TI t.fWmi.src) ∧ RecvWmiPost c bufLen R r t)
      (.ret r) h₀ := by
  apply Safe.ret (taken_assertion hT R f raw hp k) h
  rintro u ⟨hu, hk', hsrc⟩
  subst hf
  exact ⟨⟨hu.single hp, hsrc⟩, .frame hu.taken (hu.rxBuf ▸ hr) (hu.rxBuf ▸ hk' ▸ hk)⟩

theorem decodeRx_safe (hT : Assertion Rs TJ TI) (hG : ∀ s, TG s s) (hp : p ≤ R.length + 1)
    (h : RxTaken R f p raw h₀.fWmi.dst ∧ h₀.htc = c ∧ TI h₀.fWmi.src) (bufLen : Nat) :
    Safe (Host.WmiEngine Rs D) (WmiDuring TJ R) (WmiStep TG)
      (fun r t => (RxSingle t.fWmi.dst ∧ TI t.fWmi.src) ∧ RecvWmiPost c bufLen R r t)
      (decodeRx bufLen) h₀ := by
  have hP := taken_assertion (D := D) hT R f raw hp
  have hread (u : Host) : WmiStep TG u u := wmiAt_read hG u
  unfold decodeRx
  simp only [bind_eq_bind, pure_eq_ret, read_bind, modify_bind]
  apply Safe.op (hP c) h (fun u _ => hread u)
  intro u hu
  rw [hu.1.rxBuf, hu.2.1, hu.1.nbytes]
  cases hparse : c.parseHdr raw f.length with
  | none => exact decoded_ret hT hp (Htc.recvFrame_fault bufLen hparse) rfl nofun hu
  | some hdr =>
    cases hdr with
    | none =>
      apply decoded_ret hT hp (Htc.recvFrame_reject bufLen hparse) rfl _ hu
      exact fun x hx => congrArg Prod.fst (Option.some.inj hx)
    | some x =>
      have hf := Htc.recvFrame_accept bufLen hparse
      apply Safe.op (hP c) hu (fun u _ => hread u)
      intro v hv
      rw [hv.1.rxBuf, hv.2.1, hv.1.nbytes]
      cases hcred : c.rxTrailer raw f.length x with
      | none =>
        rw [hcred] at hf
        exact decoded_ret hT hp hf rfl nofun hv
      | some k =>
        rw [hcred] at hf
        apply Safe.op (hP c) hv (fun _ _ => ⟨hG _, .refl _⟩)
        intro w hw
        have hw' : RxTaken R f p raw (w.setHtc k).fWmi.dst ∧ (w.setHtc k).htc = k ∧
            TI (w.setHtc k).fWmi.src := ⟨hw.1, rfl, hw.2.2⟩
        apply Safe.op (hP k) hw' (fun u _ => hread u)
        intro z hz
        dsimp only
        rw [hz.1.rxBuf]
        cases hb : x.payload raw bufLen with
        | none =>
          rw [hb] at hf
          exact decoded_ret hT hp hf rfl nofun hz
        | some b =>
          rw [hb] at hf
          apply decoded_ret hT hp hf rfl _ hz
          exact fun y hy => congrArg Prod.fst (Option.some.inj hy)

theorem recvWmi_safe (hT : Assertion Rs TJ TI) (hG : ∀ s, TG s s) (h : WmiAt R c TI h₀)
    (bufLen timeoutMs : Nat) :
    Safe (Host.WmiEngine Rs D) (WmiDuring TJ R) (WmiStep TG)
      (fun r t => (RxSingle t.fWmi.dst ∧ TI t.fWmi.src) ∧ RecvWmiPost c bufLen R r t)
      (Htc.recvWmi bufLen timeoutMs) h₀ := by
  obtain ⟨p, hp, hat⟩ : ∃ p, p ≤ R.length + 1 ∧ RxAt R p h₀.fWmi.dst :=
    ⟨_, h.received ▸ h.rx.posts, h.received ▸ h.rx.at⟩
  have hlen (f : List UInt8) : (R ++ [f]).length = R.length + 1 := by
    rw [List.length_append, List.length_singleton]
  unfold Htc.recvWmi
  simp only [bind_eq_bind, pure_eq_ret, read_bind, modify_bind]
  apply Safe.bind
  have hpoll := recvPoll_safe (D := D) (pollDeadline timeoutMs) hat (paced_single hp)
    fun f => settled_single (hp.trans_eq (hlen f).symm)
  have hz := wmi_dst_safe (F := fun s k => TI s ∧ k = c)
    (fun s u k hs hr => ⟨hT.step hs.1 hr, hs.2⟩) hG (fun _ _ => id) ⟨h.src, h.htc⟩ hpoll
  apply hz.mono
  · intro t ht
    exact ⟨ht.1.mono hp, hT.inv ht.2.1⟩
  · exact fun _ _ => id
  rintro _ t ⟨hpost, hs, hc⟩
  cases hpost with
  | timeout hat' =>
    have hsingle : RxSingle t.fWmi.dst := ⟨hat'.idle, by rw [hat'.posts, hat'.received]; exact hp⟩
    exact .ret (wmiAt_assertion hT R c) ⟨hsingle, hat'.received, hc, hs⟩ fun u hu =>
      ⟨⟨hu.rx, hu.src⟩, .timeout hu.received hu.htc⟩
  | frame ht => exact decodeRx_safe hT hG hp ⟨ht, hc, hs⟩ bufLen

end Contracts

end Qca9377
