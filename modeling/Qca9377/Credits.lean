import Mathlib.Algebra.BigOperators.Intervals
import Mathlib.Data.List.GetD
import Qca9377.Delivery
import Qca9377.HtcFrame

namespace Qca9377
open Bytes Interleaving
set_option autoImplicit true

/-- The WMI endpoint as `connectService` has set it up. -/
structure WmiEndpoint where
  eid : UInt8
  creditSize : Nat
  totalCredits : Nat
  size_pos : 0 < creditSize
  total_lt : totalCredits < 2 ^ 16

def WmiEndpoint.cost (e : WmiEndpoint) (frame : List UInt8) : Nat :=
  (frame.length - kHtcFrameHdrLen + e.creditSize - 1) / e.creditSize

def WmiEndpoint.costAt (e : WmiEndpoint) (frames : List (List UInt8)) (i : Nat) : Nat :=
  e.cost (frames.getD i [])

/-- The credits of the posted frames whose indices are not among the reported ones. -/
def WmiEndpoint.owed (e : WmiEndpoint) (posted : List (List UInt8)) (reported : List Nat) : Nat :=
  ∑ i ∈ Finset.range posted.length, if i ∈ reported then 0 else e.costAt posted i

/-- Host and target, with the indices of the consumed frames that each delivered frame reports. -/
structure WmiWorld where
  host : Host
  reports : List (List Nat)

def WmiWorld.setHost (w : WmiWorld) (h : Host) : WmiWorld := { w with host := h }

/-- The frames reported back to the host so far. -/
def WmiWorld.reported (w : WmiWorld) : List Nat :=
  (w.reports.take w.host.fWmi.dst.received.length).flatten

def WmiWorld.outstanding (e : WmiEndpoint) (w : WmiWorld) : Nat :=
  e.owed w.host.fWmi.src.posted w.reported

/-- A well-formed frame whose trailer reports exactly the credits of the frames in `S`. -/
def ReportFrame (e : WmiEndpoint) (consumed : List (List UInt8)) (S : List Nat)
    (f : List UInt8) : Prop :=
  ∃ (g : HtcFrame) (rs : List TrailerRec), f = g.encode ∧ g.WellFormed e.eid ∧
    g.trailer = encodeTrailer rs ∧ trailerCredits e.eid rs = (S.map (e.costAt consumed)).sum

/-- The well-behaved target: it reports consumed frames only, and none twice. -/
inductive WmiWorld.Env (e : WmiEndpoint) : WmiWorld → WmiWorld → Prop
  | src {w : WmiWorld} (hs : SrcRing.Engine w.host.fWmi.src s) :
      Env e w (w.setHost (w.host.setWmi (w.host.fWmi.setSrc s)))
  | fill {w : WmiWorld} (hnew : (w.reports ++ [S]).flatten.Nodup)
      (hcons : ∀ i ∈ S, i < w.host.fWmi.src.consumed.length)
      (hf : ReportFrame e w.host.fWmi.src.consumed S f)
      (hw : w.host.fWmi.dst.fillIdx ≠ w.host.fWmi.dst.dstWrIndex) :
      Env e w
        ⟨w.host.setWmi (w.host.fWmi.setDst (w.host.fWmi.dst.fill f)), w.reports ++ [S]⟩
  | dst {w : WmiWorld} (hd : DstRing.Engine (fun _ _ => False) w.host.fWmi.dst d) :
      Env e w (w.setHost (w.host.setWmi (w.host.fWmi.setDst d)))

theorem costAt_append {e : WmiEndpoint} {fs gs : List (List UInt8)} (h : fs <+: gs)
    (hi : i < fs.length) : e.costAt gs i = e.costAt fs i := by
  obtain ⟨t, rfl⟩ := h
  rw [WmiEndpoint.costAt, WmiEndpoint.costAt, List.getD_append _ _ _ _ hi]

theorem owed_post (e : WmiEndpoint) (h : posted.length ∉ reported) (f : List UInt8) :
    e.owed (posted ++ [f]) reported = e.owed posted reported + e.cost f := by
  have hlast : e.costAt (posted ++ [f]) posted.length = e.cost f := by
    rw [WmiEndpoint.costAt, List.getD_append_right _ _ _ _ (Nat.le_refl _), Nat.sub_self]
    rfl
  rw [WmiEndpoint.owed, List.length_append, List.length_singleton, Finset.sum_range_succ,
    if_neg h, hlast, WmiEndpoint.owed]
  congr 1
  apply Finset.sum_congr rfl
  intro i hi
  rw [costAt_append (List.prefix_append _ _) (Finset.mem_range.1 hi)]

theorem owed_report_one (e : WmiEndpoint) (hi : a < posted.length) (hn : a ∉ reported) :
    e.owed posted (reported ++ [a]) + e.costAt posted a = e.owed posted reported := by
  have ha : a ∈ Finset.range posted.length := Finset.mem_range.2 hi
  have hmem : a ∈ reported ++ [a] := List.mem_append_right _ (List.mem_singleton.2 rfl)
  rw [WmiEndpoint.owed, WmiEndpoint.owed, ← Finset.add_sum_erase _ _ ha,
    ← Finset.add_sum_erase _ _ ha, if_pos hmem, if_neg hn, Nat.zero_add, Nat.add_comm]
  congr 1
  apply Finset.sum_congr rfl
  intro i hi
  have hne := Finset.ne_of_mem_erase hi
  simp only [List.mem_append, List.mem_singleton, hne, or_false]

theorem owed_report (e : WmiEndpoint) (hS : (reported ++ S).Nodup)
    (hi : ∀ i ∈ S, i < posted.length) :
    e.owed posted (reported ++ S) + (S.map (e.costAt posted)).sum = e.owed posted reported := by
  induction S generalizing reported with
  | nil => rw [List.append_nil, List.map_nil, List.sum_nil, Nat.add_zero]
  | cons a S ih =>
    have hsplit : reported ++ a :: S = (reported ++ [a]) ++ S := by
      rw [List.append_assoc, List.singleton_append]
    have ha : a ∉ reported := fun hm => (List.nodup_append.1 hS).2.2 a hm a List.mem_cons_self rfl
    rw [hsplit] at hS ⊢
    have hrest := ih hS fun i hm => hi i (List.mem_cons_of_mem a hm)
    have hone := owed_report_one e (hi a List.mem_cons_self) ha
    rw [List.map_cons, List.sum_cons]
    omega

/-- A completion wait of the source half has expired. -/
def SrcRing.Expired (s : SrcRing) : Prop :=
  ∃ srri w, CELog.sendCompletionTimeout srri w ∈ s.iolog

/-- Between calls, with what has been posted and logged so far. -/
structure TxAt (posted : List (List UInt8)) (iolog : List CELog) (s : SrcRing) : Prop where
  idle : TxIdle s
  posted : s.posted = posted
  iolog : s.iolog = iolog

/-- After a call of `send` that started from `TxAt`. -/
inductive TxSent (posted : List (List UInt8)) (iolog : List CELog) (frame : List UInt8) :
    Bool → SrcRing → Prop
  | expired {s : SrcRing} (hi : TxIdle s) (he : s.Expired) : TxSent posted iolog frame false s
  | unsent {s : SrcRing} (hi : TxIdle s) (hp : s.posted = posted)
      (hl : ∀ m ∈ iolog, m ∈ s.iolog) : TxSent posted iolog frame false s
  | sent {s : SrcRing} (h : TxAt (posted ++ [frame]) iolog s) : TxSent posted iolog frame true s

theorem TxAt.engine {s t : SrcRing} (h : TxAt P L s) (hs : SrcRing.Engine s t) : TxAt P L t := by
  have hsame := (SrcRing.Same.refl s).engine hs
  exact ⟨h.idle.engine hs, hsame.posted.trans h.posted, hsame.iolog.trans h.iolog⟩

theorem TxSent.engine {s t : SrcRing} (h : TxSent P L frame r s) (hs : SrcRing.Engine s t) :
    TxSent P L frame r t := by
  have hsame := (SrcRing.Same.refl s).engine hs
  cases h with
  | expired hi he =>
    obtain ⟨srri, w, hm⟩ := he
    exact .expired (hi.engine hs) ⟨srri, w, by rw [hsame.iolog]; exact hm⟩
  | unsent hi hp hl =>
    exact .unsent (hi.engine hs) (hsame.posted.trans hp) fun m hm => by
      rw [hsame.iolog]
      exact hl m hm
  | sent h => exact .sent (h.engine hs)

theorem TxSent.idle {s : SrcRing} (h : TxSent P L frame r s) : TxIdle s := by
  cases h with
  | expired hi => exact hi
  | unsent hi => exact hi
  | sent h => exact h.idle

/-- The contract of `send` next to a live engine. -/
theorem live_send (P : List (List UInt8)) (L : List CELog) (frame : List UInt8) :
    SendContract SrcRing.Engine TxInv TxStep (TxAt P L) (TxSent P L frame) frame where
  before := ⟨fun _ _ h hs => h.engine hs, fun _ h => h.idle.1⟩
  after := fun _ => ⟨fun _ _ h hs => h.engine hs, fun _ h => h.idle.1⟩
  refl := fun _ => txStep_same rfl rfl List.prefix_rfl
  send := fun s h => by
    apply (send_safe frame h.idle).mono (fun _ hd => hd.1) (fun _ _ => id)
    rintro r t ⟨hi, hpost⟩
    have hlog {m : CELog} (ht : (s.log m).Same t) : ∀ k ∈ L, k ∈ t.iolog := by
      intro k hk
      rw [ht.iolog]
      exact List.mem_append_left _ (h.iolog ▸ hk)
    cases hpost with
    | badLen _ ht => exact .unsent hi (ht.posted.trans h.posted) (hlog ht)
    | preWait ht => exact .unsent hi (ht.posted.trans h.posted) (hlog ht)
    | completion _ _ hl =>
      exact .expired hi ⟨_, _, hl ▸ List.mem_append_right _ (List.mem_singleton.2 rfl)⟩
    | sent _ hp _ hl =>
      exact .sent ⟨hi, by rw [hp, h.posted], by rw [hl, h.iolog]⟩

/-- Every delivered frame is well formed and reports what the target says it reports. -/
structure Ledger (e : WmiEndpoint) (w : WmiWorld) : Prop where
  count : w.reports.length = w.host.fWmi.dst.filled.length
  nodup : w.reports.flatten.Nodup
  consumed : ∀ i ∈ w.reports.flatten, i < w.host.fWmi.src.consumed.length
  honest : ∀ (k : Nat) S f, w.reports[k]? = some S → w.host.fWmi.dst.filled[k]? = some f →
    ReportFrame e w.host.fWmi.src.consumed S f

theorem ReportFrame.mono (h : ReportFrame e fs S f) (hfs : fs <+: gs)
    (hS : ∀ i ∈ S, i < fs.length) : ReportFrame e gs S f := by
  obtain ⟨g, rs, hf, hg, ht, hsum⟩ := h
  refine ⟨g, rs, hf, hg, ht, ?_⟩
  rw [hsum]
  congr 1
  apply List.map_congr_left
  intro i hi
  exact (costAt_append hfs (hS i hi)).symm

theorem Ledger.env (h : Ledger e w) (hs : WmiWorld.Env e w w') : Ledger e w' := by
  cases hs with
  | src hs =>
    have hp := hs.consumed
    have hlt (i : Nat) (hi : i ∈ w.reports.flatten) := (h.consumed i hi).trans_le hp.length_le
    refine ⟨h.count, h.nodup, hlt, fun k S f hS hf => ?_⟩
    apply (h.honest k S f hS hf).mono hp
    intro i hi
    exact h.consumed i (List.mem_flatten_of_mem (List.mem_of_getElem? hS) hi)
  | @fill S f _ hnew hcons hf hw =>
    have hfill : (w.host.fWmi.dst.fill f).filled = w.host.fWmi.dst.filled ++ [f] := rfl
    refine ⟨?_, hnew, ?_, ?_⟩
    · rw [List.length_append, h.count]
      exact (congrArg List.length hfill |>.trans List.length_append).symm
    · intro i hi
      rw [List.flatten_append, List.mem_append, List.flatten_singleton] at hi
      rcases hi with hi | hi
      · exact h.consumed i hi
      · exact hcons i hi
    · intro k S' f' hS hf'
      by_cases hk : k < w.reports.length
      · rw [List.getElem?_append_left hk] at hS
        have hk' : k < w.host.fWmi.dst.filled.length := h.count ▸ hk
        apply h.honest k S' f' hS
        rw [← List.getElem?_append_left hk']
        exact hf'
      · have hlt := (List.getElem?_eq_some_iff.1 hS).1
        rw [List.length_append, List.length_singleton] at hlt
        obtain rfl : k = w.reports.length := by omega
        rw [List.getElem?_concat_length] at hS
        have hf'' : (w.host.fWmi.dst.filled ++ [f])[w.host.fWmi.dst.filled.length]? = some f' :=
          h.count ▸ hf'
        rw [List.getElem?_concat_length] at hf''
        obtain rfl := Option.some.inj hS
        obtain rfl := Option.some.inj hf''
        exact hf
  | dst hd =>
    cases hd with
    | fill hno => exact hno.elim
    | land => exact ⟨h.count, h.nodup, h.consumed, h.honest⟩
    | advance => exact ⟨h.count, h.nodup, h.consumed, h.honest⟩

/-- What the target and the host's accesses preserve during a call. -/
structure Kept (e : WmiEndpoint) (w₀ w : WmiWorld) : Prop where
  ledger : Ledger e w
  reports : w₀.reports <+: w.reports

def anyFrame (_ : DstRing) (_ : List UInt8) : Prop := True

theorem WmiWorld.Env.host (hs : WmiWorld.Env e w w') :
    Host.WmiEngine SrcRing.Engine anyFrame w.host w'.host := by
  cases hs with
  | src hs => exact .src hs
  | fill _ _ _ hw => exact .dst (.fill trivial hw)
  | dst hd => exact .dst (hd.mono fun _ _ _ => trivial)

theorem WmiWorld.Env.reports (hs : WmiWorld.Env e w w') : w.reports <+: w'.reports := by
  cases hs with
  | src => exact List.prefix_refl _
  | fill => exact List.prefix_append _ _
  | dst => exact List.prefix_refl _

theorem world_safe (hL : Ledger e w₀)
    (hp : Safe (Host.WmiEngine SrcRing.Engine anyFrame) J (WmiStep TxStep) Q p w₀.host) :
    Safe (WmiWorld.Env e) (fun w => J w.host ∧ Kept e w₀ w) (fun _ _ => True)
      (fun r w => Q r w.host ∧ Kept e w₀ w) (p.zoom WmiWorld.host WmiWorld.setHost) w₀ := by
  have hz := Safe.zoom WmiWorld.host WmiWorld.setHost (WmiWorld.Env e) (fun _ => True)
    (fun _ _ => rfl) (fun _ _ _ hs => ⟨trivial, .single hs.host⟩) (fun _ _ _ => trivial) trivial hp
  have hk := hz.keep (I := Kept e w₀)
    (by
      intro w w' _ hk hs
      exact ⟨hk.ledger.env hs, hk.reports.trans hs.reports⟩)
    (by
      rintro w w' _ hk ⟨hs, h, rfl⟩
      have hc : h.fWmi.src.consumed = w.host.fWmi.src.consumed := hs.src.consumed
      have hf : h.fWmi.dst.filled = w.host.fWmi.dst.filled := hs.dst.filled
      refine ⟨⟨?_, hk.ledger.nodup, ?_, ?_⟩, hk.reports⟩
      · exact hk.ledger.count.trans (congrArg List.length hf.symm)
      · intro i hi
        exact (hk.ledger.consumed i hi).trans_eq (congrArg List.length hc.symm)
      · intro k S f hS hf'
        change ReportFrame e h.fWmi.src.consumed S f
        rw [hc]
        exact hk.ledger.honest k S f hS (hf ▸ hf'))
    ⟨hL, List.prefix_refl _⟩
  exact hk.mono (fun _ h => ⟨h.1.1, h.2⟩) (fun _ _ _ => trivial) fun _ _ h => ⟨h.1.1, h.2⟩

/-- The HTC state right after `connectService`. -/
structure Connected (e : WmiEndpoint) (c : Htc) : Prop where
  eid : c.fWmiEid = e.eid
  size : c.fCreditSize = e.creditSize
  total : c.fTotalCredits = e.totalCredits

/-- The invariant between calls. -/
structure CreditInv (e : WmiEndpoint) (w : WmiWorld) : Prop where
  tx : TxIdle w.host.fWmi.src
  rx : RxSingle w.host.fWmi.dst
  ledger : Ledger e w
  connected : Connected e w.host.htc
  balance : ¬ w.host.fWmi.src.Expired →
    w.host.htc.fWmiCredits + w.outstanding e = e.totalCredits

theorem CreditInv.received_le (h : CreditInv e w) :
    w.host.fWmi.dst.received.length ≤ w.reports.length := by
  rw [h.ledger.count]
  exact h.rx.idle.1.received_filled.length_le

theorem CreditInv.reported_kept (h : CreditInv e w₀) (hk : Kept e w₀ w)
    (hr : w.host.fWmi.dst.received = w₀.host.fWmi.dst.received) : w.reported = w₀.reported := by
  obtain ⟨t, ht⟩ := hk.reports
  rw [WmiWorld.reported, WmiWorld.reported, hr, ← ht, List.take_append_of_le_length h.received_le]

theorem CreditInv.unchanged (h : CreditInv e w₀) (hk : Kept e w₀ w) (hi : RxSingle w.host.fWmi.dst)
    (hr : w.host.fWmi.dst.received = w₀.host.fWmi.dst.received) (ht : TxIdle w.host.fWmi.src)
    (hp : w.host.fWmi.src.posted = w₀.host.fWmi.src.posted)
    (hl : ∀ m ∈ w₀.host.fWmi.src.iolog, m ∈ w.host.fWmi.src.iolog)
    (hc : Connected e w.host.htc) (hcr : w.host.htc.fWmiCredits = w₀.host.htc.fWmiCredits) :
    CreditInv e w := by
  refine ⟨ht, hi, hk.ledger, hc, fun hne => ?_⟩
  rw [WmiWorld.outstanding, hcr, hp, h.reported_kept hk hr]
  apply h.balance
  rintro ⟨srri, wi, hm⟩
  exact hne ⟨srri, wi, hl _ hm⟩

theorem CreditInv.sendWmi (h : CreditInv e w₀) (hk : Kept e w₀ w) (hi : RxSingle w.host.fWmi.dst)
    (hr : w.host.fWmi.dst.received = w₀.host.fWmi.dst.received)
    (hpost : SendWmiPost w₀.host.htc payload
      (TxAt w₀.host.fWmi.src.posted w₀.host.fWmi.src.iolog)
      (TxSent w₀.host.fWmi.src.posted w₀.host.fWmi.src.iolog (w₀.host.htc.wmiFrame payload)) r
      w.host) : CreditInv e w := by
  cases hpost with
  | refused hc hs =>
    exact h.unchanged hk hi hr hs.idle hs.posted (fun m hm => hs.iolog ▸ hm) (hc ▸ h.connected)
      (congrArg Htc.fWmiCredits hc)
  | failed hc hs =>
    have hconn : Connected e w.host.htc := by
      rw [hc]
      exact ⟨h.connected.eid, h.connected.size, h.connected.total⟩
    cases hs with
    | expired ht he => exact ⟨ht, hi, hk.ledger, hconn, fun hne => absurd he hne⟩
    | unsent ht hp hl =>
      exact h.unchanged hk hi hr ht hp hl hconn (by rw [hc])
  | sent hn hc hs =>
    cases hs with
    | sent hs =>
      have hconn : Connected e w.host.htc := by
        rw [hc]
        exact ⟨h.connected.eid, h.connected.size, h.connected.total⟩
      refine ⟨hs.idle, hi, hk.ledger, hconn, fun hne => ?_⟩
      have hbal := h.balance fun ⟨srri, wi, hm⟩ => hne ⟨srri, wi, hs.iolog ▸ hm⟩
      have hfresh : w₀.host.fWmi.src.posted.length ∉ w₀.reported := by
        intro hm
        have hlt := h.ledger.consumed _ (((List.take_sublist _ _).flatten).mem hm)
        exact absurd (hlt.trans_le h.tx.1.history.1.length_le) (lt_irrefl _)
      have hcost : e.cost (w₀.host.htc.wmiFrame payload) = w₀.host.htc.needed payload.length := by
        rw [WmiEndpoint.cost, Htc.needed, h.connected.size]
        rfl
      rw [WmiWorld.outstanding, hs.posted, h.reported_kept hk hr, owed_post e hfresh, hcost, hc]
      rw [WmiWorld.outstanding] at hbal
      dsimp only
      omega

/-- Taking the next frame extends what has been reported by that frame's report. -/
theorem reported_taken (h : CreditInv e w₀) (hk : Kept e w₀ w)
    (hS : w.reports[w₀.host.fWmi.dst.received.length]? = some S)
    (hr : w.host.fWmi.dst.received = w₀.host.fWmi.dst.received ++ [f]) :
    w.reported = w₀.reported ++ S ∧ (w₀.reported ++ S).Nodup := by
  obtain ⟨t, ht⟩ := hk.reports
  have hprev : (w.reports.take w₀.host.fWmi.dst.received.length).flatten = w₀.reported := by
    rw [← ht, List.take_append_of_le_length h.received_le]
    rfl
  have hrep : w.reported = w₀.reported ++ S := by
    rw [WmiWorld.reported, hr, List.length_append, List.length_singleton, List.take_add_one, hS,
      List.flatten_append, hprev]
    exact congrArg (w₀.reported ++ ·) (List.append_nil S)
  exact ⟨hrep, hrep ▸ (List.take_sublist _ _).flatten.nodup hk.ledger.nodup⟩

theorem CreditInv.recvWmi (h : CreditInv e w₀) (hk : Kept e w₀ w) (hi : RxSingle w.host.fWmi.dst)
    (hs : TxAt w₀.host.fWmi.src.posted w₀.host.fWmi.src.iolog w.host.fWmi.src)
    (hpost : RecvWmiPost w₀.host.htc bufLen w₀.host.fWmi.dst.received r w.host) :
    CreditInv e w := by
  cases hpost with
  | timeout hr hc =>
    exact h.unchanged hk hi hr hs.idle hs.posted (fun m hm => hs.iolog ▸ hm) (hc ▸ h.connected)
      (congrArg Htc.fWmiCredits hc)
  | @frame f _ _ ht hr hc =>
    have hlt : w₀.host.fWmi.dst.received.length < w.reports.length := by
      rw [hk.ledger.count, ht.filled, List.length_append, List.length_singleton]
      exact Nat.lt_succ_self _
    obtain ⟨S, hS⟩ : ∃ S, w.reports[w₀.host.fWmi.dst.received.length]? = some S :=
      ⟨_, List.getElem?_eq_getElem hlt⟩
    have hf : w.host.fWmi.dst.filled[w₀.host.fWmi.dst.received.length]? = some f := by
      rw [ht.filled, List.getElem?_concat_length]
    obtain ⟨g, rs, rfl, hg, htr, hsum⟩ := hk.ledger.honest _ _ _ hS hf
    have hg' : g.WellFormed w₀.host.htc.fWmiEid := h.connected.eid ▸ hg
    have hbuf : w.host.fWmi.dst.rxBuf =
        g.encode ++ w.host.fWmi.dst.rxBuf.drop g.encode.length := by
      conv_lhs => rw [← List.take_append_drop g.encode.length w.host.fWmi.dst.rxBuf, ht.bytes]
    obtain ⟨n, hn, hrecv⟩ :=
      Htc.recvFrame_encode hg' (w.host.fWmi.dst.rxBuf.drop g.encode.length) bufLen
    rw [← hbuf] at hrecv
    have hhtc := hc _ hrecv
    have hconn : Connected e w.host.htc := by
      rw [hhtc]
      exact ⟨h.connected.eid, h.connected.size, h.connected.total⟩
    refine ⟨hs.idle, hi, hk.ledger, hconn, fun hne => ?_⟩
    have hbal := h.balance fun ⟨srri, wi, hm⟩ => hne ⟨srri, wi, hs.iolog ▸ hm⟩
    obtain ⟨hrep, hnodup⟩ := reported_taken h hk hS ht.received
    have hcons (i : Nat) (hiS : i ∈ S) : i < w.host.fWmi.src.consumed.length :=
      hk.ledger.consumed i (List.mem_flatten_of_mem (List.mem_of_getElem? hS) hiS)
    have hpre := hs.idle.1.history.1
    have hcost : (S.map (e.costAt w.host.fWmi.src.consumed)).sum =
        (S.map (e.costAt w.host.fWmi.src.posted)).sum := by
      congr 1
      apply List.map_congr_left
      intro i hiS
      exact (costAt_append hpre (hcons i hiS)).symm
    have howed := owed_report e hnodup fun i hiS => (hcons i hiS).trans_le hpre.length_le
    rw [← hrep, ← hcost, ← hsum, hs.posted] at howed
    have hlt16 := e.total_lt
    rw [WmiWorld.outstanding] at hbal ⊢
    have hcr : creditRecords w₀.host.htc.fWmiEid (encodeTrailer rs) 0 w₀.host.htc.fWmiCredits =
        some ((w₀.host.htc.fWmiCredits + trailerCredits w₀.host.htc.fWmiEid rs) % 2 ^ 16) :=
      creditRecords_encode _ [] rs rfl (by omega)
    rw [← htr, hn, h.connected.eid] at hcr
    rw [hhtc, hs.posted, Option.some.inj hcr, Nat.mod_eq_of_lt (by omega)]
    dsimp only
    omega

/-- Calls on the WMI path next to a well-behaved target, from a connected endpoint on. -/
def creditSystem (e : WmiEndpoint) : System WmiWorld WmiCall WmiResult where
  init := fun w => TxFresh w.host.fWmi.src ∧ RxFresh w.host.fWmi.dst ∧ w.reports = [] ∧
    Connected e w.host.htc ∧ w.host.htc.fWmiCredits = e.totalCredits
  body := fun c => c.body.zoom WmiWorld.host WmiWorld.setHost
  env := WmiWorld.Env e

theorem creditInv_init (h : (creditSystem e).init w) : CreditInv e w := by
  obtain ⟨ht, hr, hw, hc, hcr⟩ := h
  refine ⟨ht.idle, hr.single, ⟨?_, ?_, ?_, ?_⟩, hc, fun _ => ?_⟩
  · rw [hw, hr.filled, List.length_nil, List.length_nil]
  · rw [hw]
    exact List.nodup_nil
  · rw [hw]
    exact fun i hi => absurd hi List.not_mem_nil
  · rw [hw]
    intro k S f hS
    cases hS
  · rw [WmiWorld.outstanding, WmiEndpoint.owed, ht.posted, hcr]
    rfl

theorem creditInv_env (h : CreditInv e w) (hs : WmiWorld.Env e w w') : CreditInv e w' := by
  have hk : Kept e w w' := ⟨h.ledger.env hs, hs.reports⟩
  cases hs with
  | src hs =>
    have ht : TxAt w.host.fWmi.src.posted w.host.fWmi.src.iolog _ :=
      TxAt.engine ⟨h.tx, rfl, rfl⟩ hs
    exact h.unchanged hk h.rx rfl ht.idle ht.posted (fun m hm => ht.iolog ▸ hm) h.connected rfl
  | @fill S f _ _ _ _ hw =>
    have hfill : DstRing.Engine anyFrame w.host.fWmi.dst (w.host.fWmi.dst.fill f) :=
      .fill trivial hw
    exact h.unchanged hk (h.rx.engine hfill) rfl h.tx rfl (fun _ => id) h.connected rfl
  | dst hd =>
    exact h.unchanged hk (h.rx.engine hd) hd.same.received h.tx rfl
      (fun _ => id) h.connected rfl

theorem creditInv_of_host (h : CreditInv e w₀)
    (hs : Safe (Host.WmiEngine SrcRing.Engine anyFrame) J (WmiStep TxStep) Q p w₀.host)
    (hQ : ∀ r w, Q r w.host → Kept e w₀ w → CreditInv e w) :
    Safe (WmiWorld.Env e) (fun _ => True) (fun _ _ => True) (fun _ w => CreditInv e w)
      (p.zoom WmiWorld.host WmiWorld.setHost) w₀ :=
  (world_safe h.ledger hs).mono (fun _ _ => trivial) (fun _ _ _ => trivial)
    fun r w hw => hQ r w hw.1 hw.2

theorem creditInv_call (h : CreditInv e w₀) (c : WmiCall) :
    Safe (WmiWorld.Env e) (fun _ => True) (fun _ _ => True) (fun _ w => CreditInv e w)
      ((creditSystem e).body c) w₀ := by
  have hat : WmiAt w₀.host.fWmi.dst.received w₀.host.htc
      (TxAt w₀.host.fWmi.src.posted w₀.host.fWmi.src.iolog) w₀.host :=
    ⟨h.rx, rfl, rfl, h.tx, rfl, rfl⟩
  have hlive := live_send w₀.host.fWmi.src.posted w₀.host.fWmi.src.iolog
  cases c with
  | armRecv =>
    apply creditInv_of_host h (Safe.map (Q := fun _ t => WmiAt _ _ _ t)
      (wmiArmRecv_safe (hlive []).before (hlive []).refl hat))
    intro r w ht hk
    exact h.unchanged hk ht.rx ht.received ht.src.idle ht.src.posted
      (fun m hm => ht.src.iolog ▸ hm) (ht.htc ▸ h.connected) (congrArg Htc.fWmiCredits ht.htc)
  | sendWmi payload =>
    apply creditInv_of_host h (Safe.map (Q := fun r t => (RxSingle t.fWmi.dst ∧
      t.fWmi.dst.received = w₀.host.fWmi.dst.received) ∧ ∃ ok, SendWmiPost _ payload _ _ ok t)
      ((sendWmi_safe (hlive _) hat).mono (fun _ => id) (fun _ _ => id) fun r t ht =>
        ⟨ht.1, r, ht.2⟩))
    rintro r w ⟨⟨hi, hr⟩, ok, hpost⟩ hk
    exact h.sendWmi hk hi hr hpost
  | recvWmi bufLen timeoutMs =>
    apply creditInv_of_host h (Safe.map (Q := fun r t => (RxSingle t.fWmi.dst ∧
      TxAt _ _ t.fWmi.src) ∧ ∃ got, RecvWmiPost _ bufLen _ got t)
      ((recvWmi_safe (hlive []).before (hlive []).refl hat bufLen timeoutMs).mono (fun _ => id)
        (fun _ _ => id) fun r t ht => ⟨ht.1, r, ht.2⟩))
    rintro r w ⟨⟨hi, hs⟩, got, hpost⟩ hk
    exact h.recvWmi hk hi hs hpost

theorem creditSystem_sound (h : Reachable (creditSystem e) anyCall cfg) :
    Sound (creditSystem e) (CreditInv e) (fun _ _ _ => True) (fun _ _ => True)
      (fun _ _ _ _ => True) cfg :=
  h.sound (fun _ => creditInv_init) (fun _ _ => creditInv_env) fun c _ _ hi =>
    (creditInv_call hi c).mono (fun _ => id) (fun _ _ => id) fun _ _ ht => ⟨ht, trivial⟩

/-- As long as no completion wait has expired, what the host holds and what it is owed add up to
the total. -/
theorem credits_conserved (h : Reachable (creditSystem e) anyCall (.idle w))
    (hx : ¬ w.host.fWmi.src.Expired) :
    w.host.htc.fWmiCredits + w.outstanding e = w.host.htc.fTotalCredits ∧
      w.host.htc.fWmiCredits ≤ w.host.htc.fTotalCredits := by
  have hi : CreditInv e w := creditSystem_sound h
  have hbal := hi.balance hx
  rw [hi.connected.total]
  exact ⟨hbal, hbal ▸ Nat.le_add_right _ _⟩

theorem Host.exec_wmiSend (h : Host) (hlen : ¬ BadLen frame.length)
    (hq : h.fWmi.src.srri = h.fWmi.src.fSrcWrite) :
    exec id (CEManager.wmiSend frame) h =
      (false, h.setWmi (h.fWmi.setSrc (h.fWmi.src.expire frame))) := by
  rw [CEManager.wmiSend, CECopyPair.send, Prog.zoom_zoom,
    exec_zoom (fun h : Host => h.fWmi.src) (fun h s => h.setWmi (h.fWmi.setSrc s))
      (fun _ _ => rfl) (fun _ _ _ => rfl) (fun _ => rfl), exec_send hlen hq]

/-- A completion wait that expires leaves the frame posted and its credits with the host. -/
theorem sendWmi_expires (h : Host) (heid : h.htc.fWmiEid ≠ 0xFF)
    (hlen : ¬ (payload.length = 0 ∨ 2040 < payload.length))
    (hcr : h.htc.needed payload.length ≤ h.htc.fWmiCredits) (hrx : h.fWmi.dst.rxArmed ≠ 0)
    (hq : h.fWmi.src.srri = h.fWmi.src.fSrcWrite) :
    exec id (Htc.sendWmi payload) h =
      (false, (h.setHtc { h.htc with fWmiSeq := h.htc.fWmiSeq + 1 }).setWmi
        (h.fWmi.setSrc (h.fWmi.src.expire (h.htc.wmiFrame payload)))) := by
  have hframe : ¬ BadLen (h.htc.wmiFrame payload).length := by
    have hl : (h.htc.wmiFrame payload).length = 8 + payload.length := by
      rw [Htc.wmiFrame, List.length_append]
      rfl
    simp only [BadLen, hl, kTxBufSz]
    omega
  have hfew : ¬ h.htc.fWmiCredits <
      (payload.length + h.htc.fCreditSize - 1) / h.htc.fCreditSize := not_lt.2 hcr
  unfold Htc.sendWmi CEManager.wmiPostRecvIfIdle
  simp only [bind_eq_bind, pure_eq_ret, read_bind, modify_bind, exec_op, exec_bind, id_eq,
    if_neg heid, if_neg hlen, if_neg hfew, if_pos hrx, exec_ret, Bool.not_true,
    Bool.false_eq_true, if_false]
  rw [Htc.wmiFrame] at hframe ⊢
  have hsend := Host.exec_wmiSend (h.setHtc { h.htc with fWmiSeq := h.htc.fWmiSeq + 1 }) hframe hq
  rw [hsend]
  rfl

def twoCredits : WmiEndpoint := ⟨1, 1792, 2, by decide, by decide⟩

def connectedWorld : WmiWorld :=
  ⟨freshHost.setHtc ⟨2, 1792, 2, 1, 0, 0⟩, []⟩

theorem connectedWorld_reachable :
    Reachable (creditSystem twoCredits) anyCall (.idle connectedWorld) :=
  .init ⟨⟨rfl, rfl, rfl, rfl, rfl, rfl, rfl⟩,
    ⟨rfl, rfl, rfl, rfl, rfl, rfl, rfl, rfl, rfl, rfl, rfl, rfl⟩, rfl, ⟨rfl, rfl, rfl⟩, rfl⟩

def WmiWorld.eager (w : WmiWorld) : WmiWorld :=
  w.setHost (w.host.setWmi (w.host.fWmi.setSrc w.host.fWmi.src.eager))

theorem WmiWorld.eager_star (e : WmiEndpoint) (w : WmiWorld) :
    Relation.ReflTransGen (WmiWorld.Env e) w w.eager := by
  have hlift {s t : SrcRing} (hst : Relation.ReflTransGen SrcRing.Engine s t) :
      Relation.ReflTransGen (WmiWorld.Env e)
        (w.setHost (w.host.setWmi (w.host.fWmi.setSrc s)))
        (w.setHost (w.host.setWmi (w.host.fWmi.setSrc t))) := by
    induction hst with
    | refl => exact .refl
    | @tail u v _ hs ih =>
      exact ih.tail (.src (w := w.setHost (w.host.setWmi (w.host.fWmi.setSrc u))) hs)
  exact hlift w.host.fWmi.src.eager_star

def oneByteWorld : WmiWorld :=
  (exec WmiWorld.eager ((creditSystem twoCredits).body (.sendWmi [7])) connectedWorld).2

theorem oneByteWorld_reachable :
    Reachable (creditSystem twoCredits) anyCall (.idle oneByteWorld) :=
  ((connectedWorld_reachable.step (.call (c := .sendWmi [7]) trivial)).exec
    (WmiWorld.eager_star twoCredits)).step .finish

theorem credits_conserved_one_byte :
    oneByteWorld.host.htc.fWmiCredits + oneByteWorld.outstanding twoCredits =
        oneByteWorld.host.htc.fTotalCredits ∧
      oneByteWorld.host.htc.fWmiCredits ≤ oneByteWorld.host.htc.fTotalCredits := by
  apply credits_conserved oneByteWorld_reachable
  have hlog : oneByteWorld.host.fWmi.src.iolog = [] := by decide +kernel
  rintro ⟨srri, w, hm⟩
  rw [hlog] at hm
  cases hm

def armedHost : Host := (exec id (WmiCall.body .armRecv) connectedWorld.host).2

theorem armedHost_reachable :
    Reachable (creditSystem twoCredits) anyCall (.idle ⟨armedHost, []⟩) :=
  (connectedWorld_reachable.step (.call (c := .armRecv) trivial)).alone.step .finish

def expiredHost : Host :=
  (armedHost.setHtc { armedHost.htc with fWmiSeq := armedHost.htc.fWmiSeq + 1 }).setWmi
    (armedHost.fWmi.setSrc (armedHost.fWmi.src.expire (armedHost.htc.wmiFrame [7])))

theorem expiredHost_reachable :
    Reachable (creditSystem twoCredits) anyCall (.idle ⟨expiredHost, []⟩) := by
  have hlen : ¬ (([7] : List UInt8).length = 0 ∨ 2040 < ([7] : List UInt8).length) := by decide
  have hs := sendWmi_expires armedHost (by decide +kernel) hlen (by decide +kernel)
    (by decide +kernel) (by decide +kernel)
  have hrun := (armedHost_reachable.step (.call (c := .sendWmi [7]) trivial)).alone.step .finish
  have hz := exec_zoom WmiWorld.host WmiWorld.setHost (fun _ _ => rfl) (fun _ _ _ => rfl)
    (fun _ => rfl) (WmiCall.body (.sendWmi [7])) ⟨armedHost, []⟩
  have hb : exec id (WmiCall.body (.sendWmi [7])) armedHost = (.sent false, expiredHost) := by
    rw [WmiCall.body, bind_eq_bind, exec_bind, hs]
    rfl
  rw [hb] at hz
  have he : (exec id ((creditSystem twoCredits).body (.sendWmi [7])) ⟨armedHost, []⟩).2 =
      ⟨expiredHost, []⟩ := congrArg Prod.snd hz
  rw [he] at hrun
  exact hrun

/-- Two credits in hand and one owed, of two in all. -/
theorem credits_not_conserved :
    ∃ w, Reachable (creditSystem twoCredits) anyCall (.idle w) ∧
      w.host.htc.fWmiCredits + w.outstanding twoCredits ≠ w.host.htc.fTotalCredits :=
  ⟨_, expiredHost_reachable, by decide +kernel⟩

end Qca9377
