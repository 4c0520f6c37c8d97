import Qca9377.Boot
import Qca9377.Transmit
import Qca9377.Stretches

namespace Qca9377
open Bytes Interleaving
set_option autoImplicit true

/-- An engine that has consumed every command. -/
def SrcRing.ready (s : SrcRing) : SrcRing := { s with gone := false, currentSRRI := s.fSrcWrite }

/-- An engine that has completed the entry waited for, with an answer of ones. -/
def DstRing.ready (d : DstRing) : DstRing :=
  { d with
    gone := false
    currentDRRI := (d.fDstSw + 1) % kRingN
    fDstDesc :=
      Function.update d.fDstDesc d.fDstSw { d.fDstDesc d.fDstSw with nbytes := kBmiMaxDataSize }
    rxBuf := List.replicate kBmiMaxDataSize 1 }

/-- A target that does at once whatever the host waits for. -/
def Host.ready (h : Host) : Host := h.setCtrl ⟨h.fCtrl.src.ready, h.fCtrl.dst.ready⟩

def Boot.ready (b : Boot) : Boot := { b with host := b.host.ready, fwIndicator := 2 }

/-- Ring indices in range, and BMI not over. -/
structure Host.Able (h : Host) : Prop where
  srcWrite : h.fCtrl.src.fSrcWrite < kRingN
  dstSw : h.fCtrl.dst.fDstSw < kRingN
  notDone : h.bmi.fDoneSent = false

theorem SrcRing.ready_srri {s : SrcRing} (h : s.fSrcWrite < kRingN) :
    s.ready.srri = s.fSrcWrite := by
  rw [SrcRing.srri]
  exact Nat.mod_eq_of_lt h

theorem exec_pollSRRI_ready {s : SrcRing} (h : s.fSrcWrite < kRingN) (n : Nat) :
    exec SrcRing.ready (pollSRRI n) s = ((s.fSrcWrite, s.fSrcWrite), s.ready) := by
  have hread : (s.ready.srri, s.ready.fSrcWrite) = (s.fSrcWrite, s.fSrcWrite) := by
    rw [SrcRing.ready_srri h]
    rfl
  cases n with
  | zero => exact congrArg (·, s.ready) hread
  | succ n =>
    rw [pollSRRI, bind_eq_bind, read_bind, exec_op, hread, if_pos rfl]
    rfl

theorem exec_send_ready {s : SrcRing} (hlen : ¬ BadLen f.length) (h : s.fSrcWrite < kRingN) :
    (exec SrcRing.ready (SrcRing.send f) s).1 = true ∧
      (exec SrcRing.ready (SrcRing.send f) s).2.fSrcWrite < kRingN := by
  have hnext (w : Nat) : (w + 1) % kRingN < kRingN := Nat.mod_lt _ (by decide)
  have hbad : ¬ (f.length = 0 ∨ kTxBufSz < f.length ∨ 0xFFFF < f.length) := hlen
  unfold SrcRing.send
  simp only [bind_eq_bind, pure_eq_ret, modify_bind]
  rw [if_neg hbad, exec_bind, exec_pollSRRI_ready h]
  simp only [ne_eq, not_true_eq_false, if_false, exec_op, exec_bind]
  rw [exec_pollSRRI_ready (hnext _)]
  simp only [not_true_eq_false, if_false, exec_ret]
  exact ⟨trivial, hnext _⟩

theorem exec_recvWait_ready (d : DstRing) :
    (exec DstRing.ready (DstRing.recvWait kQCAExchangeTimeout_ms) d).1 = true ∧
      (exec DstRing.ready (DstRing.recvWait kQCAExchangeTimeout_ms) d).2.fDstSw < kRingN ∧
      (exec DstRing.ready (DstRing.recvWait kQCAExchangeTimeout_ms) d).2.fRxNbytes =
        kBmiMaxDataSize := by
  have hdeadline : pollDeadline kQCAExchangeTimeout_ms = 199999 + 1 := by decide
  have hmoved : d.ready.drri ≠ d.ready.fDstSw := by
    simp only [DstRing.drri, DstRing.ready, kRingN, Bool.false_eq_true, if_false]
    omega
  have hlanded : (d.ready.ready.fDstDesc d.ready.ready.fDstSw).nbytes = kBmiMaxDataSize := by
    have hentry : d.ready.ready.fDstDesc d.ready.ready.fDstSw =
        { d.ready.fDstDesc d.ready.fDstSw with nbytes := kBmiMaxDataSize } :=
      Function.update_self _ _ _
    rw [hentry]
  have hnonzero : kBmiMaxDataSize ≠ 0 := by decide
  have hrun : exec DstRing.ready (recvPoll (199999 + 1)) d =
      (true, d.ready.ready.ready.consume kBmiMaxDataSize) := by
    rw [recvPoll, bind_eq_bind, read_bind, exec_op, if_neg hmoved, bind_eq_bind, read_bind,
      exec_op]
    simp only [id_eq]
    rw [hlanded, if_neg hnonzero]
    rfl
  rw [DstRing.recvWait, hdeadline, hrun]
  exact ⟨rfl, Nat.mod_lt _ (by decide), rfl⟩

/-- Executed against a responsive target, the program ends as `Q` says. -/
def Succeeds (Q : α → Host → Prop) (p : Prog Host α) (h : Host) : Prop :=
  Q (exec Host.ready p h).1 (exec Host.ready p h).2 ∧ (exec Host.ready p h).2.Able

def returns (a : α) (b : α) (_ : Host) : Prop := b = a

theorem Succeeds.bind {p : Prog Host α} {k : α → Prog Host β} (hp : Succeeds P p h)
    (hk : ∀ a h, P a h → h.Able → Succeeds Q (k a) h) : Succeeds Q (p.bind k) h := by
  unfold Succeeds
  rw [exec_bind]
  exact hk _ _ hp.1 hp.2

theorem Succeeds.orFail {p : Prog Host Bool} {k : Prog Host α} (hp : Succeeds (returns true) p h)
    (hk : ∀ h, h.Able → Succeeds Q k h) :
    Succeeds Q (p.bind fun ok => if (!ok) = true then .ret fail else k) h := by
  apply hp.bind
  intro ok h hok hh
  rw [hok]
  exact hk h hh

theorem Succeeds.op {n : Host → Prog Host α} (hn : Succeeds Q (n h.ready) (u h.ready)) :
    Succeeds Q (.op u n) h := hn

theorem Host.Able.ready {h : Host} (hh : h.Able) : h.ready.Able := ⟨hh.1, hh.2, hh.3⟩

theorem Host.Able.stage {h : Host} (hh : h.Able) (stage : BmiStage) : (h.stage stage).Able :=
  ⟨hh.1, hh.2, hh.3⟩

theorem succeeds_send {h : Host} (hh : h.Able) (hlen : ¬ BadLen f.length) :
    Succeeds (returns true) (CEManager.send f) h := by
  have hsend := exec_send_ready hlen hh.srcWrite
  obtain ⟨hres, hget, hdst, hbmi⟩ := exec_component (fun t : Host => t.fCtrl.src)
    (fun t s => t.setCtrl (t.fCtrl.setSrc s)) Host.ready SrcRing.ready
    (fun t => t.fCtrl.dst.fDstSw < kRingN ∧ t.bmi.fDoneSent = false) (fun _ _ => rfl)
    (fun _ => rfl) (fun _ hF => hF) (fun _ _ hF => hF) (SrcRing.send f) ⟨hh.dstSw, hh.notDone⟩
  unfold Succeeds
  rw [CEManager.send, CECopyPair.send, Prog.zoom_zoom]
  refine ⟨hres.trans hsend.1, ?_, hdst, hbmi⟩
  rw [hget]
  exact hsend.2

theorem succeeds_postRecv {h : Host} (hh : h.Able) :
    Succeeds (returns true) CEManager.postRecv h := ⟨rfl, hh.1, hh.2, hh.3⟩

theorem succeeds_recvWait {h : Host} (hh : h.Able) :
    Succeeds (fun r t => r = true ∧ t.fCtrl.dst.fRxNbytes = kBmiMaxDataSize)
      (CEManager.recvWait kQCAExchangeTimeout_ms) h := by
  have hrecv := exec_recvWait_ready h.fCtrl.dst
  obtain ⟨hres, hget, hsrc, hbmi⟩ := exec_component (fun t : Host => t.fCtrl.dst)
    (fun t d => t.setCtrl (t.fCtrl.setDst d)) Host.ready DstRing.ready
    (fun t => t.fCtrl.src.fSrcWrite < kRingN ∧ t.bmi.fDoneSent = false) (fun _ _ => rfl)
    (fun _ => rfl) (fun _ hF => hF) (fun _ _ hF => hF) (DstRing.recvWait kQCAExchangeTimeout_ms)
    ⟨hh.srcWrite, hh.notDone⟩
  unfold Succeeds
  rw [CEManager.recvWait, CECopyPair.recvWait, Prog.zoom_zoom]
  refine ⟨⟨hres.trans hrecv.1, ?_⟩, hsrc, ?_, hbmi⟩
  · rw [hget]
    exact hrecv.2.2
  · rw [hget]
    exact hrecv.2.1

theorem succeeds_exchangeWait {h : Host} (hh : h.Able) (hlen : ¬ BadLen cmd.length)
    (hresp : respLen ≤ kBmiMaxDataSize) :
    Succeeds (returns (some (List.replicate respLen 1, kBmiMaxDataSize)))
      (Bmi.exchangeWait cmd respLen) h := by
  unfold Bmi.exchangeWait Bmi.setStage
  simp only [bind_eq_bind, pure_eq_ret, read_bind, modify_bind]
  apply Succeeds.op
  rw [if_neg (by rw [hh.ready.notDone]; exact Bool.false_ne_true)]
  apply Succeeds.op
  apply (succeeds_postRecv (hh.ready.ready.stage _)).orFail
  intro h hh
  apply Succeeds.op
  apply (succeeds_send (hh.ready.stage _) hlen).orFail
  intro h hh
  apply Succeeds.op
  apply (succeeds_recvWait (hh.ready.stage _)).bind
  intro ok h hrecv hh
  obtain ⟨rfl, hnbytes⟩ := hrecv
  apply Succeeds.op
  apply Succeeds.op
  have hlong : ¬ ((h.ready.stage .shortResp).ready.fCtrl.dst.fRxNbytes < respLen) := by
    have hsame : (h.ready.stage .shortResp).ready.fCtrl.dst.fRxNbytes = h.fCtrl.dst.fRxNbytes := rfl
    rw [hsame, hnbytes]
    exact Nat.not_lt.2 hresp
  rw [if_neg hlong]
  apply Succeeds.op
  apply Succeeds.op
  have hbytes : (List.replicate kBmiMaxDataSize (1 : UInt8)).take respLen =
      List.replicate respLen 1 := by
    rw [List.take_replicate, min_eq_left hresp]
  refine ⟨?_, ((hh.ready.stage _).ready.ready.ready.stage _)⟩
  exact congrArg some (Prod.ext hbytes hnbytes)

theorem BmiQuery.goodLen (q : BmiQuery) : ¬ BadLen q.cmd.length := by
  have hlen (id : Nat) (args : List Nat) (h : args.length ≤ 2) :
      ¬ BadLen (bmiCmd id args).length := by
    rw [bmiCmd, encodeWords_length, List.length_cons]
    simp only [BadLen, kTxBufSz]
    omega
  cases q with
  | getTargetInfo => exact hlen _ _ (by decide)
  | readMemory addr len => exact hlen _ _ (le_refl 2)
  | execute addr param => exact hlen _ _ (le_refl 2)

theorem decodeLE_ones : decodeLE (List.replicate 4 1) = 0x01010101 := by decide

theorem succeeds_read32 {h : Host} (hh : h.Able) (itemOffset : Nat) :
    Succeeds (returns (some 0x01010101)) (Bmi.read32 itemOffset) h := by
  have hlen : ¬ (4 = 0 ∨ kBmiMaxDataSize < 4) := by decide
  have hread : Succeeds (returns (some (List.replicate 4 1)))
      ((Bmi.exchangeWait (BmiQuery.readMemory (kHostInterestAddress + itemOffset) 4).cmd 4).bind
        fun r => .ret (r.map Prod.fst)) h :=
    (succeeds_exchangeWait hh (BmiQuery.goodLen _) (by decide)).bind
      fun r h hr hh => ⟨congrArg (Option.map Prod.fst) hr, hh⟩
  rw [Bmi.read32, readMemory_query hlen]
  apply hread.bind
  intro r h hr hh
  rw [hr]
  exact ⟨congrArg some decodeLE_ones, hh⟩

theorem succeeds_execute {h : Host} (hh : h.Able) (addr param : Nat) :
    Succeeds (returns (some 0x01010101)) (Bmi.execute addr param) h := by
  apply (succeeds_exchangeWait hh (BmiQuery.execute addr param).goodLen (by decide)).bind
  intro r h hr hh
  rw [hr]
  exact ⟨congrArg some decodeLE_ones, hh⟩

theorem succeeds_writeChunks {h : Host} (hh : h.Able) (payload : List UInt8) (addr : Nat)
    (buf : List UInt8) : Succeeds (returns true) (Bmi.writeChunks payload addr buf) h := by
  induction payload, addr, buf using Bmi.writeChunks.induct generalizing h with
  | case1 payload addr =>
    rw [Bmi.writeChunks]
    exact ⟨rfl, hh⟩
  | case2 payload addr buf hbuf tx =>
    rename_i filled ih
    rw [Bmi.writeChunks, dif_neg hbuf]
    refine (succeeds_send hh ?_).orFail fun h hh => ih hh
    simp only [BadLen, List.length_append, List.length_take, bmiCmd, encodeWords_length,
      List.length_cons, List.length_nil, kTxBufSz, kBmiMaxDataSize]
    omega

theorem succeeds_writeMemory {h : Host} (hh : h.Able) (hbuf : buf ≠ []) :
    Succeeds (returns true) (Bmi.writeMemory stack addr buf) h := by
  rw [Bmi.writeMemory, if_neg hbuf]
  exact succeeds_writeChunks hh stack addr buf

theorem succeeds_write32 {h : Host} (hh : h.Able) :
    Succeeds (returns true) (Bmi.write32 stack itemOffset val) h :=
  succeeds_writeMemory hh (List.ne_nil_of_length_eq_add_one (encodeLE_length 4 val))

theorem succeeds_lzChunks {h : Host} (hh : h.Able) (buf : List UInt8) :
    Succeeds (returns true) (Bmi.lzChunks buf) h := by
  induction buf using Bmi.lzChunks.induct generalizing h with
  | case1 =>
    rw [Bmi.lzChunks]
    exact ⟨rfl, hh⟩
  | case2 buf hbuf tx =>
    rename_i ih
    rw [Bmi.lzChunks, dif_neg hbuf]
    refine (succeeds_send hh ?_).orFail fun h hh => ih hh
    simp only [BadLen, List.length_append, List.length_take, bmiCmd, encodeWords_length,
      List.length_cons, List.length_nil, kTxBufSz, kBmiMaxDataSize]
    omega

theorem succeeds_fastDownload {h : Host} (hh : h.Able) (hbuf : buf ≠ []) :
    Succeeds (returns true) (Bmi.fastDownload addr buf) h := by
  have hstart (a : Nat) : ¬ BadLen (bmiCmd kBmiLzStreamStart [a]).length := by
    have hlen : ¬ BadLen (4 * 2) := by decide
    rw [bmiCmd, encodeWords_length]
    exact hlen
  have hflush {h : Host} (hh : h.Able) : Succeeds (returns true)
      ((CEManager.send (bmiCmd kBmiLzStreamStart [0])).bind fun ok =>
        if (!ok) = true then .ret false else .ret true) h :=
    (succeeds_send hh (hstart 0)).orFail fun h hh => ⟨rfl, hh⟩
  unfold Bmi.fastDownload
  simp only [bind_eq_bind, pure_eq_ret]
  rw [if_neg hbuf]
  apply (succeeds_send hh (hstart addr)).orFail
  intro h hh
  apply (succeeds_lzChunks hh _).orFail
  intro h hh
  split
  · refine (succeeds_send hh ?_).orFail fun h hh => hflush hh
    simp only [BadLen, poke, List.length_append, List.length_take, List.length_drop,
      List.length_replicate, bmiCmd, encodeWords_length, List.length_cons, List.length_nil,
      kTxBufSz]
    omega
  · exact hflush hh

theorem succeeds_done {h : Host} (hh : h.Able) :
    (exec Host.ready Bmi.done h).1 = true := by
  have hlen : ¬ BadLen (bmiCmd kBmiDone []).length := by decide
  have hsend := (succeeds_send hh hlen).1
  unfold Bmi.done
  rw [bind_eq_bind, exec_bind, hsend]
  rfl

theorem succeeds_configureTarget {h : Host} (hh : h.Able) (stack : Payload) :
    Succeeds (returns true) (Fw.configureTarget stack) h := by
  apply (succeeds_write32 hh).orFail
  intro h hh
  apply (succeeds_read32 hh 0x10).bind
  intro r h hr hh
  rw [hr]
  apply (succeeds_write32 hh).orFail
  intro h hh
  apply (succeeds_write32 hh).orFail
  intro h hh
  apply (succeeds_write32 hh).orFail
  intro h hh
  exact (succeeds_write32 hh).orFail fun h hh => ⟨rfl, hh⟩

theorem succeeds_downloadBoardData {h : Host} (hh : h.Able) (stack : Payload)
    (hdata : boardData ≠ []) :
    Succeeds (returns true) (Fw.downloadBoardData stack boardData) h := by
  have hne : boardData.take Fw.kBoardDataSz ≠ [] := by
    rw [ne_eq, List.take_eq_nil_iff, not_or]
    exact ⟨by decide, hdata⟩
  apply (succeeds_read32 hh _).bind
  intro r h hr hh
  rw [hr]
  apply (succeeds_writeMemory hh hne).orFail
  intro h hh
  exact (succeeds_write32 hh).orFail fun h hh => ⟨rfl, hh⟩

theorem succeeds_otpStage {h : Host} (hh : h.Able) (E : Embedded) :
    Succeeds (fun _ _ => True) (Boot.otpStage E) h := by
  unfold Boot.otpStage Fw.runOtp
  split
  · split
    · exact ⟨trivial, hh⟩
    · next hotp =>
      apply (succeeds_fastDownload hh hotp).orFail
      intro h hh
      apply (succeeds_execute hh _ _).bind
      intro r h hr hh
      rw [hr]
      exact ⟨trivial, hh⟩
  · exact ⟨trivial, hh⟩

/-- Executed against a responsive target, a part of the boot returns `a`, and BMI goes on. -/
def BootSucceeds (a : Bool) (p : Prog Boot Bool) (b : Boot) : Prop :=
  (exec Boot.ready p b).1 = a

theorem bootSucceeds_onHost {p : Prog Host α} {k : α → Prog Boot Bool}
    (hp : Succeeds P p b.host)
    (hk : ∀ a b, P a b.host → b.host.Able → BootSucceeds r (k a) b) :
    BootSucceeds r ((Boot.onHost p).bind k) b := by
  obtain ⟨hres, hget, -⟩ := exec_component Boot.host Boot.setHost Boot.ready Host.ready
    (fun _ => True) (fun _ _ => rfl) (fun _ => rfl) (fun _ _ => trivial) (fun _ _ _ => trivial) p
    (trivial : (fun _ : Boot => True) b)
  unfold BootSucceeds Boot.onHost
  rw [exec_bind]
  apply hk
  · rw [hres, hget]
    exact hp.1
  · rw [hget]
    exact hp.2

theorem bootSucceeds_attempt {p : Prog Host Bool} {k : Prog Boot Bool}
    (hp : Succeeds (returns true) p b.host)
    (hk : ∀ b : Boot, b.host.Able → BootSucceeds r k b) :
    BootSucceeds r ((Boot.onHost p).bind fun ok =>
      if (!ok) = true then Boot.fail text else k) b := by
  apply bootSucceeds_onHost hp
  intro ok b hok hb
  rw [hok]
  exact hk b hb

theorem bootSucceeds_publish {k : Prog Boot Bool} (hb : b.host.Able)
    (hk : ∀ b : Boot, b.host.Able → BootSucceeds r k b) :
    BootSucceeds r ((Boot.publishStage text).bind fun _ => k) b := hk _ hb.ready

theorem exec_pollIndicator (n : Nat) (v : UInt32) (b : Boot) :
    (exec Boot.ready (Boot.pollIndicator (n + 1) v) b).1 = 2 := by
  have hgone : ¬ ((2 : UInt32) = 0xffffffff) := by decide
  have hpending : ¬ ((2 : UInt32) &&& Boot.kFwIndEventPending ≠ 0) := by decide
  have hinit : (2 : UInt32) &&& Boot.kFwIndInitialized ≠ 0 := by decide
  have hread : b.ready.fwIndicator = 2 := rfl
  unfold Boot.pollIndicator Boot.readIndicator
  rw [bind_eq_bind, Prog.op_bind, exec_op, Prog.ret_bind, hread, if_neg hgone, if_neg hpending,
    if_pos hinit]
  rfl

theorem bootSucceeds_wait {b : Boot} (hb : b.host.Able) :
    BootSucceeds true Boot.doneAndWaitTargetInit b := by
  have hdeadline : pollDeadline 3000 = 59999 + 1 := by decide
  have hgone : ¬ ((2 : UInt32) = 0xffffffff) := by decide
  have hpending : ¬ ((2 : UInt32) &&& Boot.kFwIndEventPending ≠ 0) := by decide
  have hinit : ¬ ((2 : UInt32) &&& Boot.kFwIndInitialized = 0) := by decide
  obtain ⟨hdone, -⟩ := exec_component Boot.host Boot.setHost Boot.ready Host.ready
    (fun _ => True) (fun _ _ => rfl) (fun _ => rfl) (fun _ _ => trivial) (fun _ _ _ => trivial)
    Bmi.done (trivial : (fun _ : Boot => True) b)
  unfold BootSucceeds Boot.doneAndWaitTargetInit Boot.onHost
  rw [bind_eq_bind, exec_bind, hdone, succeeds_done hb, if_neg (by decide), bind_eq_bind,
    exec_bind, hdeadline, exec_pollIndicator, if_neg hgone, if_neg hpending, if_neg hinit]
  rfl

/-- With a firmware and board data to load, the boot succeeds on a responsive target. -/
theorem bootFirmware_boots (E : Embedded) (fSubVendor fSubDevice : UInt16) (stack : Payload)
    (hparse : E.parseFirmware.1 = true) (hdata : E.boardData fSubVendor fSubDevice ≠ [])
    (hfirmware : E.firmware ≠ []) (hb : b.host.Able) :
    BootSucceeds true (Boot.bootFirmware E fSubVendor fSubDevice stack) b := by
  unfold Boot.bootFirmware
  rw [if_neg (by rw [hparse]; exact Bool.false_ne_true)]
  apply bootSucceeds_publish hb
  intro b hb
  apply bootSucceeds_attempt (succeeds_configureTarget hb stack)
  intro b hb
  apply bootSucceeds_publish hb
  intro b hb
  apply bootSucceeds_attempt (succeeds_downloadBoardData hb stack hdata)
  intro b hb
  apply bootSucceeds_publish hb
  intro b hb
  apply bootSucceeds_onHost (succeeds_otpStage hb E)
  intro _ b _ hb
  apply bootSucceeds_attempt (succeeds_fastDownload hb hfirmware)
  intro b hb
  apply bootSucceeds_publish hb
  intro b hb
  unfold BootSucceeds
  rw [bind_eq_bind, exec_bind, bootSucceeds_wait hb]
  rfl

end Qca9377
