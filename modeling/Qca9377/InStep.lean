import Qca9377.PairInit
import Qca9377.Transmit

namespace Qca9377
open Bytes Interleaving
set_option autoImplicit true

/-- The masked hardware indices equal the host's. -/
structure InStep (a : InitAnswers) (o : CEObject) : Prop where
  src : a.srri.toNat % kRingN = o.fSrcWrite
  dst : a.drri.toNat % kRingN = o.fDstSw

/-- The rings of a pair that has been set up: `allocRegion` has zeroed the region, and the index
registers are left as they were. -/
def CEObject.pair (o : CEObject) (a : InitAnswers) (srWrIndex dstWrIndex : Nat) : CECopyPair where
  src :=
    { fSrcDesc := fun _ => ⟨0, 0, 0⟩
      txBuf := List.replicate kTxBufSz 0
      fTxPhys := o.fRegionPhys + 2 * aligned (kRingN * 8)
      fSrcWrite := o.fSrcWrite
      srWrIndex := srWrIndex
      currentSRRI := a.srri.toNat
      gone := false
      fetched := none
      iolog := []
      posted := []
      consumed := [] }
  dst :=
    { fDstDesc := fun _ => ⟨0, 0, 0⟩
      rxBuf := List.replicate kRxBufSz 0
      fRxPhys := o.fRegionPhys + 2 * aligned (kRingN * 8) + aligned kTxBufSz
      fDstWrite := o.fDstWrite
      fDstSw := o.fDstSw
      fRxNbytes := 0
      dstWrIndex := dstWrIndex
      currentDRRI := a.drri.toNat
      gone := false
      fillIdx := a.drri.toNat % kRingN
      landIdx := a.drri.toNat % kRingN
      unlanded := []
      iolog := []
      posts := 0
      advanced := 0
      filled := []
      received := [] }

/-- An engine that moves SRRI only by processing posted entries. -/
structure SrcRing.Processes (s t : SrcRing) : Prop where
  fSrcWrite : t.fSrcWrite = s.fSrcWrite
  posted : t.posted = s.posted
  iolog : t.iolog = s.iolog
  consumed : s.consumed.length ≤ t.consumed.length ∧ t.consumed.length ≤ t.posted.length
  srri : t.srri = (s.srri + (t.consumed.length - s.consumed.length)) % kRingN

/-- An engine that moves DRRI only by processing posted entries. -/
structure DstRing.Processes (d e : DstRing) : Prop where
  fDstSw : e.fDstSw = d.fDstSw
  posts : e.posts = d.posts
  received : e.received = d.received
  advanced : d.advanced ≤ e.advanced ∧ e.advanced ≤ e.posts
  drri : e.drri = (d.drri + (e.advanced - d.advanced)) % kRingN

def NoPreWait (s : SrcRing) : Prop := ∀ srri w, CELog.sendPreWaitTimeout srri w ∉ s.iolog

def PreWaitPasses (s : SrcRing) : Prop :=
  ∀ f, Safe SrcRing.Processes NoPreWait (fun _ _ => True) (fun _ _ => True) (SrcRing.send f) s

/-- Any number of posts, then `recvWait`. -/
def DstRing.firstRecv (timeoutMs : Nat) : Nat → Prog DstRing Bool
  | 0 => DstRing.recvWait timeoutMs
  | n + 1 => do
    let _ ← DstRing.postRecv
    DstRing.firstRecv timeoutMs n

/-- As long as nothing has been taken, DRRI shows an entry to look at only when the one at `fDstSw`
has been posted. -/
def LooksInside (d : DstRing) : Prop :=
  d.received = [] → d.drri ≠ d.fDstSw → ∃ k < d.posts, k % kRingN = d.fDstSw

def LooksAtPosted (d : DstRing) : Prop :=
  ∀ timeoutMs n, Safe DstRing.Processes LooksInside (fun _ _ => True) (fun _ _ => True)
    (DstRing.firstRecv timeoutMs n) d

theorem SrcRing.srri_lt (s : SrcRing) : s.srri < kRingN := Nat.mod_lt _ (by decide)

/-- Nothing posted, nothing logged, and SRRI where the next entry goes. -/
structure SrcRing.Unused (s : SrcRing) : Prop where
  posted : s.posted = []
  consumed : s.consumed = []
  iolog : s.iolog = []
  srri : s.srri = s.fSrcWrite

theorem SrcRing.Unused.step (h : s.Unused) (hs : SrcRing.Processes s t) : t.Unused := by
  have hposted := hs.posted.trans h.posted
  have hlen := hs.consumed.2
  rw [hposted] at hlen
  have hconsumed := List.eq_nil_of_length_eq_zero (Nat.le_zero.1 hlen)
  refine ⟨hposted, hconsumed, hs.iolog.trans h.iolog, ?_⟩
  rw [hs.srri, hconsumed, h.consumed, Nat.sub_self, Nat.add_zero, Nat.mod_eq_of_lt s.srri_lt,
    hs.fSrcWrite, h.srri]

section Src

theorem unused_assertion : Assertion SrcRing.Processes NoPreWait SrcRing.Unused where
  step := fun _ _ => .step
  inv := fun _ h _ _ hm => by
    rw [h.iolog] at hm
    cases hm

theorem log_assertion (l : List CELog) (hl : ∀ srri w, CELog.sendPreWaitTimeout srri w ∉ l) :
    Assertion SrcRing.Processes NoPreWait fun s => s.iolog = l where
  step := fun _ _ h hs => hs.iolog.trans h
  inv := fun _ h srri w hm => hl srri w (h ▸ hm)

theorem unused_poll (n : Nat) (h : s.Unused) :
    Safe SrcRing.Processes NoPreWait (fun _ _ => True) (fun r t => r.1 = r.2 ∧ t.Unused)
      (pollSRRI n) s := by
  induction n with
  | zero =>
    apply Safe.op unused_assertion h (fun _ _ => trivial)
    intro t ht
    exact .ret unused_assertion ht fun u hu => ⟨ht.srri, hu⟩
  | succ n ih =>
    apply Safe.op unused_assertion h (fun _ _ => trivial)
    intro t ht
    dsimp only [Prog.ret_bind, bind_eq_bind, id_eq]
    rw [if_pos ht.srri]
    exact .ret unused_assertion ht fun u hu => ⟨ht.srri, hu⟩

theorem log_poll (n : Nat) (hl : Assertion SrcRing.Processes NoPreWait fun s => s.iolog = l)
    (h : s.iolog = l) :
    Safe SrcRing.Processes NoPreWait (fun _ _ => True) (fun _ t => t.iolog = l)
      (pollSRRI n) s := by
  induction n generalizing s with
  | zero =>
    apply Safe.op hl h (fun _ _ => trivial)
    intro t ht
    exact .ret hl ht fun _ => id
  | succ n ih =>
    apply Safe.op hl h (fun _ _ => trivial)
    intro t ht
    dsimp only [Prog.ret_bind, bind_eq_bind, id_eq]
    split
    · exact .ret hl ht fun _ => id
    · exact ih ht

theorem posting_log (f : List UInt8) (h : s.iolog = []) :
    Safe SrcRing.Processes NoPreWait (fun _ _ => True) (fun _ _ => True)
      (.op (SrcRing.copyIn f) fun _ => .op (SrcRing.writeDesc f.length) fun _ =>
        .op SrcRing.stepWrite fun _ => .op (SrcRing.ring f) fun _ =>
          (pollSRRI (pollDeadline kQCAExchangeTimeout_ms)).bind fun x =>
            if x.1 ≠ x.2 then .op (SrcRing.log (.sendCompletionTimeout x.1 x.2)) fun _ => .ret false
            else .ret true) s := by
  have hnil := log_assertion [] (fun _ _ => List.not_mem_nil)
  apply Safe.op hnil h (fun _ _ => trivial)
  intro t ht
  refine .op hnil ht (fun _ _ => trivial) fun t ht => ?_
  refine .op hnil ht (fun _ _ => trivial) fun t ht => ?_
  refine .op hnil ht (fun _ _ => trivial) fun t ht => ?_
  refine .bind (Safe.mono (log_poll _ hnil ht) (fun _ => id) (fun _ _ => id) fun x t ht => ?_)
  split
  · have hlogged := log_assertion [.sendCompletionTimeout x.1 x.2]
      (fun _ _ hm => by cases List.mem_singleton.1 hm)
    apply Safe.op hnil ht (fun _ _ => trivial)
    intro u hu
    exact .ret hlogged (congrArg (· ++ _) hu) fun _ _ => trivial
  · exact .ret hnil ht fun _ _ => trivial

theorem SrcRing.Unused.passes (h : s.Unused) : PreWaitPasses s := by
  intro f
  unfold SrcRing.send
  simp only [bind_eq_bind, pure_eq_ret, modify_bind]
  split
  · have hlogged := log_assertion [.sendBadLen f.length]
      (fun _ _ hm => by cases List.mem_singleton.1 hm)
    apply Safe.op unused_assertion h (fun _ _ => trivial)
    intro t ht
    exact .ret hlogged (congrArg (· ++ _) ht.iolog) fun _ _ => trivial
  · refine .bind (Safe.mono (unused_poll _ h) (fun _ => id) (fun _ _ => id) ?_)
    rintro x t ⟨hx, ht⟩
    rw [if_neg (not_not.2 hx)]
    exact posting_log f ht.iolog

end Src

section Dst

/-- As long as nothing has been taken, DRRI counts the entries completed from 0 on, and only posted
entries are completed. -/
def DstRing.Untaken (d : DstRing) : Prop :=
  d.received = [] → d.fDstSw = 0 ∧ d.drri = d.advanced % kRingN ∧ d.advanced ≤ d.posts

theorem DstRing.Untaken.step (h : d.Untaken) (hs : DstRing.Processes d e) : e.Untaken := by
  intro hnone
  obtain ⟨hsw, hdrri, -⟩ := h (hs.received ▸ hnone)
  refine ⟨hs.fDstSw.trans hsw, ?_, hs.advanced.2⟩
  rw [hs.drri, hdrri, Nat.mod_add_mod, Nat.add_sub_cancel' hs.advanced.1]

theorem DstRing.Untaken.looks (h : d.Untaken) : LooksInside d := by
  intro hnone hne
  obtain ⟨hsw, hdrri, hle⟩ := h hnone
  have hpos : 0 < d.advanced := by
    apply Nat.pos_of_ne_zero
    intro hzero
    apply hne
    rw [hdrri, hzero, hsw, Nat.zero_mod]
  exact ⟨0, hpos.trans_le hle, hsw.symm⟩

theorem untaken_assertion : Assertion DstRing.Processes LooksInside DstRing.Untaken where
  step := fun _ _ => .step
  inv := fun _ => DstRing.Untaken.looks

theorem recvPoll_looks (n : Nat) (h : d.Untaken) :
    Safe DstRing.Processes LooksInside (fun _ _ => True) (fun _ _ => True) (recvPoll n) d := by
  induction n generalizing d with
  | zero =>
    apply Safe.op untaken_assertion h (fun _ _ => trivial)
    intro e he
    apply Safe.op untaken_assertion he (fun _ _ => trivial)
    intro e he
    exact .ret untaken_assertion he fun _ _ => trivial
  | succ n ih =>
    apply Safe.op untaken_assertion h (fun _ _ => trivial)
    intro e he
    dsimp only [Prog.ret_bind, bind_eq_bind, id_eq]
    split
    · exact ih he
    apply Safe.op untaken_assertion he (fun _ _ => trivial)
    intro e he
    dsimp only [Prog.ret_bind, bind_eq_bind, id_eq]
    split
    · exact ih he
    apply Safe.op untaken_assertion he (fun _ _ => trivial)
    intro e he
    -- taking an entry ends what is asked
    have htaken (nbytes : Nat) : (e.consume nbytes).Untaken := fun hnone =>
      absurd hnone (List.append_ne_nil_of_right_ne_nil _ nofun)
    exact .ret untaken_assertion (htaken _) fun _ _ => trivial

theorem firstRecv_looks (timeoutMs n : Nat) (h : d.Untaken) :
    Safe DstRing.Processes LooksInside (fun _ _ => True) (fun _ _ => True)
      (DstRing.firstRecv timeoutMs n) d := by
  induction n generalizing d with
  | zero => exact recvPoll_looks _ h
  | succ n ih =>
    apply Safe.op untaken_assertion h (fun _ _ => trivial)
    intro e he
    refine .op untaken_assertion he (fun _ _ => trivial) fun e he => ?_
    refine .op untaken_assertion he (fun _ _ => trivial) fun e he => ?_
    refine ih fun hnone => ?_
    obtain ⟨hsw, hdrri, hle⟩ := he hnone
    exact ⟨hsw, hdrri, hle.trans (Nat.le_succ _)⟩

theorem DstRing.Untaken.looksAtPosted (h : d.Untaken) : LooksAtPosted d :=
  fun timeoutMs n => firstRecv_looks timeoutMs n h

end Dst

section Init

theorem allocRegion_indices (size : Nat) (a : RegionAnswers) (s : Alloc) :
    (Alloc.allocRegion size a s).2.object.fSrcWrite = s.object.fSrcWrite ∧
      (Alloc.allocRegion size a s).2.object.fDstSw = s.object.fDstSw := by
  unfold Alloc.allocRegion
  dsimp only
  split_ifs
  · exact ⟨rfl, rfl⟩
  · exact ⟨rfl, rfl⟩
  · exact ⟨rfl, rfl⟩
  · exact ⟨rfl, rfl⟩
  · exact ⟨rfl, rfl⟩
  · split
    · exact ⟨rfl, rfl⟩
    · split
      · exact ⟨rfl, rfl⟩
      · exact ⟨rfl, rfl⟩

theorem pairInit_indices (h : CECopyPair.init fBar0 a s₀ = (true, s)) :
    s.object.fSrcWrite = 0 ∧ s.object.fDstSw = 0 := by
  unfold CECopyPair.init at h
  split at h
  · cases h
  split at h
  · cases h
  split at h
  · cases h
  cases h
  exact ⟨rfl, rfl⟩

theorem diagInit_indices (h : CEDiag.init fBar0 a s₀ = (true, s)) :
    s.object.fSrcWrite = s₀.object.fSrcWrite ∧ s.object.fDstSw = s₀.object.fDstSw := by
  unfold CEDiag.init at h
  split at h
  · cases h
  have hkept := allocRegion_indices CEDiag.regionSize a.region s₀
  rw [CEDiag.allocRegion] at h
  generalize Alloc.allocRegion CEDiag.regionSize a.region s₀ = r at h hkept
  obtain ⟨ok, t⟩ := r
  cases ok with
  | false => cases h
  | true =>
    dsimp only at h
    split at h
    · cases h
    · cases h
      exact hkept

theorem inStep_zero (hsrc : o.fSrcWrite = 0) (hdst : o.fDstSw = 0) :
    InStep a o ↔ kRingN ∣ a.srri.toNat ∧ kRingN ∣ a.drri.toNat := by
  rw [Nat.dvd_iff_mod_eq_zero, Nat.dvd_iff_mod_eq_zero]
  constructor
  · intro h
    exact ⟨h.src.trans hsrc, h.dst.trans hdst⟩
  · rintro ⟨hs, hd⟩
    exact ⟨hs.trans hsrc.symm, hd.trans hdst.symm⟩

theorem InStep.unused (h : InStep a o) (srWrIndex dstWrIndex : Nat) :
    (o.pair a srWrIndex dstWrIndex).src.Unused := ⟨rfl, rfl, rfl, h.src⟩

theorem InStep.untaken (h : InStep a o) (hdst : o.fDstSw = 0) (srWrIndex dstWrIndex : Nat) :
    (o.pair a srWrIndex dstWrIndex).dst.Untaken :=
  fun _ => ⟨hdst, h.dst.trans hdst, Nat.le_refl 0⟩

/-- Whatever ran on the engine before, an initialisation that succeeds starts from index 0: it is in
step with an engine whose indices are multiples of the ring size, and then a pair's first send
passes its pre-wait and its first receive looks at posted entries only. -/
theorem init_inStep_iff (fBar0 : Bool) (a : InitAnswers) (k : Kernel) :
    (∀ s₀ s, CECopyPair.init fBar0 a s₀ = (true, s) →
      (InStep a s.object ↔ kRingN ∣ a.srri.toNat ∧ kRingN ∣ a.drri.toNat) ∧
        (InStep a s.object → ∀ srWrIndex dstWrIndex,
          PreWaitPasses (s.object.pair a srWrIndex dstWrIndex).src ∧
            LooksAtPosted (s.object.pair a srWrIndex dstWrIndex).dst)) ∧
      ∀ s, CEDiag.init fBar0 a ⟨.new, k⟩ = (true, s) →
        (InStep a s.object ↔ kRingN ∣ a.srri.toNat ∧ kRingN ∣ a.drri.toNat) := by
  constructor
  · intro s₀ s h
    obtain ⟨hsrc, hdst⟩ := pairInit_indices h
    refine ⟨inStep_zero hsrc hdst, fun hstep srWrIndex dstWrIndex => ⟨?_, ?_⟩⟩
    · exact (hstep.unused srWrIndex dstWrIndex).passes
    · exact (hstep.untaken hdst srWrIndex dstWrIndex).looksAtPosted
  · intro s h
    obtain ⟨hsrc, hdst⟩ := diagInit_indices h
    exact inStep_zero hsrc hdst

/-- Every allocation succeeds, and the engine shows a given SRRI and DRRI 0. -/
def shownSRRI (srri : UInt32) : InitAnswers :=
  ⟨true, ⟨true, true, true, true, true, some (1, CECopyPair.regionSize, 0x10000)⟩, srri, 0⟩

theorem init_inStep_sixteen : ∃ s,
    CECopyPair.init true (shownSRRI 16) ⟨.new, ⟨∅, ∅, ∅, ∅⟩⟩ = (true, s) ∧
      InStep (shownSRRI 16) s.object := by
  have hinit : CECopyPair.init true (shownSRRI 16) ⟨.new, ⟨∅, ∅, ∅, ∅⟩⟩ =
      (true, (CECopyPair.init true (shownSRRI 16) ⟨.new, ⟨∅, ∅, ∅, ∅⟩⟩).2) := by decide
  have hiff := ((init_inStep_iff true (shownSRRI 16) ⟨∅, ∅, ∅, ∅⟩).1 _ _ hinit).1
  exact ⟨_, hinit, hiff.2 (by decide)⟩

/-- With SRRI elsewhere than at the write index, and an engine that has nothing to process, a send
fails in its pre-wait. -/
theorem exec_send_preWait (hlen : ¬ BadLen buf.length) (hq : s.srri ≠ s.fSrcWrite) :
    exec id (SrcRing.send buf) s = (false, s.log (.sendPreWaitTimeout s.srri s.fSrcWrite)) := by
  have hbad : ¬ (buf.length = 0 ∨ kTxBufSz < buf.length ∨ 0xFFFF < buf.length) := hlen
  unfold SrcRing.send
  simp only [bind_eq_bind, modify_bind, pure_eq_ret, if_neg hbad, exec_bind, exec_pollSRRI]
  rw [if_pos hq]
  rfl

/-- SRRI shows 1 when a pair is set up: `init` succeeds with index 0, and the first send times out
in front of its doorbell. -/
theorem init_out_of_step : ∃ s,
    CECopyPair.init true (shownSRRI 1) ⟨.new, ⟨∅, ∅, ∅, ∅⟩⟩ = (true, s) ∧ ¬ (shownSRRI 1).Dead ∧
      ¬ InStep (shownSRRI 1) s.object ∧
      exec id (SrcRing.send [0]) (s.object.pair (shownSRRI 1) 0 0).src =
        (false, (s.object.pair (shownSRRI 1) 0 0).src.log (.sendPreWaitTimeout 1 0)) := by
  have hinit : CECopyPair.init true (shownSRRI 1) ⟨.new, ⟨∅, ∅, ∅, ∅⟩⟩ =
      (true, (CECopyPair.init true (shownSRRI 1) ⟨.new, ⟨∅, ∅, ∅, ∅⟩⟩).2) := by decide
  have hsrc := (pairInit_indices hinit).1
  refine ⟨_, hinit, by decide, fun hstep => ?_, ?_⟩
  · have hone := hstep.src
    rw [hsrc] at hone
    revert hone
    decide
  · generalize (CECopyPair.init true (shownSRRI 1) ⟨.new, ⟨∅, ∅, ∅, ∅⟩⟩).2 = s at hsrc
    have hw : (s.object.pair (shownSRRI 1) 0 0).src.fSrcWrite = 0 := hsrc
    have hsrri : (s.object.pair (shownSRRI 1) 0 0).src.srri = 1 := rfl
    rw [exec_send_preWait (by decide) (by rw [hw, hsrri]; decide), hw, hsrri]

end Init

end Qca9377
