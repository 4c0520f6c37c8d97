import Qca9377.Transmit

namespace Qca9377
open Bytes Interleaving
set_option autoImplicit true

variable {d e d₀ : DstRing} {D : DstRing → List UInt8 → Prop}

/-- A length left in the slot of the `j`-th entry from here is cleared by a post before that entry
is reached, or `c` posts earlier. -/
def DstRing.Stale (d : DstRing) (c : Nat) : Prop :=
  ∀ j, 0 < j → j < kRingN → (d.fDstDesc ((d.received.length + j) % kRingN)).nbytes ≠ 0 →
    ∃ i, i + c ≤ j ∧ (d.posts + i) % kRingN = (d.received.length + j) % kRingN

/-- How far the engine is with the one frame that the host may not have taken yet. -/
inductive RxProgress (d : DstRing) : Prop where
  | empty (hf : d.filled = d.received) (hu : d.unlanded = [])
      (hn : (d.fDstDesc d.fDstSw).nbytes ≠ 0 → d.posts % kRingN = d.received.length % kRingN)
      (hs : d.Stale 0)
  | filled (f : List UInt8) (hp : d.received.length < d.posts) (hf : d.filled = d.received ++ [f])
      (hu : d.unlanded = [f.length]) (hn : (d.fDstDesc d.fDstSw).nbytes = 0) (hs : d.Stale 1)
      (hb : d.rxBuf.take f.length = f)
  | landed (f : List UInt8) (hp : d.received.length < d.posts) (hf : d.filled = d.received ++ [f])
      (hu : d.unlanded = []) (hn : (d.fDstDesc d.fDstSw).nbytes = f.length) (hs : d.Stale 1)
      (hb : d.rxBuf.take f.length = f)

/-- The receive half as long as the target is at most one frame ahead of the host. -/
structure RxInv (d : DstRing) : Prop where
  alive : d.gone = false
  sw : d.fDstSw = d.received.length % kRingN
  doorbell : d.dstWrIndex = d.posts % kRingN
  drri : d.currentDRRI = d.advanced % kRingN
  fillIdx : d.fillIdx = d.filled.length % kRingN
  landIdx : d.landIdx = (d.filled.length - d.unlanded.length) % kRingN
  posts : d.received.length ≤ d.posts
  taken : d.received.length ≤ d.advanced
  advanced : d.advanced ≤ d.posts
  addr : ∀ i, i < d.posts → (d.fDstDesc (i % kRingN)).addr = d.fRxPhys % 2 ^ 32
  progress : RxProgress d

theorem RxInv.received_filled (h : RxInv d) : d.received <+: d.filled := by
  cases h.progress with
  | empty hf => rw [hf]
  | filled f _ hf => exact hf ▸ List.prefix_append _ _
  | landed f _ hf => exact hf ▸ List.prefix_append _ _

theorem RxInv.filled_posts (h : RxInv d) : d.filled.length ≤ d.posts := by
  cases h.progress with
  | empty hf => exact hf ▸ h.posts
  | filled f hp hf => rw [hf, List.length_append, List.length_singleton]; exact hp
  | landed f hp hf => rw [hf, List.length_append, List.length_singleton]; exact hp

theorem RxInv.filled_eq (h : RxInv d) (hlen : d.filled.length ≤ d.received.length) :
    d.filled = d.received :=
  (h.received_filled.eq_of_length (h.received_filled.length_le.antisymm hlen)).symm

theorem ne_append_singleton (l : List α) (a : α) : l ≠ l ++ [a] := fun h =>
  absurd (congrArg List.length h) (by rw [List.length_append, List.length_singleton]; omega)

structure DstRing.Empty (d : DstRing) : Prop where
  unlanded : d.unlanded = []
  head : (d.fDstDesc d.fDstSw).nbytes ≠ 0 → d.posts % kRingN = d.received.length % kRingN
  stale : d.Stale 0

theorem RxInv.empty (h : RxInv d) (hf : d.filled = d.received) : d.Empty := by
  cases h.progress with
  | empty _ hu hn hs => exact ⟨hu, hn, hs⟩
  | filled f _ hf' => exact absurd (hf.symm.trans hf') (ne_append_singleton _ f)
  | landed f _ hf' => exact absurd (hf.symm.trans hf') (ne_append_singleton _ f)

/-- While the ring does not look empty, the next post clears nothing that is waited for. -/
theorem DstRing.Stale.of_ne (h : d.Stale 0)
    (hne : d.posts % kRingN ≠ d.received.length % kRingN) : d.Stale 1 := by
  intro j h0 hj hn
  obtain ⟨i, hi, he⟩ := h j h0 hj hn
  refine ⟨i, ?_, he⟩
  rcases Nat.lt_or_ge i j with hlt | hge
  · exact hlt
  · obtain rfl : i = j := by omega
    simp only [kRingN] at hne he
    omega

theorem RxInv.fill (h : RxInv d) (hroom : d.filled = d.received) (hw : d.fillIdx ≠ d.dstWrIndex)
    (f : List UInt8) : RxInv (d.fill f) := by
  have hp : d.received.length < d.posts := by
    apply h.posts.lt_of_ne
    intro he
    exact hw (by rw [h.fillIdx, h.doorbell, hroom, he])
  have hpos : d.fillIdx = d.fDstSw := by rw [h.fillIdx, h.sw, hroom]
  have haddr : (d.fDstDesc d.fillIdx).addr = d.fRxPhys % 2 ^ 32 := by
    rw [hpos, h.sw]
    exact h.addr _ hp
  have hbuf : (d.fill f).rxBuf = poke d.rxBuf 0 f := by rw [DstRing.fill, if_pos haddr]
  have hempty := h.empty hroom
  have hu := hempty.unlanded
  have hne : d.posts % kRingN ≠ d.received.length % kRingN := by
    intro he
    exact hw (by rw [h.fillIdx, h.doorbell, hroom, he])
  refine ⟨h.alive, h.sw, h.doorbell, h.drri, ?_, ?_, h.posts, h.taken, h.advanced, h.addr, ?_⟩
  · simp only [DstRing.fill, h.fillIdx, List.length_append, List.length_singleton, succ_mod_ring]
  · simp only [DstRing.fill, h.landIdx, hu, List.length_append, List.length_singleton,
      List.length_nil, List.nil_append, Nat.sub_zero, Nat.add_sub_cancel]
  · apply RxProgress.filled f
    · exact hp
    · simp only [DstRing.fill, hroom]
    · simp only [DstRing.fill, hu, List.nil_append]
    · by_contra hn
      exact hne (hempty.head hn)
    · exact hempty.stale.of_ne hne
    · simp only [hbuf, poke, List.take_zero, List.nil_append, List.take_left]

theorem RxInv.land (h : RxInv d) (hu : d.unlanded = n :: rest) : RxInv (d.land n rest) := by
  cases h.progress with
  | empty _ hu' =>
    rw [hu'] at hu
    cases hu
  | landed _ _ _ hu' =>
    rw [hu'] at hu
    cases hu
  | filled f hp hf hu' hn hs hb =>
    rw [hu'] at hu
    obtain ⟨rfl, rfl⟩ := List.cons.inj hu
    have hpos : d.landIdx = d.fDstSw := by
      rw [h.landIdx, h.sw, hf, hu', List.length_append, List.length_singleton,
        List.length_singleton, Nat.add_sub_cancel]
    refine ⟨h.alive, h.sw, h.doorbell, h.drri, h.fillIdx, ?_, h.posts, h.taken, h.advanced, ?_, ?_⟩
    · simp only [DstRing.land, hpos, h.sw, hf, List.length_append, List.length_singleton,
        List.length_nil, Nat.sub_zero, succ_mod_ring]
    · intro i hi
      by_cases hs : i % kRingN = d.landIdx
      · simp only [DstRing.land, hs, Function.update_self]
        rw [← hs]
        exact h.addr i hi
      · simp only [DstRing.land, Function.update_of_ne hs]
        exact h.addr i hi
    · apply RxProgress.landed f
      · exact hp
      · exact hf
      · rfl
      · simp only [DstRing.land, hpos, Function.update_self]
      · intro j h0 hj hn
        have hslot : (d.received.length + j) % kRingN ≠ d.landIdx := by
          rw [hpos, h.sw]
          simp only [kRingN] at hj ⊢
          omega
        simp only [DstRing.land, Function.update_of_ne hslot] at hn
        exact hs j h0 hj hn
      · exact hb

theorem RxInv.advance (h : RxInv d) (hw : d.currentDRRI ≠ d.dstWrIndex) : RxInv d.advance := by
  have hlt : d.advanced < d.posts := by
    apply h.advanced.lt_of_ne
    intro he
    exact hw (by rw [h.drri, h.doorbell, he])
  refine ⟨h.alive, h.sw, h.doorbell, ?_, h.fillIdx, h.landIdx, h.posts,
    h.taken.trans (Nat.le_succ _), hlt, h.addr, ?_⟩
  · simp only [DstRing.advance, h.drri, succ_mod_ring]
  · cases h.progress with
    | empty hf hu hn hs => exact .empty hf hu hn hs
    | filled f hp hf hu hn hs hb => exact .filled f hp hf hu hn hs hb
    | landed f hp hf hu hn hs hb => exact .landed f hp hf hu hn hs hb

theorem RxInv.engine (h : RxInv d)
    (hroom : ∀ f, D d f → d.fillIdx ≠ d.dstWrIndex → d.filled = d.received)
    (hs : DstRing.Engine D d e) : RxInv e := by
  cases hs with
  | fill hd hw => exact h.fill (hroom _ hd hw) hw _
  | land hu => exact h.land hu
  | advance hw => exact h.advance hw

/-- The fields that only the host writes. -/
structure DstRing.Same (d e : DstRing) : Prop where
  rxPhys : e.fRxPhys = d.fRxPhys
  dstWrite : e.fDstWrite = d.fDstWrite
  dstSw : e.fDstSw = d.fDstSw
  rxNbytes : e.fRxNbytes = d.fRxNbytes
  doorbell : e.dstWrIndex = d.dstWrIndex
  posts : e.posts = d.posts
  received : e.received = d.received
  iolog : e.iolog = d.iolog

theorem DstRing.Same.refl (d : DstRing) : d.Same d := ⟨rfl, rfl, rfl, rfl, rfl, rfl, rfl, rfl⟩

theorem DstRing.Engine.same (hs : DstRing.Engine D d e) : d.Same e := by
  cases hs with
  | fill => exact ⟨rfl, rfl, rfl, rfl, rfl, rfl, rfl, rfl⟩
  | land => exact ⟨rfl, rfl, rfl, rfl, rfl, rfl, rfl, rfl⟩
  | advance => exact ⟨rfl, rfl, rfl, rfl, rfl, rfl, rfl, rfl⟩

/-- With `R` received and `k` entries posted, the target has a frame to deliver only while it is
not ahead of the host. -/
def Paced (D : DstRing → List UInt8 → Prop) (R : List (List UInt8)) (k : Nat) : Prop :=
  ∀ d f, RxInv d → d.received = R → d.posts = k → D d f → d.fillIdx ≠ d.dstWrIndex →
    d.filled = R

/-- With `R` received and `k` entries posted, the target has nothing to deliver. -/
def Settled (D : DstRing → List UInt8 → Prop) (R : List (List UInt8)) (k : Nat) : Prop :=
  ∀ d f, RxInv d → d.received = R → d.filled = R → d.posts = k → D d f →
    d.fillIdx = d.dstWrIndex

/-- Between calls the doorbell shows the write index. -/
def RxIdle (d : DstRing) : Prop := RxInv d ∧ d.fDstWrite = d.dstWrIndex

/-- A frame has been taken since `R` was received, and lies in the rx buffer. -/
structure Taken (R : List (List UInt8)) (f : List UInt8) (d : DstRing) : Prop where
  received : d.received = R ++ [f]
  filled : d.filled = R ++ [f]
  bytes : d.rxBuf.take f.length = f

/-- The invariant while a call is in progress that started with `R` received and posts at most up
to the `m`-th entry. -/
structure RxDuring (R : List (List UInt8)) (m : Nat) (d : DstRing) : Prop where
  inv : RxInv d
  posts : d.posts ≤ m
  write : ∃ n, d.fDstWrite = n % kRingN ∧ d.received.length ≤ n ∧ n ≤ m
  received : d.received = R ∨ ∃ f, Taken R f d

/-- The posted entry is complete: data, length and DRRI. -/
structure DstRing.Complete (d : DstRing) (f : List UInt8) : Prop where
  posts : d.received.length < d.posts
  advanced : d.received.length < d.advanced
  filled : d.filled = d.received ++ [f]
  unlanded : d.unlanded = []
  nbytes : (d.fDstDesc d.fDstSw).nbytes = f.length
  stale : d.Stale 1
  bytes : d.rxBuf.take f.length = f

/-- What one access of the host may do to the receive half. -/
structure RxStep (d e : DstRing) : Prop where
  rxBuf : e.rxBuf = d.rxBuf
  filled : e.filled = d.filled
  received : e.received = d.received ∨ ∃ f, d.Complete f ∧ e.received = d.received ++ [f]

theorem RxStep.refl (d : DstRing) : RxStep d d := ⟨rfl, rfl, .inl rfl⟩

/-- Nothing to take and nothing under way, before or between the accesses of a post; `written`
tells whether the next entry has been written. -/
structure RxClear (R : List (List UInt8)) (k w : Nat) (written : Prop) (d : DstRing) : Prop where
  inv : RxInv d
  received : d.received = R
  filled : d.filled = R
  posts : d.posts = k
  write : d.fDstWrite = w % kRingN
  desc : written → d.fDstDesc (k % kRingN) = ⟨d.fRxPhys % 2 ^ 32, 0, 0⟩

theorem rxClear_assertion (hq : Settled D R k) (hm : w ≤ m) (hk : k ≤ m) (hw : R.length ≤ w) :
    Assertion (DstRing.Engine D) (RxDuring R m) (RxClear R k w written) where
  step := fun d e h hs => by
    have hsame := hs.same
    have hinv := h.inv.engine (fun _ _ _ => h.filled.trans h.received.symm) hs
    cases hs with
    | fill hd hne => exact absurd (hq d _ h.inv h.received h.filled h.posts hd) hne
    | land hu =>
      rw [(h.inv.empty (h.filled.trans h.received.symm)).unlanded] at hu
      cases hu
    | advance => exact ⟨hinv, h.received, h.filled, h.posts, h.write, h.desc⟩
  inv := fun d h => ⟨h.inv, h.posts.trans_le hk, ⟨w, h.write, h.received ▸ hw, hm⟩, .inl h.received⟩

/-- Between the accesses of a wait. -/
structure RxAt (R : List (List UInt8)) (k : Nat) (d : DstRing) : Prop where
  idle : RxIdle d
  received : d.received = R
  posts : d.posts = k
  fresh : R.length < k → d.filled = R → (d.fDstDesc d.fDstSw).nbytes = 0

theorem rxAt_assertion (hp : Paced D R k) (hk : k ≤ m) :
    Assertion (DstRing.Engine D) (RxDuring R m) (RxAt R k) where
  step := fun d e h hs => by
    have hsame := hs.same
    have hinv := h.idle.1.engine
      (fun f hd hw => (hp d f h.idle.1 h.received h.posts hd hw).trans h.received.symm) hs
    refine ⟨⟨hinv, by rw [hsame.dstWrite, hsame.doorbell, h.idle.2]⟩,
      hsame.received.trans h.received, hsame.posts.trans h.posts, fun hlt hf => ?_⟩
    cases hs with
    | fill hd hw =>
      have hR := hp d _ h.idle.1 h.received h.posts hd hw
      exact absurd (hR ▸ hf.symm) (ne_append_singleton _ _)
    | land hu =>
      rw [(h.idle.1.empty (hf.trans h.received.symm)).unlanded] at hu
      cases hu
    | advance => exact h.fresh hlt hf
  inv := fun d h => by
    refine ⟨h.idle.1, h.posts.trans_le hk, ⟨k, ?_, ?_, hk⟩, .inl h.received⟩
    · rw [h.idle.2, h.idle.1.doorbell, h.posts]
    · rw [← h.posts]
      exact h.idle.1.posts

theorem RxClear.empty (h : RxClear R k w written d) : d.Empty :=
  h.inv.empty (h.filled.trans h.received.symm)

theorem RxClear.writeDesc (h : RxClear R k k written d) : RxClear R k k True d.writeDesc := by
  have hi := h.inv
  have hempty := h.empty
  have hother (i : Nat) (hs : i ≠ d.fDstWrite) : d.writeDesc.fDstDesc i = d.fDstDesc i := by
    simp only [DstRing.writeDesc, Function.update_of_ne hs]
  have hself : d.writeDesc.fDstDesc d.fDstWrite = ⟨d.fRxPhys % 2 ^ 32, 0, 0⟩ := by
    simp only [DstRing.writeDesc, Function.update_self]
  have haddr (i : Nat) (hlt : i < d.posts) :
      (d.writeDesc.fDstDesc (i % kRingN)).addr = d.fRxPhys % 2 ^ 32 := by
    by_cases hs : i % kRingN = d.fDstWrite
    · rw [hs, hself]
    · rw [hother _ hs]
      exact hi.addr i hlt
  have hzero (i : Nat) (hn : (d.writeDesc.fDstDesc i).nbytes ≠ 0) :
      (d.fDstDesc i).nbytes ≠ 0 := by
    by_cases hs : i = d.fDstWrite
    · rw [hs, hself] at hn
      exact absurd rfl hn
    · rwa [hother _ hs] at hn
  have hprog : RxProgress d.writeDesc := by
    apply RxProgress.empty
    · exact h.filled.trans h.received.symm
    · exact hempty.unlanded
    · exact fun hn => hempty.head (hzero _ hn)
    · exact fun j h0 hj hn => hempty.stale j h0 hj (hzero _ hn)
  refine ⟨⟨hi.alive, hi.sw, hi.doorbell, hi.drri, hi.fillIdx, hi.landIdx, hi.posts, hi.taken,
    hi.advanced, haddr, hprog⟩, h.received, h.filled, h.posts, h.write, fun _ => ?_⟩
  rw [← h.write]
  exact hself

theorem RxClear.stepWrite (h : RxClear R k w written d) :
    RxClear R k (w + 1) written d.stepWrite := by
  have hi := h.inv
  have hempty := h.empty
  have hprog : RxProgress d.stepWrite :=
    .empty (h.filled.trans h.received.symm) hempty.unlanded hempty.head hempty.stale
  refine ⟨⟨hi.alive, hi.sw, hi.doorbell, hi.drri, hi.fillIdx, hi.landIdx, hi.posts, hi.taken,
    hi.advanced, hi.addr, hprog⟩, h.received, h.filled, h.posts, ?_, h.desc⟩
  rw [← succ_mod_ring, ← h.write]
  rfl

theorem RxClear.ring (h : RxClear R k (k + 1) True d) : RxAt R (k + 1) d.ring := by
  have hi := h.inv
  have hempty := h.empty
  have hdesc := h.desc trivial
  have haddr (i : Nat) (hlt : i < d.posts + 1) :
      (d.fDstDesc (i % kRingN)).addr = d.fRxPhys % 2 ^ 32 := by
    by_cases hs : i < d.posts
    · exact hi.addr i hs
    · obtain rfl : i = k := by
        rw [← h.posts]
        omega
      rw [hdesc]
  have hhead : (d.fDstDesc d.fDstSw).nbytes = 0 := by
    by_contra hn
    have hslot := hempty.head hn
    rw [hi.sw, ← hslot, h.posts, hdesc] at hn
    exact hn rfl
  have hstale : d.ring.Stale 0 := by
    intro j h0 hj hn
    obtain ⟨i, hle, he⟩ := hempty.stale j h0 hj hn
    cases i with
    | zero =>
      rw [Nat.add_zero, h.posts] at he
      have hn' : (d.fDstDesc ((d.received.length + j) % kRingN)).nbytes ≠ 0 := hn
      rw [← he, hdesc] at hn'
      exact absurd rfl hn'
    | succ i =>
      refine ⟨i, by omega, ?_⟩
      rw [← Nat.add_assoc, Nat.add_right_comm] at he
      exact he
  have hdb : d.fDstWrite = (d.posts + 1) % kRingN := by rw [h.write, h.posts]
  have hprog : RxProgress d.ring :=
    .empty (h.filled.trans h.received.symm) hempty.unlanded (fun hn => absurd hhead hn) hstale
  exact ⟨⟨⟨hi.alive, hi.sw, hdb, hi.drri, hi.fillIdx, hi.landIdx, hi.posts.trans (Nat.le_succ _),
    hi.taken, hi.advanced.trans (Nat.le_succ _), haddr, hprog⟩, rfl⟩, h.received,
    congrArg (· + 1) h.posts, fun _ _ => hhead⟩

theorem DstRing.postRecv_safe (h : RxIdle d) (hr : d.received = R) (hf : d.filled = R)
    (hk : d.posts = k) (hq : Settled D R k) (hp : Paced D R (k + 1)) :
    Safe (DstRing.Engine D) (RxDuring R (k + 1)) RxStep (fun r e => r = true ∧ RxAt R (k + 1) e)
      DstRing.postRecv d := by
  have hR : R.length ≤ k := hr ▸ hk ▸ h.1.posts
  have hclear : RxClear R k k False d :=
    ⟨h.1, hr, hf, hk, by rw [h.2, h.1.doorbell, hk], False.elim⟩
  have hstep {d e : DstRing} (hb : e.rxBuf = d.rxBuf) (hf : e.filled = d.filled)
      (hr : e.received = d.received) : RxStep d e := ⟨hb, hf, .inl hr⟩
  apply Safe.op (rxClear_assertion hq (Nat.le_succ k) (Nat.le_succ k) hR) hclear
  · exact fun _ _ => hstep rfl rfl rfl
  intro d₁ h₁
  apply Safe.op (rxClear_assertion hq (Nat.le_succ k) (Nat.le_succ k) hR) h₁.writeDesc
  · exact fun _ _ => hstep rfl rfl rfl
  intro d₂ h₂
  apply Safe.op (rxClear_assertion hq (Nat.le_refl _) (Nat.le_succ k) (hR.trans (Nat.le_succ k)))
    h₂.stepWrite
  · exact fun _ _ => hstep rfl rfl rfl
  intro d₃ h₃
  exact .ret (rxAt_assertion hp (Nat.le_refl _)) h₃.ring fun e he => ⟨rfl, he⟩

/-- A taken frame, with the rx buffer it lies in. -/
structure RxTaken (R : List (List UInt8)) (f : List UInt8) (k : Nat) (raw : List UInt8)
    (d : DstRing) : Prop where
  idle : RxIdle d
  posts : d.posts = k
  taken : Taken R f d
  nbytes : d.fRxNbytes = f.length
  rxBuf : d.rxBuf = raw

theorem rxTaken_assertion (hq : Settled D (R ++ [f]) k) (hk : k ≤ m) :
    Assertion (DstRing.Engine D) (RxDuring R m) (RxTaken R f k raw) where
  step := fun d e h hs => by
    have hsame := hs.same
    have hf : d.filled = d.received := h.taken.filled.trans h.taken.received.symm
    have hinv := h.idle.1.engine (fun _ _ _ => hf) hs
    have hidle : RxIdle e := ⟨hinv, by rw [hsame.dstWrite, hsame.doorbell, h.idle.2]⟩
    cases hs with
    | fill hd hne =>
      exact absurd (hq d _ h.idle.1 h.taken.received h.taken.filled h.posts hd) hne
    | land hu =>
      rw [(h.idle.1.empty hf).unlanded] at hu
      cases hu
    | advance => exact ⟨hidle, h.posts, ⟨h.taken.1, h.taken.2, h.taken.3⟩, h.nbytes, h.rxBuf⟩
  inv := fun d h => by
    refine ⟨h.idle.1, h.posts.trans_le hk, ⟨k, ?_, ?_, hk⟩, .inr ⟨f, h.taken⟩⟩
    · rw [h.idle.2, h.idle.1.doorbell, h.posts]
    · rw [← h.posts]
      exact h.idle.1.posts

/-- The host only looks at an entry that DRRI has passed. -/
theorem RxInv.taken_lt (h : RxInv d) (hne : d.drri ≠ d.fDstSw) :
    d.received.length < d.advanced := by
  apply h.taken.lt_of_ne
  intro he
  apply hne
  rw [DstRing.drri, h.alive, h.drri, h.sw, he]
  exact Nat.mod_mod _ _

theorem RxAt.complete (h : RxAt R k d) (hadv : d.received.length < d.advanced)
    (hn : (d.fDstDesc d.fDstSw).nbytes ≠ 0) : ∃ f, d.Complete f := by
  have hi := h.idle.1
  cases hi.progress with
  | empty hf =>
    have hlt : R.length < k := by
      rw [← h.received, ← h.posts]
      exact hadv.trans_le hi.advanced
    exact absurd (h.fresh hlt (hf.trans h.received)) hn
  | filled _ _ _ _ h0 => exact absurd h0 hn
  | landed f hp hf hu hn hs hb => exact ⟨f, hp, hadv, hf, hu, hn, hs, hb⟩

theorem DstRing.Complete.consume (h : RxAt R k d) (hc : d.Complete f) :
    RxTaken R f k d.rxBuf (d.consume f.length) := by
  have hi := h.idle.1
  have hrec : (d.consume f.length).received = d.received ++ [f] := by
    simp only [DstRing.consume, hc.bytes]
  have hlen : (d.consume f.length).received.length = d.received.length + 1 := by
    rw [hrec, List.length_append, List.length_singleton]
  have hsw : (d.consume f.length).fDstSw = (d.received.length + 1) % kRingN := by
    rw [← succ_mod_ring, ← hi.sw]
    rfl
  have hhead (hn : (d.fDstDesc (d.consume f.length).fDstSw).nbytes ≠ 0) :
      d.posts % kRingN = (d.consume f.length).received.length % kRingN := by
    rw [hsw] at hn
    obtain ⟨i, hi, he⟩ := hc.stale 1 Nat.one_pos (by decide) hn
    obtain rfl : i = 0 := by omega
    rw [hlen]
    exact he
  have hstale : (d.consume f.length).Stale 0 := by
    intro j h0 hj hn
    rw [hlen, Nat.add_assoc, Nat.add_comm 1] at hn ⊢
    by_cases hlast : j + 1 < kRingN
    · obtain ⟨i, hi, he⟩ := hc.stale (j + 1) (Nat.succ_pos j) hlast hn
      exact ⟨i, by omega, he⟩
    · refine ⟨(d.received.length + (j + 1) + 16 * d.posts - d.posts) % 16, ?_, ?_⟩
      · simp only [kRingN] at hj hlast
        omega
      · simp only [DstRing.consume, kRingN]
        omega
  have hprog : RxProgress (d.consume f.length) :=
    .empty (hc.filled.trans hrec.symm) hc.unlanded hhead hstale
  refine ⟨⟨⟨hi.alive, ?_, hi.doorbell, hi.drri, hi.fillIdx, hi.landIdx, ?_, ?_, hi.advanced,
    hi.addr, hprog⟩, h.idle.2⟩, h.posts, ⟨?_, ?_, hc.bytes⟩, rfl, rfl⟩
  · rw [hlen]
    exact hsw
  · rw [hlen]
    exact hc.posts
  · rw [hlen]
    exact hc.advanced
  · rw [hrec, h.received]
  · rw [← h.received]
    exact hc.filled

inductive RecvPost (R : List (List UInt8)) (k : Nat) : Bool → DstRing → Prop
  | timeout {e : DstRing} (h : RxAt R k e) : RecvPost R k false e
  | frame {e : DstRing} (h : RxTaken R f k e.rxBuf e) : RecvPost R k true e

theorem RxAt.log (h : RxAt R k d) (m : CELog) : RxAt R k (d.log m) := by
  have hi := h.idle.1
  have hprog : RxProgress (d.log m) := by
    cases hi.progress with
    | empty hf hu hn hs => exact .empty hf hu hn hs
    | filled f hp hf hu hn hs hb => exact .filled f hp hf hu hn hs hb
    | landed f hp hf hu hn hs hb => exact .landed f hp hf hu hn hs hb
  exact ⟨⟨⟨hi.alive, hi.sw, hi.doorbell, hi.drri, hi.fillIdx, hi.landIdx, hi.posts, hi.taken,
    hi.advanced, hi.addr, hprog⟩, h.idle.2⟩, h.received, h.posts, h.fresh⟩

/-- What DRRI has passed stays passed. -/
theorem rxAdvanced_assertion (hp : Paced D R k) :
    Assertion (DstRing.Engine D) (RxDuring R k)
      (fun d => RxAt R k d ∧ d.received.length < d.advanced) where
  step := by
    intro a b hab hs
    refine ⟨(rxAt_assertion hp (Nat.le_refl k)).step hab.1 hs, ?_⟩
    cases hs with
    | fill => exact hab.2
    | land => exact hab.2
    | advance => exact hab.2.trans (Nat.lt_succ_self _)
  inv := fun _ ha => (rxAt_assertion hp (Nat.le_refl k)).inv ha.1

/-- A length that has landed stays. -/
theorem rxLanded_assertion (hp : Paced D R k) (hn : n ≠ 0) :
    Assertion (DstRing.Engine D) (RxDuring R k)
      (fun d => RxAt R k d ∧ d.received.length < d.advanced ∧
        (d.fDstDesc d.fDstSw).nbytes = n) where
  step := by
    rintro a b ⟨hat, hadv, hnb⟩ hs
    obtain ⟨hat', hadv'⟩ := (rxAdvanced_assertion hp).step ⟨hat, hadv⟩ hs
    refine ⟨hat', hadv', ?_⟩
    obtain ⟨f, hf⟩ := hat.complete hadv (hnb ▸ hn)
    cases hs with
    | fill => exact hnb
    | land hu =>
      rw [hf.unlanded] at hu
      cases hu
    | advance => exact hnb
  inv := fun _ ha => (rxAt_assertion hp (Nat.le_refl k)).inv ha.1

theorem recvPoll_safe (n : Nat) (h : RxAt R k d) (hp : Paced D R k)
    (hq : ∀ f, Settled D (R ++ [f]) k) :
    Safe (DstRing.Engine D) (RxDuring R k) RxStep (RecvPost R k) (recvPoll n) d := by
  have hP := rxAt_assertion hp (Nat.le_refl k)
  induction n generalizing d with
  | zero =>
    apply Safe.op hP h (fun e _ => .refl e)
    intro e he
    apply Safe.op hP he (fun _ _ => ⟨rfl, rfl, .inl rfl⟩)
    intro c hc
    exact .ret hP (hc.log _) fun b hb => .timeout hb
  | succ n ih =>
    apply Safe.op hP h (fun e _ => .refl e)
    intro e he
    dsimp only [Prog.ret_bind, bind_eq_bind, id_eq]
    split
    · exact ih he
    · next hne =>
      have hadv := he.idle.1.taken_lt hne
      apply Safe.op (rxAdvanced_assertion hp) ⟨he, hadv⟩ (fun e _ => .refl e)
      intro c hc
      dsimp only [Prog.ret_bind, bind_eq_bind, id_eq]
      split
      · exact ih hc.1
      · next hn =>
        apply Safe.op (rxLanded_assertion hp hn) ⟨hc.1, hc.2, rfl⟩
        · rintro a ⟨hat, hadv, hnb⟩
          obtain ⟨f, hf⟩ := hat.complete hadv (hnb ▸ hn)
          refine ⟨rfl, rfl, .inr ⟨f, hf, ?_⟩⟩
          rw [← hnb, hf.nbytes]
          simp only [DstRing.consume, hf.bytes]
        · rintro a ⟨hat, hadv, hnb⟩
          obtain ⟨f, hf⟩ := hat.complete hadv (hnb ▸ hn)
          have ht := hf.consume hat
          rw [← hnb, hf.nbytes]
          exact .ret (rxTaken_assertion (hq f) (Nat.le_refl k)) ht fun b hb =>
            .frame (hb.rxBuf.symm ▸ hb)

theorem RxDuring.mono (h : RxDuring R m d) (hm : m ≤ m') : RxDuring R m' d := by
  obtain ⟨n, hn, hr, hle⟩ := h.write
  exact ⟨h.inv, h.posts.trans hm, ⟨n, hn, hr, hle.trans hm⟩, h.received⟩

theorem rxArmed_eq (hs : d.fDstSw = n % kRingN) (hw : d.fDstWrite = (n + i) % kRingN)
    (hi : i < kRingN) : d.rxArmed = i := by
  simp only [DstRing.rxArmed, hs, hw, kRingN] at *
  omega

/-- One entry at most is posted and not taken. -/
structure RxSingle (d : DstRing) : Prop where
  idle : RxIdle d
  posts : d.posts ≤ d.received.length + 1

/-- A ring that holds one entry at most keeps any target in step. -/
theorem paced_single (hk : k ≤ R.length + 1) : Paced D R k := by
  intro d f hi hr hposts _ hw
  rw [← hr]
  apply hi.filled_eq
  have hne : d.filled.length ≠ d.posts := fun he => hw (by rw [hi.fillIdx, hi.doorbell, he])
  have hlt := hi.filled_posts.lt_of_ne hne
  rw [hr]
  omega

theorem settled_single (hk : k ≤ R.length) : Settled D R k := by
  intro d f hi hr hf hposts _
  have hle := hi.posts
  have he : R.length = d.posts := by
    rw [hr] at hle
    omega
  rw [hi.fillIdx, hi.doorbell, hf, he]

theorem RxSingle.at (h : RxSingle d) : RxAt d.received d.posts d := by
  refine ⟨h.idle, rfl, rfl, fun hlt hf => ?_⟩
  by_contra hn
  have hslot := (h.idle.1.empty hf).head hn
  have he : d.posts = d.received.length + 1 := by
    have hle := h.posts
    omega
  rw [he] at hslot
  simp only [kRingN] at hslot
  omega

theorem RxSingle.engine (h : RxSingle d) (hs : DstRing.Engine D d e) : RxSingle e := by
  have hat := (rxAt_assertion (paced_single h.posts) (Nat.le_refl _)).step h.at hs
  refine ⟨hat.idle, ?_⟩
  rw [hat.posts, hat.received]
  exact h.posts

theorem RxSingle.armed (h : RxSingle d) : d.rxArmed = d.posts - d.received.length := by
  have hle := h.idle.1.posts
  apply rxArmed_eq h.idle.1.sw
  · rw [h.idle.2, h.idle.1.doorbell, Nat.add_sub_cancel' hle]
  · have hp := h.posts
    simp only [kRingN]
    omega

theorem RxDuring.rxArmed_le (h : RxDuring R (R.length + 1) d) : d.rxArmed ≤ 1 := by
  obtain ⟨n, hw, hr, hn⟩ := h.write
  have hR : R.length ≤ d.received.length := by
    rcases h.received with he | ⟨f, ht⟩
    · rw [he]
    · rw [ht.received, List.length_append]
      exact Nat.le_add_right _ _
  have harmed : d.rxArmed = n - d.received.length := by
    apply rxArmed_eq h.inv.sw
    · rw [hw, Nat.add_sub_cancel' hr]
    · simp only [kRingN]
      omega
  omega

theorem RxDuring.rxBuf_engine (h : RxDuring R (R.length + 1) d) (ht : Taken R f d)
    (hs : DstRing.Engine D d e) : e.rxBuf = d.rxBuf := by
  cases hs with
  | fill hd hw =>
    have hk : d.posts ≤ (R ++ [f]).length := by
      rw [List.length_append, List.length_singleton]
      exact h.posts
    exact absurd (settled_single hk d _ h.inv ht.received ht.filled rfl hd) hw
  | land => rfl
  | advance => rfl

/-- The receive half right after `init`, with both registers at zero. -/
structure RxFresh (d : DstRing) : Prop where
  dstWrite : d.fDstWrite = 0
  dstSw : d.fDstSw = 0
  doorbell : d.dstWrIndex = 0
  drri : d.currentDRRI = 0
  alive : d.gone = false
  fillIdx : d.fillIdx = 0
  landIdx : d.landIdx = 0
  unlanded : d.unlanded = []
  posts : d.posts = 0
  advanced : d.advanced = 0
  filled : d.filled = []
  received : d.received = []

theorem RxFresh.single {d : DstRing} (h : RxFresh d) : RxSingle d := by
  have hlen : d.received.length = 0 := by rw [h.received, List.length_nil]
  have hprog : RxProgress d := by
    apply RxProgress.empty
    · rw [h.filled, h.received]
    · exact h.unlanded
    · exact fun _ => by rw [h.posts, hlen]
    · exact fun j _ _ _ => ⟨j, Nat.le_refl _, by rw [h.posts, hlen]⟩
  refine ⟨⟨⟨h.alive, ?_, ?_, ?_, ?_, ?_, ?_, ?_, ?_, ?_, hprog⟩, ?_⟩, ?_⟩
  · rw [h.dstSw, hlen, Nat.zero_mod]
  · rw [h.doorbell, h.posts, Nat.zero_mod]
  · rw [h.drri, h.advanced, Nat.zero_mod]
  · rw [h.fillIdx, h.filled, List.length_nil, Nat.zero_mod]
  · rw [h.landIdx, h.filled, List.length_nil, Nat.zero_sub, Nat.zero_mod]
  · rw [hlen]
    exact Nat.zero_le _
  · rw [hlen]
    exact Nat.zero_le _
  · rw [h.advanced]
    exact Nat.zero_le _
  · intro i hi
    rw [h.posts] at hi
    exact absurd hi (Nat.not_lt_zero i)
  · rw [h.dstWrite, h.doorbell]
  · rw [h.posts]
    exact Nat.zero_le _

end Qca9377
