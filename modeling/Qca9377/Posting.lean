import Qca9377.Bmi
import Qca9377.Stretches

namespace Qca9377
open Bytes Interleaving
set_option autoImplicit true

/-- The frames handed to CE0 so far. -/
def Host.posted (h : Host) : List (List UInt8) := h.fCtrl.src.posted

/-- An environment that rings no doorbell of CE0; it may move everything else as it likes. -/
def KeepsPosted (R : Host → Host → Prop) : Prop := ∀ s t, R s t → t.posted = s.posted

/-- At every point of its runs a program has posted only such frames. -/
def PostsOnly (R : Host → Host → Prop) (A : List UInt8 → Prop) (p : Prog Host α) : Prop :=
  ∀ s L q t, Stretch R p s L q t → ∃ l, t.posted = s.posted ++ l ∧ ∀ f ∈ l, A f

/-- States visited on the way from `s` to `t`, none of which has more posted. -/
structure Silent (s : Host) (L : List Host) (t : Host) : Prop where
  same : ∀ x ∈ L, x.posted = s.posted
  last : L.getLastD s = t

/-- Along these states the frames are handed to `send` in this order, each call returns true, and
nothing else is posted in between. -/
inductive SentInOrder (R : Host → Host → Prop) :
    Host → List Host → List (List UInt8) → Host → Prop
  | nil (h : Silent s L t) : SentInOrder R s L [] t
  | cons (h : Silent s L₀ s') (hsend : Stretch R (CEManager.send f) s' L₁ (.ret true) t)
      (hrest : SentInOrder R t L₂ fs u) : SentInOrder R s (L₀ ++ (L₁ ++ L₂)) (f :: fs) u

/-- What `send` does to the posted frames next to an engine that leaves them alone. -/
theorem SrcRing.send_posted (f : List UInt8) (s : SrcRing) :
    Safe (fun s t : SrcRing => t.posted = s.posted)
      (fun t => t.posted = s.posted ∨ t.posted = s.posted ++ [f]) (fun _ _ => True)
      (fun r t => r = true → t.posted = s.posted ++ [f]) (SrcRing.send f) s := by
  have hkeep (P : List (List UInt8)) (hP : P = s.posted ∨ P = s.posted ++ [f]) :
      Assertion (fun s t : SrcRing => t.posted = s.posted)
        (fun t => t.posted = s.posted ∨ t.posted = s.posted ++ [f]) (fun t => t.posted = P) :=
    ⟨fun t u ht hu => hu.trans ht, fun t ht => by rwa [ht]⟩
  have hbefore := hkeep s.posted (.inl rfl)
  have hafter := hkeep (s.posted ++ [f]) (.inr rfl)
  have hpoll (n : Nat) (P : List (List UInt8)) (hP : P = s.posted ∨ P = s.posted ++ [f])
      (t : SrcRing) (ht : t.posted = P) :
      Safe (fun s t : SrcRing => t.posted = s.posted)
        (fun t => t.posted = s.posted ∨ t.posted = s.posted ++ [f]) (fun _ _ => True)
        (fun _ t => t.posted = P) (pollSRRI n) t := by
    induction n generalizing t with
    | zero =>
      apply Safe.op (hkeep P hP) ht (fun _ _ => trivial)
      exact fun u hu => .ret (hkeep P hP) hu fun _ => id
    | succ n ih =>
      apply Safe.op (hkeep P hP) ht (fun _ _ => trivial)
      intro u hu
      dsimp only [Prog.ret_bind, bind_eq_bind, id_eq]
      split
      · exact .ret (hkeep P hP) hu fun _ => id
      · exact ih u hu
  have hfail (m : CELog) (P : List (List UInt8)) (hP : P = s.posted ∨ P = s.posted ++ [f])
      (t : SrcRing) (ht : t.posted = P) :
      Safe (fun s t : SrcRing => t.posted = s.posted)
        (fun t => t.posted = s.posted ∨ t.posted = s.posted ++ [f]) (fun _ _ => True)
        (fun r t => r = true → t.posted = s.posted ++ [f])
        (.op (SrcRing.log m) fun _ => .ret false) t := by
    apply Safe.op (hkeep P hP) ht (fun _ _ => trivial)
    exact fun u hu => .ret (hkeep P hP) hu fun _ _ => nofun
  unfold SrcRing.send
  simp only [bind_eq_bind, pure_eq_ret, modify_bind]
  split
  · exact hfail _ _ (.inl rfl) s rfl
  apply Safe.bind
  apply (hpoll _ _ (.inl rfl) s rfl).mono (fun _ => id) (fun _ _ => id)
  intro r t ht
  split
  · exact hfail _ _ (.inl rfl) t ht
  refine .op hbefore ht (fun _ _ => trivial) fun t ht => ?_
  refine .op hbefore ht (fun _ _ => trivial) fun t ht => ?_
  refine .op hbefore ht (fun _ _ => trivial) fun t ht => ?_
  refine .op hbefore ht (fun _ _ => trivial) fun t ht => ?_
  apply Safe.bind
  have hring : (t.ring f).posted = s.posted ++ [f] := congrArg (· ++ [f]) ht
  apply (hpoll _ _ (.inr rfl) _ hring).mono (fun _ => id) (fun _ _ => id)
  intro r u hu
  split
  · exact hfail _ _ (.inr rfl) u hu
  · exact .ret hafter hu fun v hv _ => hv

section Posting

variable {R : Host → Host → Prop} {A : List UInt8 → Prop}

theorem KeepsPosted.moves (hR : KeepsPosted R) (h : Moves R s L t) :
    t.posted = s.posted ∧ Silent s L t := by
  induction h with
  | refl => exact ⟨rfl, fun _ hx => absurd hx List.not_mem_nil, rfl⟩
  | tail _ hs ih =>
    have hp := (hR _ _ hs).trans ih.1
    refine ⟨hp, ?_, List.getLastD_concat⟩
    intro x hx
    rcases List.mem_append.1 hx with hx | hx
    · exact ih.2.same x hx
    · rw [List.mem_singleton.1 hx, hp]

theorem Silent.posted (h : Silent s L t) : t.posted = s.posted := by
  rw [← h.last]
  rcases List.mem_cons.1 (List.getLastD_mem_cons (l := L) (a := s)) with he | hm
  · rw [he]
  · exact h.same _ hm

theorem silent_nil (s : Host) : Silent s [] s := ⟨fun _ hx => absurd hx List.not_mem_nil, rfl⟩

theorem silent_single (h : t.posted = s.posted) : Silent s [t] t := by
  refine ⟨?_, rfl⟩
  intro x hx
  rw [List.mem_singleton.1 hx, h]

theorem getLastD_append (L M : List α) (a : α) :
    (L ++ M).getLastD a = M.getLastD (L.getLastD a) := by
  induction L generalizing a with
  | nil => rfl
  | cons b L ih => rw [List.cons_append, List.getLastD_cons, List.getLastD_cons, ih]

theorem Silent.append (h : Silent s L t) (h' : Silent t M u) : Silent s (L ++ M) u := by
  constructor
  · intro x hx
    rcases List.mem_append.1 hx with hx | hx
    · exact h.same x hx
    · rw [h'.same x hx, h.posted]
  · rw [getLastD_append, h.last, h'.last]

/-- A `send` posts its frame or nothing, and it has posted it when it returns true. -/
theorem KeepsPosted.send_posted (hR : KeepsPosted R)
    (h : Stretch R (CEManager.send f) s L q t) :
    (t.posted = s.posted ∨ t.posted = s.posted ++ [f]) ∧
      (q = .ret true → t.posted = s.posted ++ [f]) := by
  rw [CEManager.send, CECopyPair.send, Prog.zoom_zoom] at h
  have hz := Safe.zoom (fun t : Host => t.fCtrl.src) (fun t s => t.setCtrl (t.fCtrl.setSrc s)) R
    (fun _ => True) (fun _ _ => rfl) (fun t t' _ hs => ⟨trivial, .single (hR t t' hs)⟩)
    (fun _ _ _ => trivial) trivial (SrcRing.send_posted f s.fCtrl.src)
  refine ⟨(hz.stretch h).inv.1, ?_⟩
  intro hq
  subst hq
  exact (hz.returned h).1 rfl

theorem PostsOnly.send (hR : KeepsPosted R) (hA : A f) : PostsOnly R A (CEManager.send f) := by
  intro s L q t h
  rcases (hR.send_posted h).1 with hp | hp
  · exact ⟨[], by rw [hp, List.append_nil], fun g hg => absurd hg List.not_mem_nil⟩
  · refine ⟨[f], hp, ?_⟩
    intro g hg
    obtain rfl := List.mem_singleton.1 hg
    exact hA

theorem PostsOnly.ret (hR : KeepsPosted R) (a : α) : PostsOnly R A (.ret a) := by
  intro s L q t h
  refine ⟨[], ?_, fun g hg => absurd hg List.not_mem_nil⟩
  rw [(hR.moves h.of_ret.2).1, List.append_nil]

theorem PostsOnly.op {n : Host → Prog Host α} (hR : KeepsPosted R)
    (hu : ∀ h : Host, (u h).posted = h.posted) (hn : ∀ h, PostsOnly R A (n h)) :
    PostsOnly R A (.op u n) := by
  intro s L q t h
  rcases h.of_op with ⟨-, hst⟩ | ⟨s', L₁, L₂, -, hst, hrest⟩
  · refine ⟨[], ?_, fun g hg => absurd hg List.not_mem_nil⟩
    rw [(hR.moves hst).1, List.append_nil]
  · obtain ⟨l, hl, hA⟩ := hn s' _ _ _ _ hrest
    exact ⟨l, by rw [hl, hu, (hR.moves hst).1], hA⟩

theorem PostsOnly.bind {p : Prog Host α} {k : α → Prog Host β} (hp : PostsOnly R A p)
    (hk : ∀ a, PostsOnly R A (k a)) : PostsOnly R A (p.bind k) := by
  intro s L q t h
  rcases h.bind with ⟨u, n, -, hfirst⟩ | ⟨a, u, L₁, L₂, -, hfirst, hrest⟩
  · exact hp _ _ _ _ hfirst
  · obtain ⟨l, hl, hA⟩ := hp _ _ _ _ hfirst
    obtain ⟨l', hl', hA'⟩ := hk a _ _ _ _ hrest
    refine ⟨l ++ l', by rw [hl', hl, List.append_assoc], ?_⟩
    intro f hf
    exact (List.mem_append.1 hf).elim (hA f) (hA' f)

theorem PostsOnly.orFail {p : Prog Host Bool} {k : Prog Host α} (hR : KeepsPosted R)
    (hp : PostsOnly R A p) (hk : PostsOnly R A k) :
    PostsOnly R A (p.bind fun ok => if (!ok) = true then .ret fail else k) := by
  apply hp.bind
  intro ok
  cases ok with
  | false => exact .ret hR _
  | true => exact hk

theorem PostsOnly.receive (hR : KeepsPosted R) (p : Prog DstRing α) :
    PostsOnly R A ((p.zoom CECopyPair.dst CECopyPair.setDst).zoom Host.fCtrl Host.setCtrl) := by
  rw [Prog.zoom_zoom]
  induction p with
  | ret a => exact .ret hR a
  | op u n ih => exact .op hR (fun _ => rfl) fun h => ih _

theorem PostsOnly.silent {p : Prog Host α} (hp : PostsOnly R (fun _ => False) p)
    (h : Stretch R p s L q t) : Silent s L t := by
  refine ⟨?_, h.last⟩
  intro x hx
  obtain ⟨L', q', hx⟩ := h.visited hx
  obtain ⟨l, hl, hA⟩ := hp _ _ _ _ hx
  obtain rfl := List.eq_nil_iff_forall_not_mem.2 hA
  rw [hl, List.append_nil]

theorem KeepsPosted.silent_op {n : Host → Prog Host α} (hR : KeepsPosted R)
    (hu : ∀ h : Host, (u h).posted = h.posted) (h : Stretch R (.op u n) s L (.ret a) t) :
    ∃ s' L₁ L₂, L = L₁ ++ L₂ ∧ Silent s L₁ (u s') ∧ Stretch R (n s') (u s') L₂ (.ret a) t := by
  obtain ⟨s', L₁, L₂, rfl, hst, hrest⟩ := h.after_op
  refine ⟨s', L₁ ++ [u s'], L₂, ?_, (hR.moves hst).2.append (silent_single (hu s')), hrest⟩
  rw [List.append_assoc, List.singleton_append]

theorem SentInOrder.left (h : Silent s L s') (h' : SentInOrder R s' M fs t) :
    SentInOrder R s (L ++ M) fs t := by
  cases h' with
  | nil hs => exact .nil (h.append hs)
  | cons hs hsend hrest =>
    rw [← List.append_assoc]
    exact .cons (h.append hs) hsend hrest

theorem SentInOrder.append (h : SentInOrder R s L fs t) (h' : SentInOrder R t M gs u) :
    SentInOrder R s (L ++ M) (fs ++ gs) u := by
  induction h with
  | nil hs => exact .left hs h'
  | cons hs hsend _ ih =>
    rw [List.append_assoc, List.append_assoc]
    exact .cons hs hsend (ih h')

theorem SentInOrder.right (h : SentInOrder R s L fs t) (h' : Silent t M u) :
    SentInOrder R s (L ++ M) fs u := by
  have hboth := h.append (.nil h')
  rw [List.append_nil] at hboth
  exact hboth

theorem SentInOrder.single (h : Stretch R (CEManager.send f) s L (.ret true) t) :
    SentInOrder R s L [f] t := by
  have hsent := SentInOrder.cons (silent_nil s) h (.nil (silent_nil t))
  rw [List.nil_append, List.append_nil] at hsent
  exact hsent

theorem SentInOrder.first (h : Stretch R (CEManager.send f) s L (.ret true) t)
    (h' : SentInOrder R t M fs u) : SentInOrder R s (L ++ M) (f :: fs) u :=
  (SentInOrder.single h).append h'

end Posting

def cmdId (f : List UInt8) : Nat := decodeLE (f.take 4)

theorem cmdId_bmiCmd (id : Nat) (args : List Nat) (rest : List UInt8) :
    cmdId (bmiCmd id args ++ rest) = id % 256 ^ 4 := by
  have hid : (bmiCmd id args ++ rest).take 4 = encodeLE 4 id := by
    rw [bmiCmd, encodeWords, List.flatMap_cons, List.append_assoc]
    exact List.take_left' (encodeLE_length 4 id)
  rw [cmdId, hid, decodeLE_encodeLE]

/-- A command other than BMI_DONE. -/
def NotDone (f : List UInt8) : Prop := cmdId f ≠ kBmiDone

theorem notDone_bmiCmd {id : Nat} (rest : List UInt8) (h : id % 256 ^ 4 ≠ kBmiDone) :
    NotDone (bmiCmd id args ++ rest) := by
  rw [NotDone, cmdId_bmiCmd]
  exact h

theorem notDone_bare {id : Nat} (h : id % 256 ^ 4 ≠ kBmiDone) : NotDone (bmiCmd id args) := by
  rw [← List.append_nil (bmiCmd id args)]
  exact notDone_bmiCmd [] h

theorem BmiQuery.notDone (q : BmiQuery) : NotDone q.cmd := by
  cases q with
  | getTargetInfo => exact notDone_bare (by decide)
  | readMemory addr len => exact notDone_bare (by decide)
  | execute addr param => exact notDone_bare (by decide)

/-- Write commands that carry the bytes to consecutive addresses, each a whole number of words. -/
inductive CarriesWrite : Nat → List UInt8 → List (List UInt8) → Prop
  | nil : CarriesWrite addr [] []
  | cons (x pad : List UInt8) (hx : x ≠ []) (hcap : x.length ≤ kBmiMaxDataSize - 12)
      (hpad : pad.length < 4) (hword : 4 ∣ x.length + pad.length)
      (hrest : CarriesWrite (addr + x.length) rest fs) :
      CarriesWrite addr (x ++ rest)
        ((bmiCmd kBmiWriteMemory [addr, x.length + pad.length] ++ (x ++ pad)) :: fs)

/-- Data commands that carry the bytes, a last broken word filled up with zeros. -/
inductive CarriesLz : List UInt8 → List (List UInt8) → Prop
  | nil : CarriesLz [] []
  | tail (x : List UInt8) (hx : x ≠ []) (hlen : x.length < 4) :
      CarriesLz x [bmiCmd kBmiLzData [4] ++ (x ++ List.replicate (4 - x.length) 0)]
  | cons (x : List UInt8) (hx : x ≠ []) (hcap : x.length ≤ kBmiMaxDataSize - 8)
      (hword : 4 ∣ x.length) (hrest : CarriesLz rest fs) :
      CarriesLz (x ++ rest) ((bmiCmd kBmiLzData [x.length] ++ x) :: fs)

/-- A complete stream: its start, all of the data, the flush. -/
def LzStream (addr : Nat) (buf : List UInt8) (fs : List (List UInt8)) : Prop :=
  buf ≠ [] ∧ ∃ data, CarriesLz buf data ∧
    fs = bmiCmd kBmiLzStreamStart [addr] :: data ++ [bmiCmd kBmiLzStreamStart [0]]

section Calls

variable {R : Host → Host → Prop}

theorem posts_writeChunks (hR : KeepsPosted R) (payload : List UInt8) (addr : Nat)
    (buf : List UInt8) : PostsOnly R NotDone (Bmi.writeChunks payload addr buf) := by
  induction payload, addr, buf using Bmi.writeChunks.induct with
  | case1 payload addr =>
    rw [Bmi.writeChunks]
    exact .ret hR _
  | case2 payload addr buf hbuf tx filled =>
    rename_i ih
    rw [Bmi.writeChunks, dif_neg hbuf]
    exact .orFail hR (.send hR (notDone_bmiCmd _ (by decide))) ih

theorem posts_writeMemory (hR : KeepsPosted R) (stack : List UInt8) (addr : Nat)
    (buf : List UInt8) : PostsOnly R NotDone (Bmi.writeMemory stack addr buf) := by
  rw [Bmi.writeMemory]
  split
  · exact .ret hR _
  · exact posts_writeChunks hR stack addr buf

theorem posts_lzChunks (hR : KeepsPosted R) (buf : List UInt8) :
    PostsOnly R NotDone (Bmi.lzChunks buf) := by
  induction buf using Bmi.lzChunks.induct with
  | case1 =>
    rw [Bmi.lzChunks]
    exact .ret hR _
  | case2 buf hbuf tx =>
    rename_i ih
    rw [Bmi.lzChunks, dif_neg hbuf]
    exact .orFail hR (.send hR (notDone_bmiCmd _ (by decide))) ih

theorem posts_fastDownload (hR : KeepsPosted R) (addr : Nat) (buf : List UInt8) :
    PostsOnly R NotDone (Bmi.fastDownload addr buf) := by
  have hsend (args : List Nat) :
      PostsOnly R NotDone (CEManager.send (bmiCmd kBmiLzStreamStart args)) :=
    .send hR (notDone_bare (by decide))
  have hflush : PostsOnly R NotDone ((CEManager.send (bmiCmd kBmiLzStreamStart [0])).bind fun ok =>
      if (!ok) = true then .ret false else .ret true) := .orFail hR (hsend [0]) (.ret hR _)
  unfold Bmi.fastDownload
  simp only [bind_eq_bind, pure_eq_ret]
  split
  · exact .ret hR _
  apply PostsOnly.orFail hR (hsend [addr])
  apply PostsOnly.orFail hR (posts_lzChunks hR _)
  split
  · exact .orFail hR (.send hR (notDone_bmiCmd _ (by decide))) hflush
  · exact hflush

theorem posts_exchangeWait (hR : KeepsPosted R) (q : BmiQuery) (respLen : Nat) :
    PostsOnly R NotDone (Bmi.exchangeWait q.cmd respLen) := by
  have hstage (stage : BmiStage) (h : Host) : (h.stage stage).posted = h.posted := rfl
  unfold Bmi.exchangeWait Bmi.setStage
  simp only [bind_eq_bind, pure_eq_ret, read_bind, modify_bind]
  apply PostsOnly.op hR (fun _ => rfl)
  intro h
  split
  · exact .op hR (hstage _) fun _ => .ret hR _
  apply PostsOnly.op hR (hstage _)
  intro _
  apply PostsOnly.orFail hR (.receive hR _)
  apply PostsOnly.op hR (hstage _)
  intro _
  apply PostsOnly.orFail hR (.send hR q.notDone)
  apply PostsOnly.op hR (hstage _)
  intro _
  apply PostsOnly.orFail hR (.receive hR _)
  apply PostsOnly.op hR (hstage _)
  intro _
  apply PostsOnly.op hR (fun _ => rfl)
  intro h
  split
  · exact .ret hR _
  apply PostsOnly.op hR (fun _ => rfl)
  intro _
  exact .op hR (hstage _) fun _ => .ret hR _

/-- A write that returns true has been sent completely. -/
theorem sent_writeChunks (hR : KeepsPosted R) (payload : List UInt8) (addr : Nat)
    (buf : List UInt8) (hpay : payload.length = kBmiMaxDataSize)
    (h : Stretch R (Bmi.writeChunks payload addr buf) s L (.ret true) t) :
    ∃ fs, CarriesWrite addr buf fs ∧ SentInOrder R s L fs t := by
  induction payload, addr, buf using Bmi.writeChunks.induct generalizing s L with
  | case1 payload addr =>
    rw [Bmi.writeChunks] at h
    exact ⟨[], .nil, .nil (hR.moves h.of_ret.2).2⟩
  | case2 payload addr buf hbuf tx =>
    rename_i filled ih
    rw [Bmi.writeChunks, dif_neg hbuf] at h
    obtain ⟨u, L₁, L₂, rfl, hsend, hrest⟩ := h.passed nofun
    have hlen : (buf.take tx).length = tx := by
      rw [List.length_take]
      exact min_eq_left (min_le_left _ _)
    have hcap : tx ≤ kBmiMaxDataSize - 12 := min_le_right _ _
    have hfill : filled = buf.take tx ++ payload.drop tx := by
      simp only [filled, poke, List.take_zero, List.nil_append, Nat.zero_add, hlen]
    have hfilled : filled.length = kBmiMaxDataSize := by
      rw [hfill, List.length_append, List.length_drop, hlen, hpay]
      simp only [kBmiMaxDataSize] at hcap ⊢
      omega
    obtain ⟨fs, hfs, hsent⟩ := ih hfilled hrest
    have hpos : 0 < tx := lt_min (List.length_pos_iff.2 hbuf) (by decide)
    generalize hpad : (payload.drop tx).take ((tx + 3) / 4 * 4 - tx) = pad
    have hpadlen : pad.length = (tx + 3) / 4 * 4 - tx := by
      rw [← hpad, List.length_take, List.length_drop, hpay]
      simp only [kBmiMaxDataSize] at hcap ⊢
      omega
    have htake : filled.take ((tx + 3) / 4 * 4) = buf.take tx ++ pad := by
      rw [hfill, List.take_append, hlen, hpad, List.take_of_length_le]
      omega
    have hpadded : (tx + 3) / 4 * 4 = tx + pad.length := by omega
    have hne : buf.take tx ≠ [] := List.ne_nil_of_length_pos (hlen.symm ▸ hpos)
    have hword : 4 ∣ (buf.take tx).length + pad.length := by
      rw [hlen, ← hpadded]
      exact Nat.dvd_mul_left _ _
    rw [← hlen] at hfs hcap
    have hcarry := CarriesWrite.cons (buf.take tx) pad hne hcap (by omega) hword hfs
    rw [hlen, List.take_append_drop, ← htake, ← hpadded] at hcarry
    exact ⟨_, hcarry, .first hsend hsent⟩

theorem sent_writeMemory (hR : KeepsPosted R) (hpay : stack.length = kBmiMaxDataSize)
    (h : Stretch R (Bmi.writeMemory stack addr buf) s L (.ret true) t) :
    buf ≠ [] ∧ ∃ fs, CarriesWrite addr buf fs ∧ SentInOrder R s L fs t := by
  rw [Bmi.writeMemory] at h
  split at h
  · cases h.of_ret.1
  · next hbuf => exact ⟨hbuf, sent_writeChunks hR stack addr buf hpay h⟩

def writeWord (itemOffset val : Nat) : List UInt8 :=
  bmiCmd kBmiWriteMemory [kHostInterestAddress + itemOffset, 4] ++ encodeLE 4 val

/-- A word fills its frame, so what the payload field held does not matter. -/
theorem sent_write32 (hR : KeepsPosted R)
    (h : Stretch R (Bmi.write32 stack itemOffset val) s L (.ret true) t) :
    SentInOrder R s L [writeWord itemOffset val] t := by
  have hlen := encodeLE_length 4 val
  have hne : encodeLE 4 val ≠ [] := List.ne_nil_of_length_eq_add_one hlen
  have hframe : (poke stack 0 (encodeLE 4 val)).take 4 = encodeLE 4 val := by
    rw [poke, List.take_zero, List.nil_append]
    exact List.take_left' hlen
  have hmin : min (encodeLE 4 val).length (kBmiMaxDataSize - 12) = 4 := by
    rw [hlen]
    decide
  rw [Bmi.write32, Bmi.writeMemory, if_neg hne, Bmi.writeChunks, dif_neg hne] at h
  obtain ⟨u, L₁, L₂, rfl, hsend, hrest⟩ := h.passed nofun
  rw [hmin, List.take_of_length_le hlen.le] at hsend
  rw [hmin, List.drop_of_length_le hlen.le, Bmi.writeChunks] at hrest
  have hsent : Stretch R (CEManager.send (writeWord itemOffset val)) s L₁ (.ret true) u := by
    rw [writeWord, ← hframe]
    exact hsend
  exact .first hsent (.nil (hR.moves hrest.of_ret.2).2)

/-- Whole words that have been sent, with any continuation of the stream. -/
theorem sent_lzChunks (hR : KeepsPosted R) (buf : List UInt8) (hword : 4 ∣ buf.length)
    (h : Stretch R (Bmi.lzChunks buf) s L (.ret true) t) :
    ∃ fs, SentInOrder R s L fs t ∧
      ∀ rest gs, CarriesLz rest gs → CarriesLz (buf ++ rest) (fs ++ gs) := by
  induction buf using Bmi.lzChunks.induct generalizing s L with
  | case1 =>
    rw [Bmi.lzChunks] at h
    exact ⟨[], .nil (hR.moves h.of_ret.2).2, fun _ _ hc => hc⟩
  | case2 buf hbuf tx =>
    rename_i ih
    rw [Bmi.lzChunks, dif_neg hbuf] at h
    obtain ⟨u, L₁, L₂, rfl, hsend, hrest⟩ := h.passed nofun
    have htx : tx = min buf.length (kBmiMaxDataSize - 8) := rfl
    have hlen : (buf.take tx).length = tx := by
      rw [List.length_take]
      exact min_eq_left (min_le_left _ _)
    have htxword : 4 ∣ tx := by
      rw [htx, kBmiMaxDataSize]
      omega
    have hdrop : 4 ∣ (buf.drop tx).length := by
      rw [List.length_drop]
      exact Nat.dvd_sub hword htxword
    have hpos : 0 < tx := lt_min (List.length_pos_iff.2 hbuf) (by decide)
    have hne : buf.take tx ≠ [] := List.ne_nil_of_length_pos (hlen.symm ▸ hpos)
    have hcap : (buf.take tx).length ≤ kBmiMaxDataSize - 8 := hlen.symm ▸ min_le_right _ _
    obtain ⟨fs, hsent, hcarry⟩ := ih hdrop hrest
    refine ⟨_, .first hsend hsent, ?_⟩
    intro rest gs hc
    have hchunk := CarriesLz.cons (buf.take tx) hne hcap (hlen.symm ▸ htxword) (hcarry rest gs hc)
    rw [← List.append_assoc, List.take_append_drop, hlen] at hchunk
    exact hchunk

/-- A download that returns true has been sent completely, from its start to the flush. -/
theorem sent_fastDownload (hR : KeepsPosted R)
    (h : Stretch R (Bmi.fastDownload addr buf) s L (.ret true) t) :
    ∃ fs, LzStream addr buf fs ∧ SentInOrder R s L fs t := by
  unfold Bmi.fastDownload at h
  simp only [bind_eq_bind, pure_eq_ret] at h
  split at h
  · cases h.of_ret.1
  · next hbuf =>
    obtain ⟨u, L₁, L₂, rfl, hstart, h⟩ := h.passed nofun
    obtain ⟨v, L₂, L₃, rfl, hchunks, h⟩ := h.passed nofun
    generalize hwhole : buf.take (buf.length - buf.length % 4) = whole at hchunks
    have hword : 4 ∣ whole.length := by
      rw [← hwhole, List.length_take]
      omega
    obtain ⟨fs, hsent, hcarry⟩ := sent_lzChunks hR whole hword hchunks
    generalize htail : buf.drop (buf.length - buf.length % 4) = tail at h
    have hbufeq : buf = whole ++ tail := by rw [← hwhole, ← htail, List.take_append_drop]
    have htaillen : tail.length = buf.length % 4 := by
      rw [← htail, List.length_drop]
      omega
    have hdone (gs : List (List UInt8)) (w : Host) (M N : List Host) (hgs : CarriesLz tail gs)
        (hw : SentInOrder R v M gs w)
        (h : Stretch R ((CEManager.send (bmiCmd kBmiLzStreamStart [0])).bind fun ok =>
          if (!ok) = true then .ret false else .ret true) w N (.ret true) t) :
        ∃ fs, LzStream addr buf fs ∧ SentInOrder R s (L₁ ++ (L₂ ++ (M ++ N))) fs t := by
      obtain ⟨x, N₁, N₂, rfl, hflush, h⟩ := h.passed nofun
      have hend : SentInOrder R w (N₁ ++ N₂) [bmiCmd kBmiLzStreamStart [0]] t :=
        .first hflush (.nil (hR.moves h.of_ret.2).2)
      have hdata := hsent.append (hw.append hend)
      rw [← List.append_assoc fs] at hdata
      exact ⟨_, ⟨hbuf, fs ++ gs, hbufeq ▸ hcarry tail gs hgs, rfl⟩, .first hstart hdata⟩
    split at h
    · next hne =>
      obtain ⟨w, L₃, L₄, rfl, htrailer, h⟩ := h.passed nofun
      have hbytes : poke (List.replicate 4 0) 0 tail =
          tail ++ List.replicate (4 - tail.length) 0 := poke_zeros [] tail 4 rfl
      rw [hbytes] at htrailer
      have htailne : tail ≠ [] := List.ne_nil_of_length_pos (by omega)
      exact hdone _ w L₃ L₄ (.tail tail htailne (by omega)) (.single htrailer) h
    · next hzero =>
      obtain rfl : tail = [] := List.eq_nil_of_length_eq_zero (by omega)
      exact hdone [] v [] L₃ .nil (.nil (silent_nil v)) h

theorem sent_exchangeWait (hR : KeepsPosted R)
    (h : Stretch R (Bmi.exchangeWait cmd respLen) s L (.ret (some r)) t) :
    SentInOrder R s L [cmd] t := by
  have hstage (stage : BmiStage) (h : Host) : (h.stage stage).posted = h.posted := rfl
  unfold Bmi.exchangeWait Bmi.setStage at h
  simp only [bind_eq_bind, pure_eq_ret, read_bind, modify_bind] at h
  obtain ⟨s₁, L₁, M, rfl, h₁, h⟩ := hR.silent_op (fun _ => rfl) h
  split at h
  · obtain ⟨s₂, L₂, M, rfl, -, h⟩ := hR.silent_op (hstage _) h
    cases h.of_ret.1
  obtain ⟨s₂, L₂, M, rfl, h₂, h⟩ := hR.silent_op (hstage _) h
  obtain ⟨s₃, L₃, M, rfl, hpost, h⟩ := h.passed nofun
  have h₃ := (PostsOnly.receive hR DstRing.postRecv).silent hpost
  obtain ⟨s₄, L₄, M, rfl, h₄, h⟩ := hR.silent_op (hstage _) h
  obtain ⟨s₅, L₅, M, rfl, hsend, h⟩ := h.passed nofun
  -- behind the send, the exchange only receives
  have hafter : Silent s₅ M t := by
    refine PostsOnly.silent ?_ h
    apply PostsOnly.op hR (hstage _)
    intro _
    apply PostsOnly.orFail hR (.receive hR _)
    apply PostsOnly.op hR (hstage _)
    intro _
    apply PostsOnly.op hR (fun _ => rfl)
    intro h
    split
    · exact .ret hR _
    apply PostsOnly.op hR (fun _ => rfl)
    intro _
    exact .op hR (hstage _) fun _ => .ret hR _
  exact .left h₁ (.left h₂ (.left h₃ (.left h₄ (.first hsend (.nil hafter)))))

end Calls

end Qca9377
