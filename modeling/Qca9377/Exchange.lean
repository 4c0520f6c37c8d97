import Qca9377.ControlPath

namespace Qca9377
open Bytes Interleaving
set_option autoImplicit true

variable {answer : List (List UInt8) → List UInt8}

/-- The commands among `frames` that the target answers. -/
def queries (frames : List (List UInt8)) : List (List UInt8) := frames.filter responseBearing

/-- The answers to a sequence of commands, one each; an answer may depend on all the commands up
to its own. -/
def answersTo (answer : List (List UInt8) → List UInt8) (cs : List (List UInt8)) :
    List (List UInt8) := (List.range cs.length).map fun i => answer (cs.take (i + 1))

/-- The next answer of a target that has consumed `frames`. -/
def due (answer : List (List UInt8) → List UInt8) (frames : List (List UInt8)) (d : DstRing)
    (f : List UInt8) : Prop :=
  (answersTo answer (queries frames))[d.filled.length]? = some f ∧ fits d f

theorem answersTo_length (answer : List (List UInt8) → List UInt8) (cs : List (List UInt8)) :
    (answersTo answer cs).length = cs.length := by
  rw [answersTo, List.length_map, List.length_range]

theorem answersTo_concat (cs : List (List UInt8)) (c : List UInt8) :
    answersTo answer (cs ++ [c]) = answersTo answer cs ++ [answer (cs ++ [c])] := by
  have hold : (List.range cs.length).map (fun i => answer ((cs ++ [c]).take (i + 1))) =
      answersTo answer cs := by
    apply List.map_congr_left
    intro i hi
    rw [List.take_append_of_le_length (List.mem_range.1 hi)]
  rw [← hold]
  simp only [answersTo, List.length_append, List.length_singleton, List.range_succ,
    List.map_append, List.map_singleton]
  rw [List.take_of_length_le (by rw [List.length_append, List.length_singleton])]

theorem answersTo_mono (h : cs <+: ds) : answersTo answer cs <+: answersTo answer ds := by
  obtain ⟨es, rfl⟩ := h
  induction es using List.reverseRecOn with
  | nil => rw [List.append_nil]
  | append_singleton es e ih =>
    rw [← List.append_assoc, answersTo_concat]
    exact ih.trans (List.prefix_append _ _)

theorem queries_concat (P : List (List UInt8)) (hq : responseBearing c = true) :
    queries (P ++ [c]) = queries P ++ [c] := by
  rw [queries, List.filter_append, List.filter_singleton, hq]
  rfl

theorem queries_concat_silent (P : List (List UInt8)) (hq : responseBearing c = false) :
    queries (P ++ [c]) = queries P := by
  rw [queries, List.filter_append, List.filter_singleton, hq]
  exact List.append_nil _

theorem due_mono (h : frames <+: frames') (hd : due answer frames d f) :
    due answer frames' d f := by
  have hlt := (List.getElem?_eq_some_iff.1 hd.1).1
  obtain ⟨t, ht⟩ : answersTo answer (queries frames) <+: answersTo answer (queries frames') :=
    answersTo_mono (h.filter responseBearing)
  refine ⟨?_, hd.2⟩
  rw [← hd.1, ← ht, List.getElem?_append_left hlt]

/-- The frames delivered are the answers, in order. -/
def Answered (answer : List (List UInt8) → List UInt8) (P : List (List UInt8)) (d : DstRing) :
    Prop := d.filled <+: answersTo answer (queries P)

theorem prefix_concat (h : l <+: m) (hg : m[l.length]? = some a) : l ++ [a] <+: m := by
  obtain ⟨t, rfl⟩ := h
  rw [List.getElem?_append_right (Nat.le_refl _), Nat.sub_self] at hg
  cases t with
  | nil => cases hg
  | cons b t =>
    obtain rfl := Option.some.inj hg
    exact ⟨t, List.append_assoc _ _ _⟩

theorem Answered.engine (h : Answered answer P d) (hs : DstRing.Engine (due answer P) d e) :
    Answered answer P e := by
  cases hs with
  | fill hd => exact prefix_concat h hd.1
  | land => exact h
  | advance => exact h

theorem Answered.mono (h : Answered answer P d) (hp : P <+: P') : Answered answer P' d :=
  h.trans (answersTo_mono (hp.filter responseBearing))

theorem Answered.length_le (h : Answered answer P d) : d.filled.length ≤ (queries P).length :=
  (List.IsPrefix.length_le h).trans_eq (answersTo_length answer _)

/-- While one answer at most is outstanding the target is not ahead of the host. -/
theorem paced_due (h : (queries P).length ≤ R.length + 1) : Paced (due answer P) R k := by
  intro d f hi hr _ hd _
  have hlt := (List.getElem?_eq_some_iff.1 hd.1).1
  rw [answersTo_length] at hlt
  rw [← hr]
  apply hi.filled_eq
  rw [hr]
  omega

theorem settled_due (h : (queries P).length ≤ R.length) : Settled (due answer P) R k := by
  intro d f _ _ hf _ hd
  have hlt := (List.getElem?_eq_some_iff.1 hd.1).1
  rw [answersTo_length, hf] at hlt
  omega

/-- The control pair between the accesses of a call, with `P` posted and `X` true of the receive
half. -/
structure BmiAt (answer : List (List UInt8) → List UInt8) (P : List (List UInt8))
    (X : DstRing → Prop) (h : Host) : Prop where
  tx : TxIdle h.fCtrl.src
  posted : h.fCtrl.src.posted = P
  rx : X h.fCtrl.dst
  answered : Answered answer P h.fCtrl.dst

/-- What the engine does with the answers to `P` does not falsify `X`. -/
def Outlasts (answer : List (List UInt8) → List UInt8) (P : List (List UInt8))
    (X : DstRing → Prop) : Prop := ∀ d e, X d → DstRing.Engine (due answer P) d e → X e

theorem BmiAt.engine (hX : Outlasts answer P X) (h : BmiAt answer P X t)
    (hs : Host.CtrlEngine (due answer) t u) : BmiAt answer P X u := by
  cases hs with
  | src hs =>
    have hsame := (SrcRing.Same.refl _).engine hs
    exact ⟨h.tx.engine hs, hsame.posted.trans h.posted, h.rx, h.answered⟩
  | dst hd =>
    have hp := h.posted ▸ h.tx.1.history.1
    have hd' := hd.mono fun _ _ => due_mono hp
    exact ⟨h.tx, h.posted, hX _ _ h.rx hd', h.answered.engine hd'⟩

theorem bmiAt_assertion (hX : Outlasts answer P X) :
    Assertion (Host.CtrlEngine (due answer)) (fun _ => True) (BmiAt answer P X) :=
  ⟨fun _ _ => BmiAt.engine hX, fun _ _ => trivial⟩

theorem rx_safe {p : Prog DstRing α} (h : BmiAt answer P X t)
    (hp : Safe (DstRing.Engine (due answer P)) J RxStep Q p t.fCtrl.dst) :
    Safe (Host.CtrlEngine (due answer)) (fun _ => True) (fun _ _ => True)
      (fun r u => BmiAt answer P (Q r) u)
      ((p.zoom CECopyPair.dst CECopyPair.setDst).zoom Host.fCtrl Host.setCtrl) t := by
  have hk := hp.keep (I := Answered answer P) (fun _ _ _ hi hs => hi.engine hs)
    (fun d e _ hi hs => by
      rw [Answered, hs.filled]
      exact hi) h.answered
  have hz := ctrl_dst_safe (D := due answer) (F := fun s => TxIdle s ∧ s.posted = P)
    (fun s u hs he => ⟨hs.1.engine he, ((SrcRing.Same.refl s).engine he).posted.trans hs.2⟩)
    (fun s hs d f => due_mono (hs.2 ▸ hs.1.1.history.1)) ⟨h.tx, h.posted⟩ hk
  apply hz.mono (fun _ _ => trivial) (fun _ _ => id)
  intro r u hu
  exact ⟨hu.2.1.1, hu.2.1.2, hu.1.1, hu.1.2⟩

theorem ctrlSend_safe (hX : Outlasts answer (P ++ [cmd]) X) (h : BmiAt answer P X t) :
    Safe (Host.CtrlEngine (due answer)) (fun _ => True) (fun _ _ => True)
      (fun r u => (r = true → BmiAt answer (P ++ [cmd]) X u) ∧
        (BmiAt answer P X u ∨ BmiAt answer (P ++ [cmd]) X u)) (CEManager.send cmd) t := by
  have hz := ctrl_src_safe (D := due answer) (I := fun s d => X d ∧ Answered answer s.posted d)
    (fun s u d hi hs => by
      rw [((SrcRing.Same.refl s).engine hs).posted]
      exact hi)
    (fun s u d hi hs => ⟨hi.1, hi.2.mono hs.posted⟩)
    (fun s d e hs hi he => by
      have hnow := he.mono fun _ _ => due_mono hs.1.history.1
      have hlate : s.posted <+: P ++ [cmd] := by
        rcases hs.2 with hp | hp
        · rw [hp, h.posted]
          exact List.prefix_append _ _
        · rw [hp, h.posted]
      exact ⟨hX d e hi.1 (hnow.mono fun _ _ => due_mono hlate), hi.2.engine hnow⟩)
    ⟨h.rx, h.posted ▸ h.answered⟩ (send_safe cmd h.tx)
  apply hz.mono (fun _ _ => trivial) (fun _ _ => id)
  rintro r u ⟨⟨ht, hpost⟩, ⟨hx, ha⟩, -⟩
  have hold (hp : u.fCtrl.src.posted = t.fCtrl.src.posted) : BmiAt answer P X u := by
    rw [hp, h.posted] at ha
    exact ⟨ht, hp.trans h.posted, hx, ha⟩
  have hnew (hp : u.fCtrl.src.posted = t.fCtrl.src.posted ++ [cmd]) :
      BmiAt answer (P ++ [cmd]) X u := by
    rw [hp, h.posted] at ha
    exact ⟨ht, by rw [hp, h.posted], hx, ha⟩
  cases hpost with
  | badLen _ hs => exact ⟨nofun, .inl (hold hs.posted)⟩
  | preWait hs => exact ⟨nofun, .inl (hold hs.posted)⟩
  | completion _ hp => exact ⟨nofun, .inr (hnew hp)⟩
  | sent _ hp => exact ⟨fun _ => hnew hp, .inr (hnew hp)⟩

/-- The receive half between calls, with `R` received and `k` entries posted. -/
structure RxBetween (R : List (List UInt8)) (k : Nat) (d : DstRing) : Prop where
  idle : RxIdle d
  received : d.received = R
  posts : d.posts = k

theorem rxBetween_outlasts (hdue : (queries P).length ≤ R.length + 1) :
    Outlasts answer P (RxBetween R k) := by
  intro d e h hs
  have hsame := hs.same
  have hinv := h.idle.1.engine (fun f hd hw =>
    (paced_due hdue d f h.idle.1 h.received rfl hd hw).trans h.received.symm) hs
  exact ⟨⟨hinv, by rw [hsame.dstWrite, hsame.doorbell, h.idle.2]⟩,
    hsame.received.trans h.received, hsame.posts.trans h.posts⟩

theorem rxAt_outlasts (hdue : (queries P).length ≤ R.length + 1) :
    Outlasts answer P (RxAt R k) :=
  fun _ _ h hs => (rxAt_assertion (paced_due hdue) (Nat.le_refl k)).step h hs

theorem settled_taken (hdue : (queries P).length ≤ R.length + 1) (f : List UInt8) :
    Settled (due answer P) (R ++ [f]) k := by
  apply settled_due
  rw [List.length_append, List.length_singleton]
  exact hdue

theorem rxTaken_outlasts (hdue : (queries P).length ≤ R.length + 1) :
    Outlasts answer P (RxTaken R f k raw) :=
  fun _ _ h hs => (rxTaken_assertion (settled_taken hdue f) (Nat.le_refl k)).step h hs

/-- The invariant between calls: what has been delivered are answers, and one at most is
outstanding. -/
structure BmiIdle (answer : List (List UInt8) → List UInt8) (h : Host) : Prop where
  tx : TxIdle h.fCtrl.src
  rx : RxIdle h.fCtrl.dst
  answered : Answered answer h.fCtrl.src.posted h.fCtrl.dst
  pending : (queries h.fCtrl.src.posted).length ≤ h.fCtrl.dst.received.length + 1

theorem BmiIdle.at (h : BmiIdle answer t) :
    BmiAt answer t.fCtrl.src.posted (RxBetween t.fCtrl.dst.received t.fCtrl.dst.posts) t :=
  ⟨h.tx, rfl, ⟨h.rx, rfl, rfl⟩, h.answered⟩

theorem BmiAt.idle {R : List (List UInt8)} (h : BmiAt answer P X t) (hidle : RxIdle t.fCtrl.dst)
    (hR : R.length ≤ t.fCtrl.dst.received.length) (hdue : (queries P).length ≤ R.length + 1) :
    BmiIdle answer t := by
  refine ⟨h.tx, hidle, ?_, ?_⟩
  · rw [h.posted]
    exact h.answered
  · rw [h.posted]
    omega

theorem BmiIdle.engine (h : BmiIdle answer t) (hs : Host.CtrlEngine (due answer) t u) :
    BmiIdle answer u := by
  have hu := h.at.engine (rxBetween_outlasts h.pending) hs
  exact hu.idle hu.rx.idle (Nat.le_of_eq (congrArg List.length hu.rx.received.symm)) h.pending

theorem bmiIdle_assertion (answer : List (List UInt8) → List UInt8) (X : Bmi → Prop) :
    Assertion (Host.CtrlEngine (due answer)) (fun _ => True)
      (fun t => BmiIdle answer t ∧ X t.bmi) where
  step := fun t u h hs => by
    refine ⟨h.1.engine hs, ?_⟩
    cases hs with
    | src => exact h.2
    | dst => exact h.2
  inv := fun _ _ => trivial

theorem setStage_safe (hX : Outlasts answer P X) (stage : BmiStage) (h : BmiAt answer P X t) :
    Safe (Host.CtrlEngine (due answer)) (fun _ => True) (fun _ _ => True)
      (fun _ u => BmiAt answer P X u) (Bmi.setStage stage) t := by
  apply Safe.op (bmiAt_assertion hX) h (fun _ _ => trivial)
  intro u hu
  exact .ret (bmiAt_assertion hX) ⟨hu.tx, hu.posted, hu.rx, hu.answered⟩ fun _ => id

theorem ctrlPost_safe (hnone : (queries P).length = R.length)
    (h : BmiAt answer P (RxBetween R k) t) :
    Safe (Host.CtrlEngine (due answer)) (fun _ => True) (fun _ _ => True)
      (fun r u => r = true ∧ BmiAt answer P (RxAt R (k + 1)) u) CEManager.postRecv t := by
  have hf : t.fCtrl.dst.filled = R := by
    rw [← h.rx.received]
    apply h.rx.idle.1.filled_eq
    rw [h.rx.received, ← hnone]
    exact h.answered.length_le
  have hsettled : Settled (due answer P) R k := settled_due hnone.le
  have hp := DstRing.postRecv_safe h.rx.idle h.rx.received hf h.rx.posts hsettled
    (paced_due (hnone.trans_le (Nat.le_succ _)))
  apply (rx_safe h hp).mono (fun _ => id) (fun _ _ => id)
  intro r u hu
  exact ⟨hu.rx.1, hu.tx, hu.posted, hu.rx.2, hu.answered⟩

theorem ctrlWait_safe (hdue : (queries P).length ≤ R.length + 1) (timeoutMs : Nat)
    (h : BmiAt answer P (RxAt R k) t) :
    Safe (Host.CtrlEngine (due answer)) (fun _ => True) (fun _ _ => True)
      (fun r u => (r = false ∧ BmiAt answer P (RxAt R k) u) ∨
        (r = true ∧ ∃ f raw, BmiAt answer P (RxTaken R f k raw) u))
      (CEManager.recvWait timeoutMs) t := by
  have hp := recvPoll_safe (D := due answer P) (pollDeadline timeoutMs) h.rx (paced_due hdue)
    (settled_taken hdue)
  apply (rx_safe h hp).mono (fun _ => id) (fun _ _ => id)
  intro r u hu
  cases hu.rx with
  | timeout ht => exact .inl ⟨rfl, hu.tx, hu.posted, ht, hu.answered⟩
  | frame ht => exact .inr ⟨rfl, _, _, hu.tx, hu.posted, ht, hu.answered⟩

/-- The answer to `cmd` of a target that has been sent `P` before. -/
def answerTo (answer : List (List UInt8) → List UInt8) (P : List (List UInt8))
    (cmd : List UInt8) : List UInt8 := answer (queries P ++ [cmd])

/-- The frame taken after a query is the answer to that query when none was outstanding before. -/
theorem BmiAt.own (h : BmiAt answer (P ++ [cmd]) (RxTaken R f k raw) t)
    (hq : responseBearing cmd = true) (hnone : (queries P).length = R.length) :
    f = answerTo answer P cmd := by
  have hpre : R ++ [f] <+: answersTo answer (queries P) ++ [answerTo answer P cmd] := by
    rw [answerTo, ← answersTo_concat, ← queries_concat P hq, ← h.rx.taken.filled]
    exact h.answered
  have hlen : (R ++ [f]).length =
      (answersTo answer (queries P) ++ [answerTo answer P cmd]).length := by
    simp only [List.length_append, List.length_singleton, answersTo_length, hnone]
  have he := List.append_inj' (hpre.eq_of_length hlen) rfl
  exact List.singleton_injective he.2

/-- What an exchange has done when it returns. -/
def ExchangePost (answer : List (List UInt8) → List UInt8) (P : List (List UInt8))
    (cmd : List UInt8) (respLen : Nat) (r : Option (List UInt8 × Nat)) : Prop :=
  ∀ resp nbytes, r = some (resp, nbytes) →
    respLen ≤ nbytes ∧ nbytes = (answerTo answer P cmd).length ∧
      resp = (answerTo answer P cmd).take respLen

/-- What `exchangeWait` does with the response in the rx buffer. -/
def copyOut (respLen : Nat) : Prog Host (Option (List UInt8 × Nat)) := do
  Bmi.setStage .shortResp
  let nbytes ← read fun h => h.fCtrl.dst.fRxNbytes
  if nbytes < respLen then return none
  let resp ← read fun h => h.fCtrl.dst.rxBuf.take respLen
  Bmi.setStage .ok
  return some (resp, nbytes)

/-- How an exchange has ended: the command may have been posted, and it has been answered when the
exchange hands out a response. -/
structure ExchangeEnd (answer : List (List UInt8) → List UInt8) (P : List (List UInt8))
    (cmd : List UInt8) (respLen : Nat) (r : Option (List UInt8 × Nat)) (t : Host) : Prop where
  idle : BmiIdle answer t
  posted : t.fCtrl.src.posted = P ∨ t.fCtrl.src.posted = P ++ [cmd]
  post : ExchangePost answer P cmd respLen r
  taken : r.isSome → t.fCtrl.src.posted = P ++ [cmd] ∧
    (queries (P ++ [cmd])).length = t.fCtrl.dst.received.length

theorem exchangeEnd_none {R : List (List UInt8)} {X : DstRing → Prop} (hX : Outlasts answer P' X)
    (hidle : ∀ d, X d → RxIdle d ∧ R.length ≤ d.received.length)
    (hdue : (queries P').length ≤ R.length + 1) (hP : P' = P ∨ P' = P ++ [cmd])
    (h : BmiAt answer P' X t) :
    Safe (Host.CtrlEngine (due answer)) (fun _ => True) (fun _ _ => True)
      (ExchangeEnd answer P cmd respLen) (.ret none) t := by
  apply Safe.ret (bmiAt_assertion hX) h
  intro u hu
  obtain ⟨hrx, hlen⟩ := hidle _ hu.rx
  have hpost : ExchangePost answer P cmd respLen none := by
    intro resp nbytes hr
    cases hr
  refine ⟨hu.idle hrx hlen hdue, hu.posted.symm ▸ hP, hpost, fun hr => ?_⟩
  cases hr

theorem copyOut_ends (hdue : (queries (P ++ [cmd])).length ≤ R.length + 1)
    (hq : responseBearing cmd = true) (hnone : (queries P).length = R.length)
    (h : BmiAt answer (P ++ [cmd]) (RxTaken R f k raw) h₀) (respLen : Nat) :
    Safe (Host.CtrlEngine (due answer)) (fun _ => True) (fun _ _ => True)
      (ExchangeEnd answer P cmd respLen) (copyOut respLen) h₀ := by
  have htaken : Outlasts answer (P ++ [cmd]) (RxTaken R f k raw) := rxTaken_outlasts hdue
  have hown := h.own hq hnone
  have hreceived (d : DstRing) (hd : RxTaken R f k raw d) :
      d.received.length = R.length + 1 := by
    rw [hd.taken.received, List.length_append, List.length_singleton]
  have hidle (d : DstRing) (hd : RxTaken R f k raw d) :
      RxIdle d ∧ R.length ≤ d.received.length :=
    ⟨hd.idle, (Nat.le_succ _).trans (hreceived d hd).ge⟩
  unfold copyOut
  simp only [bind_eq_bind, pure_eq_ret, read_bind]
  apply Safe.bind
  apply (setStage_safe htaken _ h).mono (fun _ => id) (fun _ _ => id)
  intro _ t ht
  apply Safe.op (bmiAt_assertion htaken) ht (fun _ _ => trivial)
  intro t ht
  split
  · exact exchangeEnd_none htaken hidle hdue (.inr rfl) ht
  · next hlong =>
    rw [ht.rx.nbytes] at hlong
    have hlen : respLen ≤ f.length := not_lt.1 hlong
    rw [ht.rx.nbytes]
    apply Safe.op (bmiAt_assertion htaken) ht (fun _ _ => trivial)
    intro t ht
    have hresp : t.fCtrl.dst.rxBuf.take respLen = f.take respLen := by
      have hb := congrArg (List.take respLen) ht.rx.taken.bytes
      rw [List.take_take, min_eq_left hlen] at hb
      exact hb
    apply Safe.bind
    apply (setStage_safe htaken _ ht).mono (fun _ => id) (fun _ _ => id)
    intro _ t ht
    apply Safe.ret (bmiAt_assertion htaken) ht
    intro u hu
    refine ⟨hu.idle hu.rx.idle (hidle _ hu.rx).2 hdue, .inr hu.posted, ?_, fun _ => ⟨hu.posted, ?_⟩⟩
    · rintro resp nbytes he
      obtain ⟨rfl, rfl⟩ := Prod.mk.inj (Option.some.inj he)
      rw [← hown, hresp]
      exact ⟨hlen, rfl, rfl⟩
    · rw [hreceived _ hu.rx, queries_concat P hq, List.length_append, List.length_singleton, hnone]

/-- An exchange that starts with no answer outstanding copies out the answer to its own command,
or fails. -/
theorem exchangeWait_ends (h : BmiIdle answer h₀) (hq : responseBearing cmd = true)
    (hnone : (queries h₀.fCtrl.src.posted).length = h₀.fCtrl.dst.received.length)
    (respLen : Nat) :
    Safe (Host.CtrlEngine (due answer)) (fun _ => True) (fun _ _ => True)
      (ExchangeEnd answer h₀.fCtrl.src.posted cmd respLen) (Bmi.exchangeWait cmd respLen) h₀ := by
  have hat := h.at
  generalize h₀.fCtrl.src.posted = P, h₀.fCtrl.dst.received = R, h₀.fCtrl.dst.posts = k at hat hnone
  have hdue : (queries P).length ≤ R.length + 1 := hnone.trans_le (Nat.le_succ _)
  have hdue' : (queries (P ++ [cmd])).length ≤ R.length + 1 := by
    rw [queries_concat P hq, List.length_append, List.length_singleton, hnone]
  have hpending (d : DstRing) (hd : RxAt R (k + 1) d) : RxIdle d ∧ R.length ≤ d.received.length :=
    ⟨hd.idle, Nat.le_of_eq (congrArg List.length hd.received.symm)⟩
  have hback {P' : List (List UInt8)} {t : Host} (hP : P' = P ∨ P' = P ++ [cmd])
      (hdue : (queries P').length ≤ R.length + 1) (ht : BmiAt answer P' (RxAt R (k + 1)) t) :
      Safe (Host.CtrlEngine (due answer)) (fun _ => True) (fun _ _ => True)
        (ExchangeEnd answer P cmd respLen) (.ret none) t :=
    exchangeEnd_none (rxAt_outlasts hdue) hpending hdue hP ht
  have hbetween : Outlasts answer P (RxBetween R k) := rxBetween_outlasts hdue
  unfold Bmi.exchangeWait
  simp only [bind_eq_bind, pure_eq_ret, read_bind]
  apply Safe.op (bmiAt_assertion hbetween) hat (fun _ _ => trivial)
  intro t ht
  split
  · apply Safe.bind
    apply (setStage_safe hbetween _ ht).mono (fun _ => id) (fun _ _ => id)
    intro _ u hu
    apply exchangeEnd_none hbetween _ hdue (.inl rfl) hu
    exact fun d hd => ⟨hd.idle, Nat.le_of_eq (congrArg List.length hd.received.symm)⟩
  apply Safe.bind
  apply (setStage_safe hbetween _ ht).mono (fun _ => id) (fun _ _ => id)
  intro _ t ht
  apply Safe.bind
  apply (ctrlPost_safe hnone ht).mono (fun _ => id) (fun _ _ => id)
  rintro _ t ⟨rfl, ht⟩
  apply Safe.bind
  apply (setStage_safe (rxAt_outlasts hdue) _ ht).mono (fun _ => id) (fun _ _ => id)
  intro _ t ht
  apply Safe.bind
  apply (ctrlSend_safe (rxAt_outlasts hdue') ht).mono (fun _ => id) (fun _ _ => id)
  intro r t ⟨hsent, hany⟩
  cases r with
  | false =>
    rcases hany with ht | ht
    · exact hback (.inl rfl) hdue ht
    · exact hback (.inr rfl) hdue' ht
  | true =>
  apply Safe.bind
  apply (setStage_safe (rxAt_outlasts hdue') _ (hsent rfl)).mono (fun _ => id) (fun _ _ => id)
  intro _ t ht
  apply Safe.bind
  apply (ctrlWait_safe hdue' _ ht).mono (fun _ => id) (fun _ _ => id)
  rintro _ t (⟨rfl, ht⟩ | ⟨rfl, f, raw, ht⟩)
  · exact hback (.inr rfl) hdue' ht
  · exact copyOut_ends hdue' hq hnone ht respLen

theorem exchangeWait_safe (h : BmiIdle answer h₀) (hq : responseBearing cmd = true)
    (hnone : (queries h₀.fCtrl.src.posted).length = h₀.fCtrl.dst.received.length)
    (respLen : Nat) :
    Safe (Host.CtrlEngine (due answer)) (fun _ => True) (fun _ _ => True)
      (fun r t => BmiIdle answer t ∧ ExchangePost answer h₀.fCtrl.src.posted cmd respLen r)
      (Bmi.exchangeWait cmd respLen) h₀ :=
  (exchangeWait_ends h hq hnone respLen).mono (fun _ => id) (fun _ _ => id) fun _ _ hr =>
    ⟨hr.idle, hr.post⟩

end Qca9377
