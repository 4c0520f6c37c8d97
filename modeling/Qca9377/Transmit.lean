import Qca9377.CopyEngine

namespace Qca9377
open Bytes Interleaving
set_option autoImplicit true

variable {s t u s₀ : SrcRing}

/-- The engine has nothing to do. -/
def SrcRing.Quiet (s : SrcRing) : Prop := s.fetched = none ∧ s.currentSRRI = s.srWrIndex

theorem SrcRing.Quiet.still (h : s.Quiet) : ¬ SrcRing.Engine s t := by
  intro hs
  cases hs with
  | fetch hf hw => exact hw h.2
  | advance hf =>
    rw [h.1] at hf
    cases hf

/-- The one posted frame that the engine has not consumed. -/
structure SrcRing.InFlight (s : SrcRing) (buf : List UInt8) : Prop where
  posted : s.posted = s.consumed ++ [buf]
  desc : s.fSrcDesc s.currentSRRI = ⟨s.fTxPhys % 2 ^ 32, buf.length, 0⟩
  bytes : s.txBuf.take buf.length = buf
  latch : s.fetched = none ∨ s.fetched = some buf

structure TxInv (s : SrcRing) : Prop where
  alive : s.gone = false
  srri : s.currentSRRI = s.consumed.length % kRingN
  doorbell : s.srWrIndex = s.posted.length % kRingN
  flight : (s.posted = s.consumed ∧ s.fetched = none) ∨ ∃ buf, s.InFlight buf

theorem succ_mod_ring (n : Nat) : (n % kRingN + 1) % kRingN = (n + 1) % kRingN := by
  simp only [kRingN]
  omega

theorem TxInv.engine (h : TxInv s) (hs : SrcRing.Engine s t) : TxInv t := by
  rcases h.flight with ⟨hp, hf⟩ | ⟨buf, hb⟩
  · have hq : s.Quiet := ⟨hf, by rw [h.srri, h.doorbell, hp]⟩
    exact (hq.still hs).elim
  · cases hs with
    | fetch hf hw =>
      have hread : s.dmaRead (s.fSrcDesc s.currentSRRI) = buf := by
        rw [SrcRing.dmaRead, hb.desc, if_pos rfl, hb.bytes]
      exact ⟨h.alive, h.srri, h.doorbell,
        .inr ⟨buf, hb.posted, hb.desc, hb.bytes, .inr (congrArg some hread)⟩⟩
    | @advance f _ hf =>
      have he : f = buf := by
        rcases hb.latch with hl | hl
        · rw [hl] at hf
          cases hf
        · rw [hl] at hf
          exact (Option.some.inj hf).symm
      subst f
      refine ⟨h.alive, ?_, h.doorbell, .inl ⟨hb.posted, rfl⟩⟩
      simp only [SrcRing.advance, h.srri, List.length_append, List.length_singleton,
        succ_mod_ring]

/-- The fields that only the host writes. -/
structure SrcRing.Same (s t : SrcRing) : Prop where
  desc : t.fSrcDesc = s.fSrcDesc
  txBuf : t.txBuf = s.txBuf
  txPhys : t.fTxPhys = s.fTxPhys
  srcWrite : t.fSrcWrite = s.fSrcWrite
  doorbell : t.srWrIndex = s.srWrIndex
  iolog : t.iolog = s.iolog
  posted : t.posted = s.posted

theorem SrcRing.Same.refl (s : SrcRing) : s.Same s := ⟨rfl, rfl, rfl, rfl, rfl, rfl, rfl⟩

theorem SrcRing.Same.engine (h : s.Same t) (hs : SrcRing.Engine t u) : s.Same u := by
  cases hs with
  | fetch => exact ⟨h.1, h.2, h.3, h.4, h.5, h.6, h.7⟩
  | advance => exact ⟨h.1, h.2, h.3, h.4, h.5, h.6, h.7⟩

theorem SrcRing.Same.log (h : s.Same t) (m : CELog) : (s.log m).Same (t.log m) :=
  ⟨h.1, h.2, h.3, h.4, h.5, congrArg (· ++ [m]) h.6, h.7⟩

def BadLen (len : Nat) : Prop := len = 0 ∨ kTxBufSz < len ∨ 0xFFFF < len

instance (len : Nat) : Decidable (BadLen len) := inferInstanceAs (Decidable (_ ∨ _ ∨ _))

/-- What a call of `send` has done when it returns. -/
inductive SendPost (buf : List UInt8) (s₀ : SrcRing) : Bool → SrcRing → Prop
  | badLen {r : SrcRing} (hlen : BadLen buf.length)
      (h : (s₀.log (.sendBadLen buf.length)).Same r) : SendPost buf s₀ false r
  | preWait {r : SrcRing} (h : (s₀.log (.sendPreWaitTimeout srri w)).Same r) :
      SendPost buf s₀ false r
  | completion {r : SrcRing} (hlen : ¬ BadLen buf.length) (hp : r.posted = s₀.posted ++ [buf])
      (hl : r.iolog = s₀.iolog ++ [.sendCompletionTimeout srri w]) : SendPost buf s₀ false r
  | sent {r : SrcRing} (hlen : ¬ BadLen buf.length) (hp : r.posted = s₀.posted ++ [buf])
      (hc : r.consumed = r.posted) (hl : r.iolog = s₀.iolog) : SendPost buf s₀ true r

def TxDuring (buf : List UInt8) (s₀ s : SrcRing) : Prop :=
  TxInv s ∧ (s.posted = s₀.posted ∨ s.posted = s₀.posted ++ [buf])

/-- The tx buffer is only rewritten while nothing is in flight, and nothing posted is taken back. -/
structure TxStep (s t : SrcRing) : Prop where
  txBuf : t.txBuf ≠ s.txBuf → s.posted = s.consumed
  consumed : t.consumed = s.consumed
  posted : s.posted <+: t.posted

theorem txStep_same (h : t.txBuf = s.txBuf) (hc : t.consumed = s.consumed)
    (hp : s.posted <+: t.posted) : TxStep s t :=
  ⟨fun hne => absurd h hne, hc, hp⟩

theorem pollSRRI_safe {P C : SrcRing → Prop} (hP : Assertion SrcRing.Engine J P)
    (hC : Assertion SrcRing.Engine J C) (hcaught : ∀ s, P s → s.srri = s.fSrcWrite → C s)
    (n : Nat) (h : P s) :
    Safe SrcRing.Engine J TxStep
      (fun r t => (r.1 = r.2 → C t) ∧ (r.1 ≠ r.2 → P t)) (pollSRRI n) s := by
  have hend (r : Nat × Nat) (t : SrcRing) (ht : P t) (hr : r = (t.srri, t.fSrcWrite)) :
      Safe SrcRing.Engine J TxStep
        (fun r t => (r.1 = r.2 → C t) ∧ (r.1 ≠ r.2 → P t)) (.ret r) t := by
    by_cases he : t.srri = t.fSrcWrite
    · refine .ret hC (hcaught t ht he) fun u hu => ⟨fun _ => hu, fun hne => ?_⟩
      rw [hr] at hne
      exact absurd he hne
    · refine .ret hP ht fun u hu => ⟨fun heq => ?_, fun _ => hu⟩
      rw [hr] at heq
      exact absurd heq he
  induction n generalizing s with
  | zero =>
    exact .op hP h (fun _ _ => txStep_same rfl rfl List.prefix_rfl) fun t ht => hend _ t ht rfl
  | succ n ih =>
    refine .op hP h (fun _ _ => txStep_same rfl rfl List.prefix_rfl) fun t ht => ?_
    dsimp only [Prog.ret_bind, bind_eq_bind, id_eq]
    split
    · exact hend _ t ht rfl
    · exact ih ht

/-- Between calls the doorbell shows the write index. -/
def TxIdle (s : SrcRing) : Prop := TxInv s ∧ s.fSrcWrite = s.srWrIndex

theorem TxIdle.engine (h : TxIdle s) (hs : SrcRing.Engine s t) : TxIdle t := by
  have hsame := (SrcRing.Same.refl s).engine hs
  exact ⟨h.1.engine hs, by rw [hsame.srcWrite, hsame.doorbell, h.2]⟩

theorem TxInv.caught (h : TxInv s) (hw : s.fSrcWrite = s.srWrIndex) (he : s.srri = s.fSrcWrite) :
    s.posted = s.consumed := by
  rcases h.flight with ⟨hp, -⟩ | ⟨buf, hb⟩
  · exact hp
  · have hlen := congrArg List.length hb.posted
    rw [hw, h.doorbell, SrcRing.srri, h.alive, h.srri] at he
    simp only [List.length_append, List.length_singleton] at hlen
    simp only [Bool.false_eq_true, if_false, kRingN] at he
    omega

theorem TxInv.latch_none (h : TxInv s) (hp : s.posted = s.consumed) : s.fetched = none := by
  rcases h.flight with ⟨-, hf⟩ | ⟨buf, hb⟩
  · exact hf
  · have hlen := congrArg List.length (hp.symm.trans hb.posted)
    simp only [List.length_append, List.length_singleton] at hlen
    omega

theorem TxInv.quiet (h : TxInv s) (hp : s.posted = s.consumed) : s.Quiet :=
  ⟨h.latch_none hp, by rw [h.srri, h.doorbell, hp]⟩

theorem TxInv.log (h : TxInv s) (m : CELog) : TxInv (s.log m) := by
  refine ⟨h.alive, h.srri, h.doorbell, ?_⟩
  rcases h.flight with hq | ⟨buf, hb⟩
  · exact .inl hq
  · exact .inr ⟨buf, hb.posted, hb.desc, hb.bytes, hb.latch⟩

theorem SrcRing.Quiet.assertion (h : s.Quiet) (hJ : J s) :
    Assertion SrcRing.Engine J (fun t => t = s) where
  step := fun t u ht hs => by
    subst t
    exact (h.still hs).elim
  inv := fun t ht => ht ▸ hJ

/-- Nothing the engine does changes what a call has posted so far. -/
theorem same_assertion (hd : ∀ t, s.Same t → TxInv t → J t) :
    Assertion SrcRing.Engine J (fun t => TxInv t ∧ s.Same t) where
  step := fun _ _ ht hs => ⟨ht.1.engine hs, ht.2.engine hs⟩
  inv := fun t ht => hd t ht.2 ht.1

theorem caught_assertion (hd : ∀ t, s.Same t → TxInv t → J t) :
    Assertion SrcRing.Engine J (fun t => (TxInv t ∧ s.Same t) ∧ t.posted = t.consumed) where
  step := fun _ _ ht hs => ((ht.1.1.quiet ht.2).still hs).elim
  inv := fun t ht => hd t ht.1.2 ht.1.1

theorem log_safe (hidle : s₀.fSrcWrite = s₀.srWrIndex) (m : CELog)
    (hd : ∀ t, s₀.Same t → TxInv t → TxDuring buf s t)
    (hd' : ∀ t, (s₀.log m).Same t → TxInv t → TxDuring buf s t)
    (hQ : ∀ t, (s₀.log m).Same t → SendPost buf s false t) (h : TxInv u ∧ s₀.Same u) :
    Safe SrcRing.Engine (TxDuring buf s) TxStep (fun r t => TxIdle t ∧ SendPost buf s r t)
      (.op (SrcRing.log m) fun _ => .ret false) u := by
  refine .op (same_assertion hd) h (fun _ _ => txStep_same rfl rfl List.prefix_rfl) fun t ht => ?_
  refine .ret (same_assertion hd') ⟨ht.1.log m, ht.2.log m⟩ fun v hv => ?_
  exact ⟨⟨hv.1, by rw [hv.2.srcWrite, hv.2.doorbell]; exact hidle⟩, hQ v hv.2⟩

theorem posted_inv (h : TxInv s) (hw : s.fSrcWrite = s.srWrIndex) (hp : s.posted = s.consumed)
    (hlen : ¬ BadLen buf.length) :
    TxInv ((((s.copyIn buf).writeDesc buf.length).stepWrite).ring buf) := by
  have hpos : s.currentSRRI = s.fSrcWrite := by rw [hw, h.doorbell, h.srri, hp]
  have hsmall : buf.length % 2 ^ 16 = buf.length := by
    simp only [BadLen, kTxBufSz] at hlen
    omega
  refine ⟨h.alive, h.srri, ?_, .inr ⟨buf, ?_⟩⟩
  · simp only [SrcRing.ring, SrcRing.stepWrite, SrcRing.writeDesc, SrcRing.copyIn, hw, h.doorbell,
      List.length_append, List.length_singleton, succ_mod_ring]
  · refine ⟨congrArg (· ++ [buf]) hp, ?_, ?_, .inl (h.latch_none hp)⟩
    · simp only [SrcRing.ring, SrcRing.stepWrite, SrcRing.writeDesc, SrcRing.copyIn, hpos,
        Function.update_self, hsmall]
    · simp only [SrcRing.ring, SrcRing.stepWrite, SrcRing.writeDesc, SrcRing.copyIn, poke,
        List.take_zero, List.nil_append, List.take_left]

/-- The part of `send` after its pre-wait, started with nothing in flight. -/
theorem post_safe (hi : TxInv s) (hw : s.fSrcWrite = s.srWrIndex) (hs : s₀.Same s)
    (hp : s.posted = s.consumed) (hlen : ¬ BadLen buf.length) :
    Safe SrcRing.Engine (TxDuring buf s₀) TxStep (fun r s => TxIdle s ∧ SendPost buf s₀ r s)
      (.op (SrcRing.copyIn buf) fun _ => .op (SrcRing.writeDesc buf.length) fun _ =>
        .op SrcRing.stepWrite fun _ => .op (SrcRing.ring buf) fun _ =>
          (pollSRRI (pollDeadline kQCAExchangeTimeout_ms)).bind fun x =>
            if x.1 ≠ x.2 then .op (SrcRing.log (.sendCompletionTimeout x.1 x.2)) fun _ => .ret false
            else .ret true) s := by
  have hq := hi.quiet hp
  have hf := hi.latch_none hp
  have hinv (u : SrcRing) (hc : u.consumed = s.consumed) (hpo : u.posted = s.posted)
      (hg : u.gone = s.gone) (hsr : u.currentSRRI = s.currentSRRI)
      (hdb : u.srWrIndex = s.srWrIndex) (hl : u.fetched = s.fetched) : TxDuring buf s₀ u := by
    refine ⟨⟨by rw [hg, hi.alive], by rw [hsr, hc, hi.srri], by rw [hdb, hpo, hi.doorbell], ?_⟩, ?_⟩
    · exact .inl ⟨by rw [hpo, hc, hp], by rw [hl, hf]⟩
    · exact .inl (by rw [hpo, hs.posted])
  refine .op (hq.assertion (hinv s rfl rfl rfl rfl rfl rfl)) rfl (fun t ht => ?_) ?_
  · rw [ht]
    exact ⟨fun _ => hp, rfl, List.prefix_rfl⟩
  rintro s rfl
  have hq₁ : (s.copyIn buf).Quiet := hq
  have hq₂ : ((s.copyIn buf).writeDesc buf.length).Quiet := hq
  have hq₃ : ((s.copyIn buf).writeDesc buf.length).stepWrite.Quiet := hq
  refine .op (hq₁.assertion (hinv _ rfl rfl rfl rfl rfl rfl)) rfl
    (fun _ _ => txStep_same rfl rfl List.prefix_rfl) ?_
  rintro _ rfl
  refine .op (hq₂.assertion (hinv _ rfl rfl rfl rfl rfl rfl)) rfl
    (fun _ _ => txStep_same rfl rfl List.prefix_rfl) ?_
  rintro _ rfl
  refine .op (hq₃.assertion (hinv _ rfl rfl rfl rfl rfl rfl)) rfl
    (fun _ _ => txStep_same rfl rfl (List.prefix_append _ _)) ?_
  rintro _ rfl
  have hv := posted_inv hi hw hp hlen
  have hposted : s.posted ++ [buf] = s₀.posted ++ [buf] := congrArg (· ++ [buf]) hs.posted
  have hd (m : SrcRing) (hm : m.posted = s.posted ++ [buf]) (t : SrcRing) (ht : m.Same t)
      (hi : TxInv t) : TxDuring buf s₀ t := ⟨hi, .inr ((ht.posted.trans hm).trans hposted)⟩
  have hP := same_assertion (hd ((((s.copyIn buf).writeDesc buf.length).stepWrite).ring buf) rfl)
  have hC := caught_assertion (hd ((((s.copyIn buf).writeDesc buf.length).stepWrite).ring buf) rfl)
  refine .bind (Safe.mono (pollSRRI_safe hP hC ?_ _ ⟨hv, .refl _⟩) (fun _ => id) (fun _ _ => id) ?_)
  · intro t ht he
    exact ⟨ht, ht.1.caught (by rw [ht.2.srcWrite, ht.2.doorbell]; rfl) he⟩
  · rintro ⟨srri, w⟩ t ⟨hcaught, hwait⟩
    dsimp only
    split
    · next hne =>
      refine log_safe rfl _ (hd _ rfl) (hd _ rfl) (fun u hu => ?_) (hwait hne)
      exact .completion hlen (hu.posted.trans hposted)
        (hu.iolog.trans (congrArg (· ++ [_]) hs.iolog))
    · next heq =>
      refine .ret hC (hcaught (not_not.1 heq)) fun u hu => ?_
      obtain ⟨⟨hu, hsame⟩, hc⟩ := hu
      refine ⟨⟨hu, by rw [hsame.srcWrite, hsame.doorbell]; rfl⟩, ?_⟩
      exact .sent hlen (hsame.posted.trans hposted) hc.symm (hsame.iolog.trans hs.iolog)

theorem send_safe (buf : List UInt8) (h : TxIdle s₀) :
    Safe SrcRing.Engine (TxDuring buf s₀) TxStep (fun r s => TxIdle s ∧ SendPost buf s₀ r s)
      (SrcRing.send buf) s₀ := by
  have hd (m : SrcRing) (hm : m.posted = s₀.posted) (t : SrcRing) (ht : m.Same t) (hi : TxInv t) :
      TxDuring buf s₀ t := ⟨hi, .inl (ht.posted.trans hm)⟩
  have hstart : TxInv s₀ ∧ s₀.Same s₀ := ⟨h.1, .refl s₀⟩
  unfold SrcRing.send
  simp only [bind_eq_bind, pure_eq_ret, modify_bind]
  split
  · next hbad =>
    exact log_safe h.2 _ (hd _ rfl) (hd _ rfl) (fun t ht => .badLen hbad ht) hstart
  · next hlen =>
    have hP := same_assertion (hd s₀ rfl)
    have hC := caught_assertion (hd s₀ rfl)
    refine .bind (Safe.mono (pollSRRI_safe hP hC ?_ _ hstart) (fun _ => id) (fun _ _ => id) ?_)
    · intro t ht he
      exact ⟨ht, ht.1.caught (by rw [ht.2.srcWrite, ht.2.doorbell, h.2]) he⟩
    · rintro ⟨srri, w⟩ s ⟨hcaught, hwait⟩
      dsimp only
      split
      · next hne =>
        exact log_safe h.2 _ (hd _ rfl) (hd _ rfl) (fun t ht => .preWait ht) (hwait hne)
      · next heq =>
        obtain ⟨hs, hp⟩ := hcaught (not_not.1 heq)
        exact post_safe hs.1 (by rw [hs.2.srcWrite, hs.2.doorbell, h.2]) hs.2 hp hlen

/-- A pair right after `init`, with both registers at zero. -/
structure TxFresh (s : SrcRing) : Prop where
  srcWrite : s.fSrcWrite = 0
  doorbell : s.srWrIndex = 0
  srri : s.currentSRRI = 0
  alive : s.gone = false
  latch : s.fetched = none
  posted : s.posted = []
  consumed : s.consumed = []

theorem TxFresh.idle (h : TxFresh s) : TxIdle s := by
  refine ⟨⟨h.alive, ?_, ?_, .inl ⟨?_, h.latch⟩⟩, ?_⟩
  · rw [h.srri, h.consumed]
    rfl
  · rw [h.doorbell, h.posted]
    rfl
  · rw [h.posted, h.consumed]
  · rw [h.srcWrite, h.doorbell]

def txSystem : System CECopyPair (List UInt8) Bool where
  init := fun p => TxFresh p.src
  body := CECopyPair.send
  env := fun p q => SrcRing.Engine p.src q.src ∧ q.dst = p.dst

theorem txSystem_sound (h : Reachable txSystem anyCall cfg) :
    Sound txSystem (fun p => TxIdle p.src)
      (fun buf p₀ p => TxDuring buf p₀.src p.src ∧ p.dst = p₀.dst)
      (fun p q => TxStep p.src q.src)
      (fun buf p₀ r p => SendPost buf p₀.src r p.src ∧ p.dst = p₀.dst) cfg := by
  refine h.sound (fun _ h => h.idle) ?_ ?_
  · intro p q hi hs
    exact TxIdle.engine hi hs.1
  · intro buf p _ hi
    have hz := Safe.zoom CECopyPair.src CECopyPair.setSrc txSystem.env (fun q => q.dst = p.dst)
      (fun _ _ => rfl) (fun q r hq hs => ⟨hs.2.trans hq, .single hs.1⟩) (fun _ _ hq => hq) rfl
      (send_safe buf hi)
    exact hz.mono (fun _ => id) (fun _ _ => And.left) fun r q hq => ⟨hq.1.1, hq.1.2, hq.2⟩

theorem TxInv.history (h : TxInv s) :
    s.consumed <+: s.posted ∧ s.posted.length ≤ s.consumed.length + 1 := by
  rcases h.flight with ⟨hp, -⟩ | ⟨buf, hb⟩
  · rw [hp]
    exact ⟨List.prefix_refl _, Nat.le_succ _⟩
  · rw [hb.posted, List.length_append, List.length_singleton]
    exact ⟨List.prefix_append _ _, Nat.le_refl _⟩

/-- The engine consumes exactly the buffers of the calls that posted, in order and once each;
the tx buffer is stable while a frame is in flight; a call that gives up early changes nothing. -/
theorem transmit_integrity (h : Reachable txSystem anyCall cfg) :
    (cfg.state.src.consumed <+: cfg.state.src.posted ∧
      cfg.state.src.posted.length ≤ cfg.state.src.consumed.length + 1) ∧
    (∀ buf p₀ prog p, cfg = .busy buf p₀ prog p →
      p.src.posted = p₀.src.posted ∨ p.src.posted = p₀.src.posted ++ [buf]) ∧
    (∀ cfg', Step txSystem anyCall cfg cfg' → cfg'.state.src.txBuf ≠ cfg.state.src.txBuf →
      cfg.state.src.posted = cfg.state.src.consumed) ∧
    (∀ buf p₀ r p, cfg = .busy buf p₀ (.ret r) p →
      SendPost buf p₀.src r p.src ∧ p.dst = p₀.dst) := by
  have hs := txSystem_sound h
  refine ⟨?_, ?_, ?_, ?_⟩
  · cases cfg with
    | idle p => exact TxInv.history (And.left hs)
    | busy buf p₀ prog p => exact (Safe.inv hs).1.1.history
  · rintro buf p₀ prog p rfl
    exact (Safe.inv hs).1.2
  · intro cfg' hstep hne
    rcases hs.step hstep with henv | hG | he
    · exact absurd ((SrcRing.Same.refl _).engine henv.1).txBuf hne
    · exact hG.txBuf hne
    · exact absurd (congrArg (fun q => q.src.txBuf) he.symm) hne
  · rintro buf p₀ r p rfl
    exact hs.post

def oneByteSent : CECopyPair :=
  (exec (fun p => p.setSrc p.src.eager) (CECopyPair.send [7]) freshPair).2

theorem eager_envs (p : CECopyPair) :
    Relation.ReflTransGen txSystem.env p (p.setSrc p.src.eager) := by
  have hlift {s t : SrcRing} (hst : Relation.ReflTransGen SrcRing.Engine s t) :
      Relation.ReflTransGen txSystem.env (p.setSrc s) (p.setSrc t) := by
    induction hst with
    | refl => exact .refl
    | tail _ hs ih => exact ih.tail ⟨hs, rfl⟩
  exact hlift p.src.eager_star

theorem oneByteSent_reachable :
    Reachable txSystem anyCall (.busy [7] freshPair (.ret true) oneByteSent) := by
  have hstart : Reachable txSystem anyCall (.idle freshPair) :=
    .init ⟨rfl, rfl, rfl, rfl, rfl, rfl, rfl⟩
  exact (hstart.step (.call (c := [7]) trivial)).exec eager_envs

theorem transmit_integrity_one_byte :
    oneByteSent.src.consumed <+: oneByteSent.src.posted ∧
      SendPost [7] freshPair.src true oneByteSent.src :=
  ⟨(transmit_integrity oneByteSent_reachable).1.1,
    ((transmit_integrity oneByteSent_reachable).2.2.2 _ _ _ _ rfl).1⟩

/-- A frame posted to an engine that does not move until the completion wait has expired. -/
def SrcRing.expire (buf : List UInt8) (s : SrcRing) : SrcRing :=
  ((((s.copyIn buf).writeDesc buf.length).stepWrite).ring buf).log
    (.sendCompletionTimeout s.srri ((s.fSrcWrite + 1) % kRingN))

theorem exec_pollSRRI (n : Nat) (s : SrcRing) :
    exec id (pollSRRI n) s = ((s.srri, s.fSrcWrite), s) := by
  induction n with
  | zero => rfl
  | succ n ih =>
    simp only [pollSRRI, read_bind, bind_eq_bind, exec_op, id_eq]
    split
    · rfl
    · exact ih

theorem exec_send (hlen : ¬ BadLen buf.length) (hq : s.srri = s.fSrcWrite) :
    exec id (SrcRing.send buf) s = (false, s.expire buf) := by
  have hne : s.srri ≠ (s.fSrcWrite + 1) % kRingN := by
    rw [← hq]
    simp only [SrcRing.srri, kRingN]
    omega
  have hbad : ¬ (buf.length = 0 ∨ kTxBufSz < buf.length ∨ 0xFFFF < buf.length) := hlen
  unfold SrcRing.send
  simp only [bind_eq_bind, modify_bind, pure_eq_ret, if_neg hbad, exec_bind, exec_pollSRRI, hq,
    ne_eq, not_true_eq_false, if_false, exec_op, id_eq]
  rw [if_pos]
  · rfl
  · exact hq ▸ hne

end Qca9377
