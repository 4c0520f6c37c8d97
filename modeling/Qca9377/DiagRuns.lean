import Qca9377.Diag

namespace Qca9377
open Bytes Interleaving
set_option autoImplicit true

variable {s t u : CEDiag}

/-- What an access of the host leaves alone: CORE_CTRL, the target's memory and its history, and
what has landed. -/
structure CEDiag.Beside (s t : CEDiag) : Prop where
  coreCtrl : t.coreCtrl = s.coreCtrl
  contents : t.mem.contents = s.mem.contents
  earlier : t.mem.earlier = s.mem.earlier
  landed : t.mem.landed = s.mem.landed

instance : Std.Refl CEDiag.Beside := ⟨fun _ => ⟨rfl, rfl, rfl, rfl⟩⟩

instance : IsTrans CEDiag CEDiag.Beside :=
  ⟨fun _ _ _ h h' => ⟨h'.1.trans h.1, h'.2.trans h.2, h'.3.trans h.3, h'.4.trans h.4⟩⟩

theorem CEDiag.Beside.symm (h : s.Beside t) : t.Beside s :=
  ⟨h.1.symm, h.2.symm, h.3.symm, h.4.symm⟩

theorem within_op {update : CEDiag → CEDiag} {next : CEDiag → Prog CEDiag α}
    (hu : ∀ s, CEDiag.Beside s (update s)) (hn : ∀ s, (next s).Within CEDiag.Beside) :
    (Prog.op update next).Within CEDiag.Beside := fun s => ⟨hu s, hn s⟩

theorem pollDiag_within (done : CEDiag → Bool) (n : Nat) :
    (pollDiag done n).Within CEDiag.Beside := by
  induction n with
  | zero => trivial
  | succ n ih =>
    refine within_op (fun _ => ⟨rfl, rfl, rfl, rfl⟩) ?_
    intro s
    dsimp only [Prog.ret_bind, bind_eq_bind]
    split
    · trivial
    · exact ih

theorem logged_within (f : CEDiag → DiagLog) :
    (Prog.op id fun s => .op (CEDiag.log (f s)) fun _ => .ret false).Within CEDiag.Beside := by
  refine within_op (fun _ => ⟨rfl, rfl, rfl, rfl⟩) ?_
  intro s
  refine within_op (fun _ => ⟨rfl, rfl, rfl, rfl⟩) ?_
  exact fun _ => trivial

theorem xfer_within (postAddr sendAddr : DiagAddr) (len : Nat) :
    (CEDiag.xfer postAddr sendAddr len).Within CEDiag.Beside := by
  unfold CEDiag.xfer
  simp only [bind_eq_bind, pure_eq_ret, read_bind, modify_bind]
  refine within_op (fun _ => ⟨rfl, rfl, rfl, rfl⟩) ?_
  intro s
  refine within_op (fun _ => ⟨rfl, rfl, rfl, rfl⟩) ?_
  intro s
  refine within_op (fun _ => ⟨rfl, rfl, rfl, rfl⟩) ?_
  intro s
  refine within_op (fun _ => ⟨rfl, rfl, rfl, rfl⟩) ?_
  intro s
  refine within_op (fun _ => ⟨rfl, rfl, rfl, rfl⟩) ?_
  intro s
  refine within_op (fun _ => ⟨rfl, rfl, rfl, rfl⟩) ?_
  intro s
  apply (pollDiag_within _ _).bind
  intro sent
  split
  · exact logged_within _
  apply (pollDiag_within _ _).bind
  intro completed
  split
  · exact logged_within _
  refine within_op (fun _ => ⟨rfl, rfl, rfl, rfl⟩) ?_
  intro s
  refine within_op (fun _ => ⟨rfl, rfl, rfl, rfl⟩) ?_
  intro t
  split
  · exact within_op (fun _ => ⟨rfl, rfl, rfl, rfl⟩) fun _ => trivial
  · trivial

theorem readMem_within (targAddr len : Nat) :
    (CEDiag.readMem targAddr len).Within CEDiag.Beside := by
  unfold CEDiag.readMem CEDiag.targToCeAddr
  simp only [bind_eq_bind, pure_eq_ret, read_bind, Prog.op_bind, Prog.ret_bind]
  refine within_op (fun _ => ⟨rfl, rfl, rfl, rfl⟩) ?_
  intro s
  split
  · trivial
  refine within_op (fun _ => ⟨rfl, rfl, rfl, rfl⟩) ?_
  intro s
  apply (xfer_within _ _ _).bind
  intro ok
  split
  · trivial
  · exact within_op (fun _ => ⟨rfl, rfl, rfl, rfl⟩) fun _ => trivial

theorem writeMem_within (targAddr : Nat) (buf : List UInt8) :
    (CEDiag.writeMem targAddr buf).Within CEDiag.Beside := by
  unfold CEDiag.writeMem CEDiag.targToCeAddr
  simp only [bind_eq_bind, pure_eq_ret, read_bind, modify_bind, Prog.op_bind, Prog.ret_bind]
  refine within_op (fun _ => ⟨rfl, rfl, rfl, rfl⟩) ?_
  intro s
  split
  · trivial
  refine within_op (fun _ => ⟨rfl, rfl, rfl, rfl⟩) ?_
  intro s
  refine within_op (fun _ => ⟨rfl, rfl, rfl, rfl⟩) ?_
  exact fun _ => xfer_within _ _ _

section Paths

variable {R : CEDiag → CEDiag → Prop}

/-- Steps of the environment and accesses of the host that leave the target alone. -/
def CEDiag.Path (R : CEDiag → CEDiag → Prop) : CEDiag → CEDiag → Prop :=
  Relation.ReflTransGen fun s t => R s t ∨ s.Beside t

instance : Std.Refl (CEDiag.Path R) := ⟨fun _ => .refl⟩

instance : IsTrans CEDiag (CEDiag.Path R) := ⟨fun _ _ _ h h' => h.trans h'⟩

theorem CEDiag.Path.of_step (h : R s t) : CEDiag.Path R s t := .single (.inl h)

theorem CEDiag.Path.of_beside (h : s.Beside t) : CEDiag.Path R s t := .single (.inr h)

/-- A fact that is never lost again. -/
def Lasting (R : CEDiag → CEDiag → Prop) (F : CEDiag → Prop) : Prop :=
  ∀ s t, CEDiag.Path R s t → F s → F t

theorem Lasting.and (hF : Lasting R F) (hG : Lasting R G) : Lasting R fun s => F s ∧ G s :=
  fun s t h hs => ⟨hF s t h hs.1, hG s t h hs.2⟩

theorem path_lasting (s₀ : CEDiag) : Lasting R (CEDiag.Path R s₀) :=
  fun _ _ h hs => hs.trans h

theorem CEDiag.Engine.coreCtrl (h : CEDiag.Engine s t) : t.coreCtrl = s.coreCtrl := by
  cases h <;> rfl

theorem CEDiag.Path.coreCtrl (hR : ∀ s t, R s t → CEDiag.Engine s t) (h : CEDiag.Path R s t) :
    t.coreCtrl = s.coreCtrl := by
  induction h with
  | refl => rfl
  | tail _ h ih =>
    cases h with
    | inl h => exact (hR _ _ h).coreCtrl.trans ih
    | inr h => exact h.coreCtrl.trans ih

/-- Nothing is outstanding, exactly `l` has landed, and `F` is known. -/
def CEDiag.Clear (l : List (Nat × List UInt8)) (F : CEDiag → Prop) (s : CEDiag) : Prop :=
  s.Settled (fun m => m.landed = l) ∧ F s

/-- Engine and target leave it at landings with `P`. -/
def CEDiag.Left (R : CEDiag → CEDiag → Prop) (P : List (Nat × List UInt8) → Prop)
    (F : CEDiag → Prop) (s : CEDiag) : Prop :=
  ∀ t, Relation.ReflTransGen R s t → t.Idle ∧ P t.mem.landed ∧ F t

theorem clear_assertion (hR : ∀ s t, R s t → CEDiag.Engine s t)
    (l : List (Nat × List UInt8)) (hF : Lasting R F) :
    Assertion R (fun _ => True) (CEDiag.Clear l F) where
  step := fun s t h hs =>
    ⟨(settled_assertion fun _ _ h => h).step h.1 (hR s t hs), hF s t (.of_step hs) h.2⟩
  inv := fun _ _ => trivial

end Paths

/-- A transfer into the bounce buffer, with what has landed so far. -/
def Transfer.landing (T : Transfer) (l : List (Nat × List UInt8)) (hpost : T.post = .bounce) :
    Transfer where
  post := T.post
  send := T.send
  len := T.len
  ready := fun m => T.ready m ∧ m.landed = l
  good := fun data m => T.good data m ∧ m.landed = l
  done := fun m => T.done m ∧ m.landed = l
  ready_kept := fun m c h => ⟨T.ready_kept m c h.1, h.2⟩
  good_kept := fun data m c h => ⟨T.good_kept data m c h.1, h.2⟩
  done_kept := fun m c h => ⟨T.done_kept m c h.1, h.2⟩
  fetch := fun m h => ⟨T.fetch m h.1, h.2⟩
  length := fun data m h => T.length data m h.1
  fill := by
    rintro data m ⟨h, hl⟩
    refine ⟨T.fill data m h, ?_⟩
    rw [hpost]
    exact hl

theorem Transfer.landing_touched {T : Transfer} {hpost : T.post = .bounce}
    (h : (T.landing l hpost).Touched m) : m.landed = l := by
  rcases h with h | ⟨data, h⟩ | h
  · exact h.2
  · exact h.2
  · exact h.2

/-- A read of a window with nothing outstanding: nothing lands, and if it succeeds nothing is
outstanding afterwards. -/
theorem readMem_landed (targAddr len : Nat) (h : s.Settled fun m => m.landed = l) :
    Safe CEDiag.Engine (fun _ => True) (fun _ _ => True)
      (fun r t => match r with
        | none => t.Idle ∧ t.mem.landed = l
        | some out => t.Settled fun m => m.landed = l ∧ ∃ c, m.HeldSince s.mem.earlier c ∧
            out = bytesAt c (ceAddrOf s.coreCtrl targAddr) len)
      (CEDiag.readMem targAddr len) s := by
  let T := (readTransfer s.mem.earlier (ceAddrOf s.coreCtrl targAddr) len).landing l rfl
  have hready : T.ready s.mem := ⟨List.prefix_refl _, h.mem⟩
  unfold CEDiag.readMem CEDiag.targToCeAddr
  simp only [bind_eq_bind, pure_eq_ret, read_bind, Prog.op_bind, Prog.ret_bind]
  apply entry_safe h.toDrained T.ready_kept hready
  · intro t ht
    apply Safe.ret (rests_assertion s T.ready_kept) ht
    intro u hu
    refine ⟨hu.idle h.toIdle, ?_⟩
    obtain ⟨-, drri, m, rfl, hm⟩ := hu
    exact hm.2
  intro hpos hmax t ht haddr
  rw [haddr]
  apply Safe.bind
  apply ((xfer_ended T hpos hmax h.toIdle h.toDrained ht).always).mono (fun _ => id) (fun _ _ => id)
  intro r t ht
  cases r with
  | false =>
    exact fun u hu => ⟨trivial, (ht u hu).1, Transfer.landing_touched (ht u hu).2⟩
  | true =>
    have hdone : t.Settled T.done := (ht t .refl).2
    apply Safe.op (settled_assertion T.done_kept) hdone (fun _ _ => trivial)
    intro t ht
    obtain ⟨⟨c, hc, hout⟩, hl⟩ := ht.mem
    have hkept := heldSince_kept s.mem.earlier c
    have hmem : MemKept fun m => m.landed = l ∧ m.HeldSince s.mem.earlier c :=
      fun m c h => ⟨h.1, hkept m c h.2⟩
    apply Safe.ret (settled_assertion hmem) ⟨ht.toIdle, ht.toDrained, hl, hc⟩
    exact fun u hu => ⟨hu.toIdle, hu.toDrained, hu.mem.1, c, hu.mem.2, hout⟩

theorem writeMem_landed (targAddr : Nat) (buf : List UInt8)
    (h : s.Settled fun m => m.landed = l) :
    Safe CEDiag.Engine (fun _ => True) (fun _ _ => True)
      (fun r t => if r then
          t.Settled fun m => m.landed = l ++ [(ceAddrOf s.coreCtrl targAddr, buf)]
        else t.Idle ∧
          (t.mem.landed = l ∨ t.mem.landed = l ++ [(ceAddrOf s.coreCtrl targAddr, buf)]))
      (CEDiag.writeMem targAddr buf) s := by
  let T := writeTransfer l (ceAddrOf s.coreCtrl targAddr) buf
  have hkept : MemKept fun m => m.landed = l := fun _ _ h => h
  unfold CEDiag.writeMem CEDiag.targToCeAddr
  simp only [bind_eq_bind, pure_eq_ret, read_bind, modify_bind, Prog.op_bind, Prog.ret_bind]
  apply entry_safe h.toDrained hkept h.mem
  · intro t ht
    apply Safe.ret (rests_assertion s hkept) ht
    intro u hu
    refine ⟨hu.idle h.toIdle, .inl ?_⟩
    obtain ⟨-, drri, m, rfl, hm⟩ := hu
    exact hm
  intro hpos hmax t ht haddr
  rw [haddr]
  apply Safe.op (rests_assertion s hkept) ht (fun _ _ => trivial)
  rintro t ⟨hs, drri, m, rfl, hm⟩
  have hready : s.Rests T.ready
      (CEDiag.setMem (m.copyIn buf) { s with currentDRRI := drri, mem := m }) := by
    refine ⟨hs, drri, m.copyIn buf, rfl, hm, ?_⟩
    rw [DiagMem.copyIn, poke, List.take_zero, List.nil_append, List.take_left]
  apply (xfer_ended T hpos hmax h.toIdle h.toDrained hready).mono (fun _ => id) (fun _ _ => id)
  rintro r t ⟨hidle, hend⟩
  cases r with
  | true => exact hend
  | false =>
    refine ⟨hidle, ?_⟩
    rcases hend with hend | ⟨data, hend⟩ | hend
    · exact .inl hend.1
    · exact .inl hend.1
    · exact .inr hend

section Accesses

variable {R : CEDiag → CEDiag → Prop}

/-- A call with its result, for a smaller environment, and the path it takes. -/
theorem path_safe {p : Prog CEDiag α} {Q : α → CEDiag → Prop}
    (hR : ∀ s t, R s t → CEDiag.Engine s t) (hp : p.Within CEDiag.Beside)
    (h : Safe CEDiag.Engine (fun _ => True) (fun _ _ => True) Q p s) :
    Safe R (fun _ => True) (fun _ _ => True)
      (fun a t => ∀ u, Relation.ReflTransGen R t u → Q a u ∧ CEDiag.Path R s u) p s :=
  ((h.antitone hR).within (fun _ _ => CEDiag.Path.of_step)
    (hp.mono fun _ _ => CEDiag.Path.of_beside)).always

/-- A successful read hands out what the target has held since the call began. -/
theorem readMem_clear (hR : ∀ s t, R s t → CEDiag.Engine s t) (hF : Lasting R F)
    (targAddr len : Nat) (h : s.Clear l F) :
    Safe R (fun _ => True) (fun _ _ => True)
      (fun r t => match r with
        | none => t.Left R (· = l) F
        | some out => t.Clear l F ∧ CEDiag.Path R s t ∧ ∃ c, t.mem.HeldSince s.mem.earlier c ∧
            out = bytesAt c (ceAddrOf s.coreCtrl targAddr) len)
      (CEDiag.readMem targAddr len) s := by
  have hpath := path_safe hR (readMem_within targAddr len) (readMem_landed targAddr len h.1)
  apply hpath.mono (fun _ => id) (fun _ _ => id)
  intro r t ht
  cases r with
  | none =>
    intro u hu
    obtain ⟨⟨hidle, hl⟩, hst⟩ := ht u hu
    exact ⟨hidle, hl, hF s u hst h.2⟩
  | some out =>
    obtain ⟨hset, hst⟩ := ht t .refl
    obtain ⟨hl, hout⟩ := hset.mem
    exact ⟨⟨⟨hset.toIdle, hset.toDrained, hl⟩, hF s t hst h.2⟩, hst, hout⟩

theorem writeMem_clear (hR : ∀ s t, R s t → CEDiag.Engine s t) (hF : Lasting R F)
    (targAddr : Nat) (buf : List UInt8) (h : s.Clear l F) :
    Safe R (fun _ => True) (fun _ _ => True)
      (fun r t => if r then t.Clear (l ++ [(ceAddrOf s.coreCtrl targAddr, buf)]) F
        else t.Left R (fun l' => l' = l ∨ l' = l ++ [(ceAddrOf s.coreCtrl targAddr, buf)]) F)
      (CEDiag.writeMem targAddr buf) s := by
  have hpath := path_safe hR (writeMem_within targAddr buf) (writeMem_landed targAddr buf h.1)
  apply hpath.mono (fun _ => id) (fun _ _ => id)
  intro r t ht
  cases r with
  | false =>
    intro u hu
    obtain ⟨⟨hidle, hl⟩, hst⟩ := ht u hu
    exact ⟨hidle, hl, hF s u hst h.2⟩
  | true => exact ⟨(ht t .refl).1, hF s t (ht t .refl).2 h.2⟩

end Accesses

end Qca9377
