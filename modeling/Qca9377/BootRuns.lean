import Qca9377.BootTarget

namespace Qca9377
open Bytes Interleaving
set_option autoImplicit true

variable {answer : List (List UInt8) → List UInt8} {P : List (List UInt8)} {n : Nat}

/-- Between calls, with these frames posted and so many answers taken. -/
structure Rest (answer : List (List UInt8) → List UInt8) (P : List (List UInt8)) (n : Nat)
    (h : Host) : Prop where
  idle : BmiIdle answer h
  posted : h.fCtrl.src.posted = P
  received : h.fCtrl.dst.received.length = n

/-- Between calls, with every query answered. -/
def Clear (answer : List (List UInt8) → List UInt8) (P : List (List UInt8)) (h : Host) : Prop :=
  Rest answer P (queries P).length h

theorem Rest.engine (h : Rest answer P n t) (hs : Host.CtrlEngine (due answer) t u) :
    Rest answer P n u := by
  refine ⟨h.idle.engine hs, ?_, ?_⟩
  · cases hs with
    | src hs => exact ((SrcRing.Same.refl _).engine hs).posted.trans h.posted
    | dst => exact h.posted
  · cases hs with
    | src => exact h.received
    | dst hd =>
      have hsame := hd.same.received
      exact (congrArg List.length hsame).trans h.received

theorem rest_assertion (X : Bmi → Prop) :
    Assertion (Host.CtrlEngine (due answer)) (fun _ => True)
      (fun t => Rest answer P n t ∧ X t.bmi) where
  step := fun t u h hs => by
    refine ⟨h.1.engine hs, ?_⟩
    cases hs with
    | src => exact h.2
    | dst => exact h.2
  inv := fun _ _ => trivial

theorem queries_silent {fs : List (List UInt8)} (hfs : ∀ f ∈ fs, responseBearing f = false) :
    queries (P ++ fs) = queries P := by
  have hnone : fs.filter responseBearing = [] := by
    apply List.filter_eq_nil_iff.2
    intro f hf
    rw [hfs f hf]
    exact Bool.false_ne_true
  rw [queries, List.filter_append, hnone, List.append_nil]
  rfl

/-- A program of the boot next to its target ends in such states. -/
abbrev Ends (answer : List (List UInt8) → List UInt8) (Q : α → Host → Prop) (p : Prog Host α)
    (h : Host) : Prop :=
  Safe (Host.CtrlEngine (due answer)) (fun _ => True) (fun _ _ => True) Q p h

section Calls

theorem ends_any (hQ : ∀ u, Q a u) : Ends answer Q (.ret a) h := fun u _ => ⟨trivial, hQ u⟩

theorem ends_ret (h : Rest answer P n t) (hQ : ∀ u, Rest answer P n u → Q a u) :
    Ends answer Q (.ret a) t :=
  .ret (rest_assertion fun _ => True) ⟨h, trivial⟩ fun u hu => hQ u hu.1

theorem ends_orFail {p : Prog Host Bool} {k : Prog Host α} (hp : Ends answer X p h)
    (hfail : ∀ t, Q fail t) (hk : ∀ t, X true t → Ends answer Q k t) :
    Ends answer Q (p.bind fun ok => if (!ok) = true then .ret fail else k) h := by
  apply Safe.bind
  apply hp.mono (fun _ => id) (fun _ _ => id)
  intro ok t ht
  cases ok with
  | false => exact fun u _ => ⟨trivial, hfail u⟩
  | true => exact hk t ht

theorem send_ends (h : Rest answer P n t) (hq : responseBearing cmd = false) :
    Ends answer (fun r u => Rest answer (P ++ [cmd]) n u ∨ r = false ∧ Rest answer P n u)
      (CEManager.send cmd) t := by
  have hdue := h.idle.pending
  have hdue' := h.idle.pending
  rw [← queries_concat_silent _ hq] at hdue'
  apply (ctrlSend_safe (rxBetween_outlasts hdue') h.idle.at).mono (fun _ => id) (fun _ _ => id)
  have hrest {P' : List (List UInt8)} {u : Host}
      (hd : (queries P').length ≤ t.fCtrl.dst.received.length + 1)
      (hu : BmiAt answer P' (RxBetween t.fCtrl.dst.received t.fCtrl.dst.posts) u) :
      Rest answer P' n u := by
    have hlen := congrArg List.length hu.rx.received
    exact ⟨hu.idle hu.rx.idle hlen.ge hd, hu.posted, hlen.trans h.received⟩
  rw [h.posted] at hdue hdue'
  intro r u hu
  rw [h.posted] at hu
  cases r with
  | true => exact .inl (hrest hdue' (hu.1 rfl))
  | false =>
    rcases hu.2 with hu | hu
    · exact .inr ⟨rfl, hrest hdue hu⟩
    · exact .inl (hrest hdue' hu)

/-- A sequence of sends that stops at the first that fails. -/
theorem all_ends (fs : List (List UInt8)) (hfs : ∀ f ∈ fs, responseBearing f = false)
    (h : Rest answer P n t) :
    Ends answer (fun r u => (r = true → Rest answer (P ++ fs) n u) ∧
      ∃ pre, pre <+: fs ∧ Rest answer (P ++ pre) n u) ((Calls.all fs).run CEManager.send) t := by
  induction fs generalizing P t with
  | nil =>
    apply ends_ret h
    intro u hu
    rw [← List.append_nil P] at hu
    exact ⟨fun _ => hu, [], List.prefix_rfl, hu⟩
  | cons f fs ih =>
    apply Safe.bind
    apply (send_ends h (hfs f List.mem_cons_self)).mono (fun _ => id) (fun _ _ => id)
    intro r u hu
    cases r with
    | false =>
      rcases hu with hu | ⟨-, hu⟩
      · apply ends_ret hu
        exact fun v hv => ⟨nofun, [f], ⟨fs, rfl⟩, hv⟩
      · apply ends_ret hu
        intro v hv
        rw [← List.append_nil P] at hv
        exact ⟨nofun, [], List.nil_prefix, hv⟩
    | true =>
      have hsent : Rest answer (P ++ [f]) n u := hu.resolve_right fun hno => by cases hno.1
      have hrest := ih (fun g hg => hfs g (List.mem_cons_of_mem f hg)) hsent
      apply hrest.mono (fun _ => id) (fun _ _ => id)
      intro r v hv
      obtain ⟨hall, pre, hpre, hv⟩ := hv
      rw [List.append_assoc] at hall hv
      exact ⟨hall, f :: pre, (List.prefix_cons_inj f).2 hpre, hv⟩

theorem writeMemoryCmds_silent (hf : f ∈ writeMemoryCmds stack addr buf) :
    responseBearing f = false := by
  obtain ⟨a, x, -, rfl⟩ := mem_writeFrames hf
  exact responseBearing_bmiCmd _ _ _

theorem writeMemory_ends (hs : stack.length = kBmiMaxDataSize) (addr : Nat) (buf : List UInt8)
    (h : Clear answer P t) :
    Ends answer
      (fun r u => r = true → buf ≠ [] ∧ Clear answer (P ++ writeMemoryCmds stack addr buf) u)
      (Bmi.writeMemory stack addr buf) t := by
  by_cases hbuf : buf = []
  · rw [Bmi.writeMemory, if_pos hbuf]
    apply ends_any
    intro u hr
    cases hr
  · have hall := all_ends (writeMemoryCmds stack addr buf) (fun f hf => writeMemoryCmds_silent hf) h
    rw [writeMemoryCmds, ← Bmi.writeChunksSends_all stack addr buf ((Nat.sub_le _ _).trans hs.ge)]
      at hall
    have hrun := Bmi.writeMemory_run stack addr buf
    rw [Bmi.writeMemorySends, if_neg hbuf] at hrun
    rw [← hrun]
    apply hall.mono (fun _ => id) (fun _ _ => id)
    intro r u hu hr
    refine ⟨hbuf, ?_⟩
    have hsame : queries (P ++ writeMemoryCmds stack addr buf) = queries P :=
      queries_silent fun f hf => writeMemoryCmds_silent hf
    rw [Clear, hsame]
    exact hu.1 hr

theorem writeMemoryCmds_word (stack : List UInt8) (itemOffset val : Nat)
    (hs : stack.length = kBmiMaxDataSize) :
    writeMemoryCmds stack (kHostInterestAddress + itemOffset) (encodeLE 4 val) =
      [writeWord itemOffset val] := by
  have hlen := encodeLE_length 4 val
  have hpad : Bmi.writePad stack (encodeLE 4 val) = [] := by
    apply List.eq_nil_of_length_eq_zero
    rw [Bmi.writePad_length ((Nat.sub_le _ _).trans hs.ge), hlen]
    rfl
  have hne : encodeLE 4 val ≠ [] := List.ne_nil_of_length_eq_add_one hlen
  have hcap : (encodeLE 4 val).length ≤ kBmiMaxDataSize - 12 := hlen.trans_le (by decide)
  rw [writeMemoryCmds, hpad, List.append_nil, pieces_cons (by decide) hne,
    List.take_of_length_le hcap, List.drop_of_length_le hcap, pieces_nil, Bmi.writeFrames,
    Bmi.writeFrames, hlen]
  rfl

theorem write32_ends (hs : stack.length = kBmiMaxDataSize) (itemOffset val : Nat)
    (h : Clear answer P t) :
    Ends answer (fun r u => r = true → Clear answer (P ++ [writeWord itemOffset val]) u)
      (Bmi.write32 stack itemOffset val) t := by
  rw [← writeMemoryCmds_word stack itemOffset val hs]
  apply (writeMemory_ends hs _ _ h).mono (fun _ => id) (fun _ _ => id)
  exact fun r u hu hr => (hu hr).2

theorem lzStream_silent (hf : f ∈ Bmi.lzStream addr data) : responseBearing f = false := by
  have hstart (args : List Nat) : responseBearing (bmiCmd kBmiLzStreamStart args) = false := by
    rw [bmiCmd_bare]
    exact responseBearing_bmiCmd _ _ _
  rcases List.mem_cons.1 hf with rfl | hf
  · exact hstart _
  rcases List.mem_append.1 hf with hf | hf
  · obtain ⟨x, -, rfl⟩ := List.mem_map.1 hf
    exact responseBearing_bmiCmd _ _ _
  · rw [List.mem_singleton.1 hf]
    exact hstart _

theorem fastDownload_ends (addr : Nat) (buf : List UInt8) (h : Rest answer P n t) :
    Ends answer (fun r u =>
      (r = true → buf ≠ [] ∧ Rest answer (P ++ Bmi.lzStream addr (Bmi.lzPayloads buf)) n u) ∧
        ∃ pre, pre <+: Bmi.lzStream addr (Bmi.lzPayloads buf) ∧ Rest answer (P ++ pre) n u)
      (Bmi.fastDownload addr buf) t := by
  by_cases hbuf : buf = []
  · unfold Bmi.fastDownload
    rw [if_pos hbuf]
    apply ends_ret h
    intro u hu
    rw [← List.append_nil P] at hu
    exact ⟨nofun, [], List.nil_prefix, hu⟩
  · rw [Bmi.fastDownload_all addr hbuf]
    apply (all_ends _ (fun f hf => lzStream_silent hf) h).mono (fun _ => id) (fun _ _ => id)
    exact fun r u hu => ⟨fun hr => ⟨hbuf, hu.1 hr⟩, hu.2⟩

theorem Rest.setBmi (h : Rest answer P n t) (b : Bmi) : Rest answer P n (t.setBmi b) :=
  ⟨h.idle.setBmi b, h.posted, h.received⟩

/-- A query that finds no answer outstanding hands out its own answer, or fails. -/
theorem exchange_ends (h : Clear answer P t) (q : BmiQuery) (respLen : Nat) :
    Ends answer (fun r u =>
      (∀ resp nbytes, r = some (resp, nbytes) → Clear answer (P ++ [q.cmd]) u ∧
        resp = (answerTo answer P q.cmd).take respLen) ∧
      ∃ pre k, pre <+: [q.cmd] ∧ Rest answer (P ++ pre) k u)
      (Bmi.exchangeWait q.cmd respLen) t := by
  have hnil (r : Option (List UInt8 × Nat)) (u : Host) (k : Nat)
      (hr : r = none) (hu : Rest answer P k u) :
      (∀ resp nbytes, r = some (resp, nbytes) → Clear answer (P ++ [q.cmd]) u ∧
        resp = (answerTo answer P q.cmd).take respLen) ∧
      ∃ pre k, pre <+: [q.cmd] ∧ Rest answer (P ++ pre) k u := by
    rw [hr]
    rw [← List.append_nil P] at hu
    exact ⟨fun _ _ => nofun, [], k, List.nil_prefix, hu⟩
  cases hdone : t.bmi.fDoneSent with
  | true =>
    unfold Bmi.exchangeWait Bmi.setStage
    simp only [bind_eq_bind, pure_eq_ret, read_bind, modify_bind]
    apply Safe.op (rest_assertion fun b => b.fDoneSent = true) ⟨h, hdone⟩ (fun _ _ => trivial)
    intro u hu
    rw [if_pos hu.2]
    apply Safe.op (rest_assertion fun _ => True) ⟨hu.1, trivial⟩ (fun _ _ => trivial)
    intro v hv
    exact ends_ret (hv.1.setBmi _) fun w hw => hnil _ w _ rfl hw
  | false =>
    have hnone : (queries t.fCtrl.src.posted).length = t.fCtrl.dst.received.length := by
      rw [h.posted, h.received]
    apply (exchangeWait_ends h.idle q.bearing hnone respLen).mono (fun _ => id) (fun _ _ => id)
    rw [h.posted]
    intro r u hu
    cases r with
    | none =>
      refine ⟨fun _ _ => nofun, ?_⟩
      rcases hu.posted with hp | hp
      · exact (hnil none u _ rfl ⟨hu.idle, hp, rfl⟩).2
      · exact ⟨[q.cmd], _, List.prefix_rfl, hu.idle, hp, rfl⟩
    | some x =>
      obtain ⟨hp, hlen⟩ := hu.taken rfl
      have hclear : Clear answer (P ++ [q.cmd]) u := ⟨hu.idle, hp, hlen.symm⟩
      refine ⟨fun resp nbytes hr => ⟨hclear, ?_⟩, [q.cmd], _, List.prefix_rfl, hclear⟩
      exact (hu.post resp nbytes hr).2.2

theorem read32_ends (itemOffset : Nat) (h : Clear answer P t) :
    Ends answer (fun r u => ∀ val, r = some val → Clear answer (P ++ [readWord itemOffset]) u ∧
      val = decodeLE ((answerTo answer P (readWord itemOffset)).take 4))
      (Bmi.read32 itemOffset) t := by
  have hlen : ¬ (4 = 0 ∨ kBmiMaxDataSize < 4) := by decide
  rw [Bmi.read32, readMemory_query hlen]
  apply Safe.bind
  apply Safe.map
  apply (exchange_ends h (.readMemory (kHostInterestAddress + itemOffset) 4) 4).mono
    (fun _ => id) (fun _ _ => id)
  intro r u hu
  cases r with
  | none =>
    apply ends_any
    intro u val hval
    cases hval
  | some x =>
    obtain ⟨hclear, hresp⟩ := hu.1 x.1 x.2 rfl
    apply ends_ret hclear
    intro v hv val hval
    rw [← Option.some.inj hval, hresp]
    exact ⟨hv, rfl⟩

theorem execute_ends (addr param : Nat) (h : Clear answer P t) :
    Ends answer (fun _ u => ∃ pre k, pre <+: [bmiCmd kBmiExecute [addr, param]] ∧
      Rest answer (P ++ pre) k u) (Bmi.execute addr param) t := by
  apply Safe.bind
  apply (exchange_ends h (.execute addr param) 4).mono (fun _ => id) (fun _ _ => id)
  intro r u hu
  obtain ⟨pre, k, hpre, hrest⟩ := hu.2
  cases r with
  | none => exact ends_ret hrest fun v hv => ⟨pre, k, hpre, hv⟩
  | some x => exact ends_ret hrest fun v hv => ⟨pre, k, hpre, hv⟩

end Calls

section Stages

/-- The option flags of a target that is sent these frames and asked for them. -/
def askedWord (answer : List (List UInt8) → List UInt8) (P : List (List UInt8))
    (itemOffset : Nat) : Nat := decodeLE ((answerTo answer P (readWord itemOffset)).take 4)

theorem configureTarget_ends (stack : Payload) (h : Clear answer P t) :
    Ends answer (fun r u => r = true →
      Clear answer (P ++ configureCmds (askedWord answer (P ++ [writeWord 0x00 2]) 0x10)) u)
      (Fw.configureTarget stack) t := by
  have hwrite {P : List (List UInt8)} {u : Host} (itemOffset val : Nat) (hu : Clear answer P u) :
      Ends answer (fun r u => r = true → Clear answer (P ++ [writeWord itemOffset val]) u)
        (Bmi.write32 stack.1 itemOffset val) u := write32_ends stack.2 itemOffset val hu
  apply ends_orFail (hwrite _ _ h) fun _ => nofun
  intro u hu
  apply Safe.bind
  apply (read32_ends 0x10 (hu rfl)).mono (fun _ => id) (fun _ _ => id)
  intro r u hu
  cases r with
  | none => exact ends_any fun _ => nofun
  | some opt =>
    obtain ⟨hu, hopt⟩ := hu opt rfl
    have hasked : opt = askedWord answer (P ++ [writeWord 0x00 2]) 0x10 := hopt
    rw [← hasked]
    apply ends_orFail (hwrite _ _ hu) fun _ => nofun
    intro u hu
    apply ends_orFail (hwrite _ _ (hu rfl)) fun _ => nofun
    intro u hu
    apply ends_orFail (hwrite _ _ (hu rfl)) fun _ => nofun
    intro u hu
    apply ends_orFail (hwrite _ _ (hu rfl)) fun _ => nofun
    intro u hu
    apply ends_ret (hu rfl)
    intro v hv _
    simp only [List.append_assoc] at hv
    exact hv

theorem downloadBoardData_ends (stack : Payload) (data : List UInt8) (h : Clear answer P t) :
    Ends answer (fun r u => r = true →
      (askedWord answer P Fw.kHiBoardDataOff ≠ 0 ∧ data.take Fw.kBoardDataSz ≠ []) ∧
        Clear answer (P ++ boardCmds stack.1 (askedWord answer P Fw.kHiBoardDataOff)
          (data.take Fw.kBoardDataSz)) u)
      (Fw.downloadBoardData stack data) t := by
  apply Safe.bind
  apply (read32_ends Fw.kHiBoardDataOff h).mono (fun _ => id) (fun _ _ => id)
  intro r u hu
  cases r with
  | none => exact ends_any fun _ => nofun
  | some boardAddr =>
    obtain ⟨hu, haddr⟩ := hu boardAddr rfl
    have hasked : boardAddr = askedWord answer P Fw.kHiBoardDataOff := haddr
    rw [← hasked]
    dsimp only
    split
    · exact ends_any fun _ => nofun
    · next hne =>
      apply ends_orFail (writeMemory_ends stack.2 _ _ hu) fun _ => nofun
      intro u hu
      obtain ⟨hdata, hu⟩ := hu rfl
      apply ends_orFail (write32_ends stack.2 _ _ hu) fun _ => nofun
      intro u hu
      apply ends_ret (hu rfl)
      intro v hv _
      simp only [List.append_assoc] at hv
      exact ⟨⟨hne, hdata⟩, hv⟩

/-- Whatever becomes of the OTP stage, it has posted a first part of its frames. -/
theorem otpStage_ends (E : Embedded) (h : Rest answer P n t) (hP : n = (queries P).length) :
    Ends answer (fun _ u => ∃ otp k, otp <+: otpCmds E ∧ Rest answer (P ++ otp) k u)
      (Boot.otpStage E) t := by
  have hnone {r : Option (Nat × Nat)} :
      Ends answer (fun _ u => ∃ otp k, otp <+: otpCmds E ∧ Rest answer (P ++ otp) k u)
        (.ret r) t := by
    apply ends_ret h
    intro u hu
    rw [← List.append_nil P] at hu
    exact ⟨[], _, List.nil_prefix, hu⟩
  unfold Boot.otpStage
  split
  · next himage =>
    unfold Fw.runOtp
    split
    · exact hnone
    · next hbuf =>
      have hcmds : otpCmds E = Bmi.lzStream Fw.kPatchLoadAddr (Bmi.lzPayloads E.otp) ++
          [bmiCmd kBmiExecute [Fw.kPatchLoadAddr, 0x10]] := if_pos ⟨himage.1, himage.2, hbuf⟩
      rw [hcmds]
      apply Safe.bind
      apply (fastDownload_ends Fw.kPatchLoadAddr E.otp h).mono (fun _ => id) (fun _ _ => id)
      intro ok u hu
      obtain ⟨hall, pre, hpre, hu⟩ := hu
      cases ok with
      | false =>
        apply ends_ret hu
        exact fun v hv => ⟨pre, n, hpre.trans (List.prefix_append _ _), hv⟩
      | true =>
        obtain ⟨-, hsent⟩ := hall rfl
        have hclear : Clear answer (P ++ Bmi.lzStream Fw.kPatchLoadAddr (Bmi.lzPayloads E.otp)) u := by
          rw [Clear, queries_silent fun f hf => lzStream_silent hf, ← hP]
          exact hsent
        apply Safe.bind
        apply (execute_ends Fw.kPatchLoadAddr 0x10 hclear).mono (fun _ => id) (fun _ _ => id)
        intro r v hv
        obtain ⟨last, k, hlast, hv⟩ := hv
        rw [List.append_assoc] at hv
        cases r with
        | none =>
          apply ends_ret hv
          exact fun w hw => ⟨_, k, (List.prefix_append_right_inj _).2 hlast, hw⟩
        | some result =>
          apply ends_ret hv
          exact fun w hw => ⟨_, k, (List.prefix_append_right_inj _).2 hlast, hw⟩
  · exact hnone

/-- Nothing is on its way to the target. -/
def Drained (answer : List (List UInt8) → List UInt8) (P : List (List UInt8)) (n : Nat)
    (h : Host) : Prop := Rest answer P n h ∧ h.taken = P

theorem drained_assertion :
    Assertion (Host.CtrlEngine (due answer)) (fun _ => True) (Drained answer P n) where
  step := fun t u h hs => by
    refine ⟨h.1.engine hs, ?_⟩
    cases hs with
    | src hs =>
      have hp : t.fCtrl.src.posted = t.fCtrl.src.consumed := h.1.posted.trans h.2.symm
      exact ((h.1.idle.tx.1.quiet hp).still hs).elim
    | dst => exact h.2
  inv := fun _ _ => trivial

theorem send_drains (h : Rest answer P n t) (hq : responseBearing cmd = false) :
    Ends answer (fun r u => r = true → Drained answer (P ++ [cmd]) n u) (CEManager.send cmd) t := by
  have hsrc := ctrl_src_safe (D := due answer) (I := fun _ _ => True) (h := t)
    (fun _ _ _ _ _ => trivial) (fun _ _ _ _ _ => trivial) (fun _ _ _ _ _ _ => trivial) trivial
    (send_safe cmd h.idle.tx)
  apply ((send_ends h hq).and hsrc).mono (fun _ _ => trivial) (fun _ _ _ => trivial)
  intro r u hu hr
  obtain ⟨hsent, ⟨-, hpost⟩, -⟩ := hu
  have hrest := hsent.resolve_right fun hno => by
    rw [hr] at hno
    cases hno.1
  rw [hr] at hpost
  cases hpost with
  | sent hlen hp hc hl => exact ⟨hrest, hc.trans hrest.posted⟩

theorem done_ends (h : Rest answer P n t) :
    Ends answer (fun r u => r = true → Drained answer (P ++ [bmiCmd kBmiDone []]) n u)
      Bmi.done t := by
  apply ends_orFail (send_drains h (by decide)) fun _ => nofun
  intro u hu
  apply Safe.op drained_assertion (hu rfl) (fun _ _ => trivial)
  intro v hv
  have hset (b : Bmi) : Drained answer (P ++ [bmiCmd kBmiDone []]) n (v.setBmi b) :=
    ⟨hv.1.setBmi b, hv.2⟩
  exact .ret drained_assertion (hset _) fun w hw _ => hw

end Stages

/-- All frames of a boot up to BMI_DONE. -/
def bootCmds (stack : List UInt8) (opt boardAddr : Nat) (data : List UInt8)
    (otp : List (List UInt8)) (fw : List UInt8) : List (List UInt8) :=
  configureCmds opt ++ (boardCmds stack boardAddr data ++
    (otp ++ (Bmi.lzStream Fw.kPatchLoadAddr (Bmi.lzPayloads fw) ++ [bmiCmd kBmiDone []])))

section Boot

/-- Next to its target the boot ends so when it succeeds. -/
abbrev Boots (answer : List (List UInt8) → List UInt8) (Q : Host → Prop) (p : Prog Boot Bool)
    (b : Boot) : Prop :=
  Safe (BootEnv (due answer)) (fun _ => True) (fun _ _ => True) (fun r c => r = true → Q c.host) p b

theorem bootEnv_assertion {A : Host → Prop}
    (hA : Assertion (Host.CtrlEngine (due answer)) (fun _ => True) A) :
    Assertion (BootEnv (due answer)) (fun _ => True) fun c => A c.host where
  step := fun b c h hs => by
    cases hs with
    | engine hs => exact hA.step h hs
    | indicator => exact h
  inv := fun _ _ => trivial

theorem onHost_safe {p : Prog Host α} (h : Ends answer Q p b.host) :
    Safe (BootEnv (due answer)) (fun _ => True) (fun _ _ => True) (fun r c => Q r c.host)
      (Boot.onHost p) b := by
  have hz := Safe.zoom Boot.host Boot.setHost (BootEnv (due answer)) (fun _ => True)
    (fun _ _ => rfl)
    (by
      intro b c _ hs
      cases hs with
      | engine hs => exact ⟨trivial, .single hs⟩
      | indicator => exact ⟨trivial, .refl⟩)
    (fun _ _ _ => trivial) trivial h
  exact hz.mono (fun _ _ => trivial) (fun _ _ _ => trivial) fun _ _ hr => hr.1

theorem boots_any (h : ∀ t, r = true → Q t) : Boots answer Q (.ret r) b :=
  fun c _ => ⟨trivial, h c.host⟩

theorem fail_boots (text : String) (b : Boot) : Boots answer Q (Boot.fail text) b :=
  fun _ _ => ⟨trivial, trivial, fun _ _ => ⟨trivial, trivial, boots_any fun _ => nofun⟩⟩

theorem attempt_boots {p : Prog Host Bool} {k : Prog Boot Bool} (hp : Ends answer X p b.host)
    (hk : ∀ c : Boot, X true c.host → Boots answer Q k c) :
    Boots answer Q
      ((Boot.onHost p).bind fun ok => if (!ok) = true then Boot.fail text else k) b := by
  apply Safe.bind
  apply (onHost_safe hp).mono (fun _ => id) (fun _ _ => id)
  intro ok c hc
  cases ok with
  | false => exact fail_boots text c
  | true => exact hk c hc

theorem publish_boots {A : Host → Prop} {k : Prog Boot Bool}
    (hA : Assertion (Host.CtrlEngine (due answer)) (fun _ => True) A) (h : A b.host)
    (hk : ∀ c : Boot, A c.host → Boots answer Q k c) :
    Boots answer Q ((Boot.publishStage text).bind fun _ => k) b :=
  .op (bootEnv_assertion hA) h (fun _ _ => trivial) fun _ hc => hk _ hc

theorem pollIndicator_safe {A : Host → Prop}
    (hA : Assertion (Host.CtrlEngine (due answer)) (fun _ => True) A) (m : Nat) (val : UInt32)
    (h : A b.host) :
    Safe (BootEnv (due answer)) (fun _ => True) (fun _ _ => True) (fun _ c => A c.host)
      (Boot.pollIndicator m val) b := by
  have hret {c : Boot} {val : UInt32} (h : A c.host) :
      Safe (BootEnv (due answer)) (fun _ => True) (fun _ _ => True) (fun _ c => A c.host)
        (.ret val) c := .ret (bootEnv_assertion hA) h fun _ hc => hc
  induction m generalizing b val with
  | zero => exact hret h
  | succ m ih =>
    apply Safe.op (bootEnv_assertion hA) h (fun _ _ => trivial)
    intro c hc
    dsimp only [Prog.ret_bind]
    split
    · exact ih _ hc
    · split
      · exact hret hc
      · split
        · exact hret hc
        · exact ih _ hc

theorem doneAndWait_boots (h : Rest answer P n b.host) :
    Boots answer (Drained answer (P ++ [bmiCmd kBmiDone []]) n) Boot.doneAndWaitTargetInit b := by
  apply Safe.bind
  apply (onHost_safe (done_ends h)).mono (fun _ => id) (fun _ _ => id)
  intro ok c hc
  cases ok with
  | false => exact boots_any fun _ => nofun
  | true =>
    have hret {r : Bool} {c : Boot} (hc : Drained answer (P ++ [bmiCmd kBmiDone []]) n c.host) :
        Boots answer (Drained answer (P ++ [bmiCmd kBmiDone []]) n) (.ret r) c :=
      .ret (bootEnv_assertion drained_assertion) hc fun _ hd _ => hd
    apply Safe.bind
    apply (pollIndicator_safe drained_assertion _ _ (hc rfl)).mono (fun _ => id) (fun _ _ => id)
    intro val c hc
    split
    · exact hret hc
    · split
      · exact hret hc
      · split
        · exact hret hc
        · exact hret hc

/-- What a boot has done when it succeeds, told by the answers it has got. -/
structure BootEnd (answer : List (List UInt8) → List UInt8) (P : List (List UInt8)) (E : Embedded)
    (stack : Payload) (data : List UInt8) (h : Host) : Prop where
  board : askedWord answer (P ++ configureCmds (askedWord answer (P ++ [writeWord 0x00 2]) 0x10))
    Fw.kHiBoardDataOff ≠ 0 ∧ data ≠ []
  firmware : E.firmware ≠ []
  drained : ∃ otp n, otp <+: otpCmds E ∧ Drained answer (P ++ bootCmds stack.1
    (askedWord answer (P ++ [writeWord 0x00 2]) 0x10)
    (askedWord answer (P ++ configureCmds (askedWord answer (P ++ [writeWord 0x00 2]) 0x10))
      Fw.kHiBoardDataOff) data otp E.firmware) n h

theorem boot_ends (E : Embedded) (fSubVendor fSubDevice : UInt16) (stack : Payload)
    (h : Clear answer P b.host) :
    Boots answer (BootEnd answer P E stack
      ((E.boardData fSubVendor fSubDevice).take Fw.kBoardDataSz))
      (Boot.bootFirmware E fSubVendor fSubDevice stack) b := by
  have hrest {P : List (List UInt8)} {n : Nat} :
      Assertion (Host.CtrlEngine (due answer)) (fun _ => True) (Rest answer P n) :=
    ⟨fun _ _ => Rest.engine, fun _ _ => trivial⟩
  unfold Boot.bootFirmware
  split
  · exact fail_boots _ _
  apply publish_boots hrest h
  intro b h
  apply attempt_boots (configureTarget_ends stack h)
  intro b h
  apply publish_boots hrest (h rfl)
  intro b h
  apply attempt_boots (downloadBoardData_ends stack _ h)
  intro b h
  obtain ⟨hboard, h⟩ := h rfl
  apply publish_boots hrest h
  intro b h
  apply Safe.bind
  apply (onHost_safe (otpStage_ends E h rfl)).mono (fun _ => id) (fun _ _ => id)
  intro ids b h
  obtain ⟨otp, n, hotp, h⟩ := h
  apply attempt_boots (fastDownload_ends Fw.kPatchLoadAddr E.firmware h)
  intro b h
  obtain ⟨hfw, h⟩ := h.1 rfl
  apply publish_boots hrest h
  intro b h
  apply Safe.bind
  apply (doneAndWait_boots h).mono (fun _ => id) (fun _ _ => id)
  intro ok b h
  cases ok with
  | false => exact fail_boots _ _
  | true =>
    apply publish_boots drained_assertion (h rfl)
    intro b h
    apply Safe.ret (bootEnv_assertion drained_assertion) h
    intro c hc _
    simp only [List.append_assoc] at hc
    exact ⟨hboard, hfw, otp, n, hotp, hc⟩

end Boot

section Monitor

variable {T : Target} {m₀ : Monitor} {X : List (List UInt8)}

/-- A host whose frames the target has taken, and that has taken all of the answers. -/
structure Attended (T : Target) (m₀ : Monitor) (h : Host) : Prop where
  tx : TxIdle h.fCtrl.src
  rx : RxIdle h.fCtrl.dst
  taken : h.taken = h.fCtrl.src.posted
  filled : h.fCtrl.dst.filled = replies (m₀.answer T) h.fCtrl.src.posted
  received : h.fCtrl.dst.received.length = h.fCtrl.dst.filled.length

theorem Attended.clear (h : Attended T m₀ t) (hX : t.taken <+: X) :
    Clear (answerAlong (m₀.answer T) X) t.taken t := by
  have hcount : t.fCtrl.dst.received.length = (queries t.taken).length := by
    rw [h.received, h.filled, replies_length, h.taken]
  refine ⟨⟨h.tx, h.rx, ?_, ?_⟩, h.taken.symm, hcount⟩
  · rw [Answered, ← h.taken, answersTo_along hX, h.filled, h.taken]
  · rw [← h.taken, hcount]
    exact Nat.le_succ _

/-- A word that the boot asks for is what the monitor's memory holds when the query gets there. -/
theorem askedWord_along (ho : kHostInterestAddress + itemOffset < 2 ^ 32)
    (h : P ++ [readWord itemOffset] <+: X) :
    askedWord (answerAlong (m₀.answer T) X) P itemOffset = hiWord (m₀.after T P).mem itemOffset := by
  have hq : responseBearing (readWord itemOffset) = true :=
    BmiQuery.bearing (.readMemory (kHostInterestAddress + itemOffset) 4)
  have hlen : (load (m₀.after T P).mem (kHostInterestAddress + itemOffset) 4).length = 4 :=
    load_length _ _ _
  rw [askedWord, answerTo_along hq h, Monitor.answer_concat, readWord,
    Monitor.reply_read ho (by decide), List.take_of_length_le hlen.le]
  rfl

theorem configure_asks (opt : Nat) :
    [writeWord 0x00 2] ++ [readWord 0x10] <+: configureCmds opt := by
  rw [configureCmds, List.singleton_append, List.prefix_cons_inj, List.prefix_cons_inj]
  exact List.nil_prefix

theorem after_boot {stack : Payload} {m : Monitor} {boardAddr : Nat} {data fw : List UInt8}
    (haddr : boardAddr + data.length + 3 < 2 ^ 32) (opt : Nat) (otp : List (List UInt8)) :
    m.after T (bootCmds stack.1 opt boardAddr data otp fw) = {
      mem := T.unpack ((({ m with mem := storeAll m.mem (bootWrites stack.1 opt boardAddr data) } :
        Monitor).after T otp).close T).mem Fw.kPatchLoadAddr
          (fw ++ List.replicate (Bmi.wordPad fw.length) 0)
      stream := none
      done := true } := by
  have hdata : ∀ x ∈ Bmi.lzPayloads fw, x.length < 2 ^ 32 :=
    fun x hx => (mem_lzPayloads hx).2.2.trans_lt (by decide)
  rw [bootCmds, Monitor.after_append, after_configure, Monitor.after_append,
    after_board stack.2 haddr, ← storeAll_append, Monitor.after_append, Monitor.after_append,
    Monitor.after_stream (by decide) (by decide) hdata, lzPayloads_flatten, Monitor.after_cons,
    Monitor.step_done]
  rfl

end Monitor

/-- A target that unpacks a stream as it is. -/
def sampleTarget : Target where
  info := []
  unpack := store
  run := fun mem _ _ => (mem, 0)

def sampleMonitor : Monitor where
  mem := store (fun _ => 0) (kHostInterestAddress + Fw.kHiBoardDataOff) (encodeLE 4 0x1000)
  stream := none
  done := false

def servedBoot : Bool × Boot :=
  exec (Boot.serving (sampleMonitor.answer sampleTarget))
    (Boot.bootFirmware sampleImages 0 0 sampleStack) sampleBoot

end Qca9377
