import Mathlib.Data.List.GetD
import Qca9377.Answers
import Qca9377.BootMonitor

namespace Qca9377
open Bytes Interleaving
set_option autoImplicit true

/-- The answers to the queries among these frames, in order; an answer may depend on all of the
frames up to its query. -/
def replies (answer : List (List UInt8) → List UInt8) (frames : List (List UInt8)) :
    List (List UInt8) :=
  ((List.range frames.length).filter fun i => responseBearing (frames.getD i [])).map
    fun i => answer (frames.take (i + 1))

/-- The next answer of a target that has consumed `frames`. -/
def owing (answer : List (List UInt8) → List UInt8) (frames : List (List UInt8)) (d : DstRing)
    (f : List UInt8) : Prop :=
  (replies answer frames)[d.filled.length]? = some f ∧ fits d f

section Replies

variable {answer : List (List UInt8) → List UInt8} {X P : List (List UInt8)}

theorem replies_concat (P : List (List UInt8)) (c : List UInt8) :
    replies answer (P ++ [c]) =
      replies answer P ++ if responseBearing c then [answer (P ++ [c])] else [] := by
  have hold : ((List.range P.length).filter fun i => responseBearing ((P ++ [c]).getD i [])).map
      (fun i => answer ((P ++ [c]).take (i + 1))) = replies answer P := by
    have hfilter : (List.range P.length).filter (fun i => responseBearing ((P ++ [c]).getD i [])) =
        (List.range P.length).filter fun i => responseBearing (P.getD i []) := by
      apply List.filter_congr
      intro i hi
      rw [List.getD_append _ _ _ _ (List.mem_range.1 hi)]
    rw [hfilter]
    apply List.map_congr_left
    intro i hi
    rw [List.take_append_of_le_length (List.mem_range.1 (List.mem_filter.1 hi).1)]
  have hlast : (P ++ [c]).getD P.length [] = c := by
    rw [List.getD_append_right _ _ _ _ (Nat.le_refl _), Nat.sub_self]
    rfl
  rw [← hold]
  simp only [replies, List.length_append, List.length_singleton, List.range_succ,
    List.filter_append, List.map_append, List.filter_singleton, hlast]
  congr 1
  cases responseBearing c with
  | false => rfl
  | true =>
    have hall : (P ++ [c]).take (P.length + 1) = P ++ [c] := by
      apply List.take_of_length_le
      rw [List.length_append, List.length_singleton]
    exact congrArg (fun l => [answer l]) hall

theorem replies_mono (h : P <+: X) : replies answer P <+: replies answer X := by
  obtain ⟨t, rfl⟩ := h
  induction t using List.reverseRecOn with
  | nil => rw [List.append_nil]
  | append_singleton t c ih =>
    rw [← List.append_assoc, replies_concat]
    exact ih.trans (List.prefix_append _ _)

theorem replies_length (answer : List (List UInt8) → List UInt8) (P : List (List UInt8)) :
    (replies answer P).length = (queries P).length := by
  induction P using List.reverseRecOn with
  | nil => rfl
  | append_singleton P c ih =>
    rw [replies_concat, queries, List.filter_append, List.filter_singleton, List.length_append,
      List.length_append, ih]
    cases responseBearing c <;> rfl

/-- The answers along these frames, told by the number of queries. -/
def answerAlong (answer : List (List UInt8) → List UInt8) (X qs : List (List UInt8)) :
    List UInt8 := (replies answer X).getD (qs.length - 1) []

theorem answerTo_along (hq : responseBearing c = true) (h : P ++ [c] <+: X) :
    answerTo (answerAlong answer X) P c = answer (P ++ [c]) := by
  have hmono : replies answer (P ++ [c]) <+: replies answer X := replies_mono h
  obtain ⟨t, ht⟩ := hmono
  rw [replies_concat, if_pos hq] at ht
  rw [answerTo, answerAlong, ← ht, List.length_append, List.length_singleton,
    Nat.add_sub_cancel, ← replies_length answer P, List.append_assoc,
    List.getD_append_right _ _ _ _ (Nat.le_refl _), Nat.sub_self]
  rfl

theorem answersTo_along (h : P <+: X) :
    answersTo (answerAlong answer X) (queries P) = replies answer P := by
  induction P using List.reverseRecOn with
  | nil => rfl
  | append_singleton P c ih =>
    have hP := ih ((List.prefix_append P [c]).trans h)
    rw [replies_concat]
    cases hq : responseBearing c with
    | false =>
      rw [queries_concat_silent P hq, hP]
      exact (List.append_nil _).symm
    | true =>
      have hlast : answerTo (answerAlong answer X) P c = answer (P ++ [c]) := answerTo_along hq h
      rw [answerTo] at hlast
      rw [queries_concat P hq, answersTo_concat, hP, hlast, if_pos rfl]

theorem owing_along (h : P <+: X) (hd : owing answer P d f) :
    due (answerAlong answer X) P d f := by
  refine ⟨?_, hd.2⟩
  rw [answersTo_along h]
  exact hd.1

end Replies

/-- The target side of a boot: the engines of the control pair, and the indicator word, which the
target may set at any time. -/
inductive BootEnv (D : List (List UInt8) → DstRing → List UInt8 → Prop) : Boot → Boot → Prop
  | engine (hs : Host.CtrlEngine D b.host h) : BootEnv D b (b.setHost h)
  | indicator (val : UInt32) : BootEnv D b { b with fwIndicator := val }

/-- A target that takes a frame at once, and answers when there is room for the answer. -/
def Host.serving (answer : List (List UInt8) → List UInt8) (h : Host) : Host :=
  let g := h.consuming
  if g.fCtrl.dst.fillIdx ≠ g.fCtrl.dst.dstWrIndex ∧ g.fCtrl.dst.unlanded = [] ∧
      g.fCtrl.dst.currentDRRI ≠ g.fCtrl.dst.dstWrIndex then
    match (replies answer g.fCtrl.src.consumed)[g.fCtrl.dst.filled.length]? with
    | some f => if 0 < f.length ∧ f.length ≤ kRxBufSz then g.delivering f else g
    | none => g
  else g

theorem Host.serving_star (answer : List (List UInt8) → List UInt8) (h : Host) :
    Relation.ReflTransGen (Host.CtrlEngine (owing answer)) h (h.serving answer) := by
  have hstart := Host.consuming_star (owing answer) h
  unfold Host.serving
  dsimp only
  split
  · next hg =>
    obtain ⟨hw, hu, ha⟩ := hg
    cases hr : (replies answer h.consuming.fCtrl.src.consumed)[h.consuming.fCtrl.dst.filled.length]?
      with
    | none => exact hstart
    | some f =>
      dsimp only
      split
      · next hfits => exact hstart.trans (Host.delivering_star _ ⟨hr, hfits⟩ hw hu ha)
      · exact hstart
  · exact hstart

def Boot.serving (answer : List (List UInt8) → List UInt8) (b : Boot) : Boot :=
  { b.setHost (b.host.serving answer) with fwIndicator := 2 }

theorem Boot.serving_star (answer : List (List UInt8) → List UInt8) (b : Boot) :
    Relation.ReflTransGen (BootEnv (owing answer)) b (b.serving answer) := by
  have hlift {h : Host} (hst : Relation.ReflTransGen (Host.CtrlEngine (owing answer)) b.host h) :
      Relation.ReflTransGen (BootEnv (owing answer)) b (b.setHost h) := by
    induction hst with
    | refl => exact .refl
    | @tail g h _ hs ih => exact ih.tail (.engine (b := b.setHost g) hs)
  exact (hlift (Host.serving_star answer b.host)).tail (.indicator 2)

/-- The frames that the target has taken. -/
def Host.taken (h : Host) : List (List UInt8) := h.fCtrl.src.consumed

theorem Host.CtrlEngine.taken (hs : Host.CtrlEngine D h h') : h.taken <+: h'.taken := by
  cases hs with
  | src hs => exact hs.consumed
  | dst => exact List.prefix_rfl

theorem BootEnv.taken (hs : BootEnv D b c) : b.host.taken <+: c.host.taken := by
  cases hs with
  | engine hs => exact hs.taken
  | indicator => exact List.prefix_rfl

/-- No access of the host takes a frame. -/
def Untaken (s t : Host) : Prop := t.taken = s.taken

section Untaken

theorem pollSRRI_untaken (n : Nat) : (pollSRRI n).Within fun s t => t.consumed = s.consumed := by
  induction n with
  | zero => exact fun _ => ⟨rfl, trivial⟩
  | succ n ih =>
    intro s
    refine ⟨rfl, ?_⟩
    dsimp only [Prog.ret_bind]
    split
    · trivial
    · exact ih

theorem srcSend_untaken (buf : List UInt8) :
    (SrcRing.send buf).Within fun s t => t.consumed = s.consumed := by
  unfold SrcRing.send
  simp only [bind_eq_bind, pure_eq_ret, modify_bind]
  split
  · exact fun _ => ⟨rfl, trivial⟩
  apply (pollSRRI_untaken _).bind
  intro r
  split
  · exact fun _ => ⟨rfl, trivial⟩
  refine fun _ => ⟨rfl, fun _ => ⟨rfl, fun _ => ⟨rfl, fun _ => ⟨rfl, ?_⟩⟩⟩⟩
  apply (pollSRRI_untaken _).bind
  intro r
  split
  · exact fun _ => ⟨rfl, trivial⟩
  · trivial

theorem send_untaken (cmd : List UInt8) : (CEManager.send cmd).Within Untaken := by
  rw [CEManager.send, CECopyPair.send, Prog.zoom_zoom]
  exact (srcSend_untaken cmd).zoom fun _ _ h => h

theorem receive_untaken (p : Prog DstRing α) :
    ((p.zoom CECopyPair.dst CECopyPair.setDst).zoom Host.fCtrl Host.setCtrl).Within Untaken := by
  rw [Prog.zoom_zoom]
  exact p.within_any.zoom fun _ _ _ => rfl

theorem untaken_orFail {p : Prog Host Bool} {k : Prog Host α} (hp : p.Within Untaken)
    (hk : k.Within Untaken) :
    (p.bind fun ok => if (!ok) = true then .ret fail else k).Within Untaken := by
  apply hp.bind
  intro ok
  cases ok with
  | false => trivial
  | true => exact hk

theorem exchangeWait_untaken (cmd : List UInt8) (respLen : Nat) :
    (Bmi.exchangeWait cmd respLen).Within Untaken := by
  unfold Bmi.exchangeWait Bmi.setStage
  simp only [bind_eq_bind, pure_eq_ret, read_bind, modify_bind]
  intro h
  refine ⟨rfl, ?_⟩
  dsimp only
  split
  · exact fun _ => ⟨rfl, trivial⟩
  refine fun _ => ⟨rfl, untaken_orFail (receive_untaken _) ?_⟩
  refine fun _ => ⟨rfl, untaken_orFail (send_untaken cmd) ?_⟩
  refine fun _ => ⟨rfl, untaken_orFail (receive_untaken _) ?_⟩
  refine fun _ => ⟨rfl, fun h => ⟨rfl, ?_⟩⟩
  dsimp only
  split
  · trivial
  · exact fun _ => ⟨rfl, fun _ => ⟨rfl, trivial⟩⟩

theorem writeMemory_untaken (stack : List UInt8) (addr : Nat) (buf : List UInt8) :
    (Bmi.writeMemory stack addr buf).Within Untaken := by
  rw [← Bmi.writeMemory_run]
  exact Calls.run_within send_untaken _

theorem fastDownload_untaken (addr : Nat) (buf : List UInt8) :
    (Bmi.fastDownload addr buf).Within Untaken := by
  by_cases hbuf : buf = []
  · unfold Bmi.fastDownload
    rw [if_pos hbuf]
    trivial
  · rw [Bmi.fastDownload_all addr hbuf]
    exact Calls.run_within send_untaken _

theorem read32_untaken (itemOffset : Nat) : (Bmi.read32 itemOffset).Within Untaken := by
  have hlen : ¬ (4 = 0 ∨ kBmiMaxDataSize < 4) := by decide
  rw [Bmi.read32, readMemory_query hlen]
  apply Prog.Within.bind
  · exact (exchangeWait_untaken _ _).bind fun r => trivial
  · intro r
    cases r <;> trivial

theorem execute_untaken (addr param : Nat) : (Bmi.execute addr param).Within Untaken := by
  apply (exchangeWait_untaken _ _).bind
  intro r
  cases r <;> trivial

theorem configureTarget_untaken (stack : Payload) :
    (Fw.configureTarget stack).Within Untaken := by
  have hwrite (itemOffset val : Nat) := writeMemory_untaken stack.1
    (kHostInterestAddress + itemOffset) (encodeLE 4 val)
  apply untaken_orFail (hwrite _ _)
  apply (read32_untaken _).bind
  intro r
  cases r with
  | none => trivial
  | some opt =>
    apply untaken_orFail (hwrite _ _)
    apply untaken_orFail (hwrite _ _)
    apply untaken_orFail (hwrite _ _)
    exact untaken_orFail (hwrite _ _) trivial

theorem downloadBoardData_untaken (stack : Payload) (data : List UInt8) :
    (Fw.downloadBoardData stack data).Within Untaken := by
  apply (read32_untaken _).bind
  intro r
  cases r with
  | none => trivial
  | some boardAddr =>
    dsimp only
    split
    · trivial
    · apply untaken_orFail (writeMemory_untaken _ _ _)
      exact untaken_orFail (writeMemory_untaken _ _ _) trivial

theorem otpStage_untaken (E : Embedded) : (Boot.otpStage E).Within Untaken := by
  unfold Boot.otpStage
  split
  · unfold Fw.runOtp
    split
    · trivial
    · apply untaken_orFail (fastDownload_untaken _ _)
      apply (execute_untaken _ _).bind
      intro r
      cases r <;> trivial
  · trivial

theorem done_untaken : Bmi.done.Within Untaken :=
  untaken_orFail (send_untaken _) fun _ => ⟨rfl, trivial⟩

def Boot.Untaken (b c : Boot) : Prop := Qca9377.Untaken b.host c.host

theorem onHost_untaken {p : Prog Host α} (hp : p.Within Untaken) :
    (Boot.onHost p).Within Boot.Untaken := hp.zoom fun _ _ h => h

theorem attempt_untaken {p : Prog Host Bool} {k : Prog Boot Bool} (hp : p.Within Untaken)
    (hk : k.Within Boot.Untaken) :
    ((Boot.onHost p).bind fun ok => if (!ok) = true then Boot.fail text else k).Within
      Boot.Untaken := by
  apply (onHost_untaken hp).bind
  intro ok
  cases ok with
  | false => exact fun _ => ⟨rfl, fun _ => ⟨rfl, trivial⟩⟩
  | true => exact hk

theorem publish_untaken {k : Prog Boot α} (hk : k.Within Boot.Untaken) :
    ((Boot.publishStage text).bind fun _ => k).Within Boot.Untaken := fun _ => ⟨rfl, hk⟩

theorem pollIndicator_untaken (n : Nat) (val : UInt32) :
    (Boot.pollIndicator n val).Within Boot.Untaken := by
  induction n generalizing val with
  | zero => trivial
  | succ n ih =>
    intro b
    refine ⟨rfl, ?_⟩
    dsimp only [Prog.ret_bind]
    split
    · exact ih _
    · split
      · trivial
      · split
        · trivial
        · exact ih _

theorem doneAndWait_untaken : Boot.doneAndWaitTargetInit.Within Boot.Untaken := by
  apply (onHost_untaken done_untaken).bind
  intro ok
  cases ok with
  | false => trivial
  | true =>
    apply (pollIndicator_untaken _ _).bind
    intro val
    split
    · trivial
    · split
      · trivial
      · split
        · trivial
        · trivial

theorem bootFirmware_untaken (E : Embedded) (fSubVendor fSubDevice : UInt16) (stack : Payload) :
    (Boot.bootFirmware E fSubVendor fSubDevice stack).Within Boot.Untaken := by
  have hfail (text : String) : (Boot.fail text).Within Boot.Untaken :=
    fun _ => ⟨rfl, fun _ => ⟨rfl, trivial⟩⟩
  unfold Boot.bootFirmware
  split
  · exact hfail _
  apply publish_untaken
  apply attempt_untaken (configureTarget_untaken stack)
  apply publish_untaken
  apply attempt_untaken (downloadBoardData_untaken stack _)
  apply publish_untaken
  apply (onHost_untaken (otpStage_untaken E)).bind
  intro ids
  apply attempt_untaken (fastDownload_untaken _ _)
  apply publish_untaken
  apply doneAndWait_untaken.bind
  intro ok
  cases ok with
  | false => exact hfail _
  | true => exact publish_untaken trivial

end Untaken

/-- What has been taken stays so. -/
def Onward (b c : Boot) : Prop := b.host.taken <+: c.host.taken

instance : Std.Refl Onward := ⟨fun _ => List.prefix_rfl⟩

instance : IsTrans Boot Onward := ⟨fun _ _ _ => List.IsPrefix.trans⟩

theorem boot_onward {E : Embedded} {stack : Payload}
    (h : Stretch (BootEnv D) (Boot.bootFirmware E fSubVendor fSubDevice stack) s L q t) :
    Onward s t := by
  apply Stretch.along (fun b c hs => hs.taken) _ h
  apply (bootFirmware_untaken E fSubVendor fSubDevice stack).mono
  intro b c hsame
  have htaken : c.host.taken = b.host.taken := hsame
  exact htaken ▸ List.prefix_rfl

/-- What a target answers in a run of the boot is told by the number of its queries. -/
theorem boot_along {E : Embedded} {stack : Payload}
    (h : Stretch (BootEnv (owing answer)) (Boot.bootFirmware E fSubVendor fSubDevice stack) s L q t)
    (hX : t.host.taken <+: X) :
    Stretch (BootEnv (due (answerAlong answer X)))
      (Boot.bootFirmware E fSubVendor fSubDevice stack) s L q t := by
  apply Stretch.restrict (C := fun b => b.host.taken <+: X) _ _ _ h hX
  · exact fun b c hs hc => hs.taken.trans hc
  · apply (bootFirmware_untaken E fSubVendor fSubDevice stack).mono
    intro b c hsame hc
    have htaken : c.host.taken = b.host.taken := hsame
    exact htaken ▸ hc
  · intro b c hs hb
    cases hs with
    | indicator val => exact .indicator val
    | engine hs =>
      cases hs with
      | src hs => exact .engine (.src hs)
      | dst hd => exact .engine (.dst (hd.mono fun d f => owing_along hb))

end Qca9377
