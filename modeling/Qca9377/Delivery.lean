import Qca9377.WmiPath

namespace Qca9377
open Bytes Interleaving
set_option autoImplicit true

/-- The frames of the entries the engine has completed: landed, and passed by DRRI. -/
def DstRing.completed (d : DstRing) : List (List UInt8) :=
  (d.filled.take (d.filled.length - d.unlanded.length)).take d.advanced

theorem take_concat_le (R : List α) (a : α) (n : Nat) (hn : R.length ≤ n) :
    R <+: (R ++ [a]).take n ∧ ((R ++ [a]).take n).length ≤ R.length + 1 := by
  constructor
  · rw [List.take_append, List.take_of_length_le hn]
    exact List.prefix_append _ _
  · rw [← List.length_singleton (a := a), ← List.length_append]
    exact List.length_take_le' _ _

theorem RxInv.delivered {d : DstRing} (h : RxInv d) :
    d.received <+: d.completed ∧ d.completed.length ≤ d.received.length + 1 := by
  cases h.progress with
  | empty hf hu =>
    have hc : d.completed = d.received := by
      rw [DstRing.completed, hf, hu, List.length_nil, Nat.sub_zero, List.take_length,
        List.take_of_length_le h.taken]
    rw [hc]
    exact ⟨List.prefix_refl _, Nat.le_succ _⟩
  | filled f _ hf hu =>
    have hc : d.completed = d.received := by
      rw [DstRing.completed, hf, hu, List.length_append, List.length_singleton,
        List.length_singleton, Nat.add_sub_cancel, List.take_left, List.take_of_length_le h.taken]
    rw [hc]
    exact ⟨List.prefix_refl _, Nat.le_succ _⟩
  | landed f _ hf hu =>
    have hc : d.completed = (d.received ++ [f]).take d.advanced := by
      rw [DstRing.completed, hf, hu, List.length_nil, Nat.sub_zero, List.take_length]
    rw [hc]
    exact take_concat_le _ _ _ h.taken

inductive WmiCall where
  | armRecv
  | sendWmi (payload : List UInt8)
  | recvWmi (bufLen timeoutMs : Nat)

inductive WmiResult where
  | armed
  | sent (ok : Bool)
  | got (r : Option (List UInt8))
  deriving DecidableEq, Repr

def WmiCall.body : WmiCall → Prog Host WmiResult
  | .armRecv => do
    CEManager.wmiArmRecv
    return .armed
  | .sendWmi payload => do return .sent (← Htc.sendWmi payload)
  | .recvWmi bufLen timeoutMs => do return .got (← Htc.recvWmi bufLen timeoutMs)

def anySrc (_ _ : SrcRing) : Prop := True

/-- Calls on the WMI path next to the engine of the receive half, which delivers frames of 1 to
2048 bytes. Anything at all may happen on the source half. -/
def wmiSystem : System Host WmiCall WmiResult where
  init := fun h => RxFresh h.fWmi.dst
  body := WmiCall.body
  env := Host.WmiEngine anySrc fits

theorem any_send (frame : List UInt8) :
    SendContract anySrc (fun _ => True) anySrc (fun _ => True)
      (fun _ _ => True) frame where
  before := ⟨fun _ _ _ _ => trivial, fun _ _ => trivial⟩
  after := fun _ => ⟨fun _ _ _ _ => trivial, fun _ _ => trivial⟩
  refl := fun _ => trivial
  send := fun s _ => Safe.any _ s

/-- What `recvWmi` hands out is what it makes of the one frame it has taken. -/
def WmiPost (c : WmiCall) (h₀ : Host) (r : WmiResult) (h : Host) : Prop :=
  match c, r with
  | .recvWmi bufLen _, .got bytes =>
    RecvWmiPost h₀.htc bufLen h₀.fWmi.dst.received bytes h
  | _, _ => True

theorem wmiSystem_sound (h : Reachable wmiSystem anyCall cfg) :
    Sound wmiSystem (fun h => RxSingle h.fWmi.dst)
      (fun _ h₀ h => RxDuring h₀.fWmi.dst.received (h₀.fWmi.dst.received.length + 1) h.fWmi.dst)
      (fun h h' => RxStep h.fWmi.dst h'.fWmi.dst) WmiPost cfg := by
  have hG (s : SrcRing) : anySrc s s := trivial
  apply h.sound
  · exact fun h hi => RxFresh.single hi
  · intro h h' hi hs
    cases hs with
    | src => exact hi
    | dst hd => exact hi.engine hd
  · intro c h _ hi
    have hat : WmiAt h.fWmi.dst.received h.htc (fun _ => True) h := ⟨hi, rfl, rfl, trivial⟩
    cases c with
    | armRecv =>
      apply Safe.map
      exact (wmiArmRecv_safe (any_send []).before hG hat).mono (fun _ ht => ht.1)
        (fun _ _ hs => hs.dst) fun _ _ ht => ⟨ht.rx, trivial⟩
    | sendWmi payload =>
      apply Safe.map
      exact (sendWmi_safe (any_send _) hat).mono (fun _ ht => ht.1) (fun _ _ hs => hs.dst)
        fun _ _ ht => ⟨ht.1.1, trivial⟩
    | recvWmi bufLen timeoutMs =>
      apply Safe.map
      exact (recvWmi_safe (any_send []).before hG hat bufLen timeoutMs).mono (fun _ ht => ht.1)
        (fun _ _ hs => hs.dst) fun _ _ ht => ⟨ht.1.1, ht.2⟩

/-- One entry is armed at most; the frames taken are the frames completed, in order, with at most
one still to take; an entry is only taken when it is complete, and until `recvWmi` returns the
rx buffer stays as it was when its frame was taken. -/
theorem exactly_once_delivery (h : Reachable wmiSystem anyCall cfg) :
    cfg.state.fWmi.dst.rxArmed ≤ 1 ∧
    (cfg.state.fWmi.dst.received <+: cfg.state.fWmi.dst.completed ∧
      cfg.state.fWmi.dst.completed.length ≤ cfg.state.fWmi.dst.received.length + 1) ∧
    (∀ cfg', Step wmiSystem anyCall cfg cfg' →
      cfg'.state.fWmi.dst.received = cfg.state.fWmi.dst.received ∨
      ∃ f, cfg.state.fWmi.dst.Complete f ∧
        cfg'.state.fWmi.dst.received = cfg.state.fWmi.dst.received ++ [f]) ∧
    (∀ bufLen timeoutMs h₀ prog h, cfg = .busy (.recvWmi bufLen timeoutMs) h₀ prog h →
      h.fWmi.dst.received = h₀.fWmi.dst.received ∨
      (∃ f, Taken h₀.fWmi.dst.received f h.fWmi.dst) ∧
        ∀ cfg', Step wmiSystem anyCall cfg cfg' →
          cfg'.state.fWmi.dst.rxBuf = h.fWmi.dst.rxBuf) ∧
    (∀ bufLen timeoutMs h₀ r h, cfg = .busy (.recvWmi bufLen timeoutMs) h₀ (.ret (.got r)) h →
      RecvWmiPost h₀.htc bufLen h₀.fWmi.dst.received r h) := by
  have hs := wmiSystem_sound h
  have hinv : RxInv cfg.state.fWmi.dst ∧ cfg.state.fWmi.dst.rxArmed ≤ 1 := by
    cases cfg with
    | idle h => exact ⟨RxSingle.idle hs |>.1, RxSingle.during hs rfl |>.rxArmed_le⟩
    | busy c h₀ prog h => exact ⟨(Safe.inv hs).inv, (Safe.inv hs).rxArmed_le⟩
  refine ⟨hinv.2, hinv.1.delivered, ?_, ?_, ?_⟩
  · intro cfg' hstep
    rcases hs.step hstep with henv | hG | he
    · exact .inl henv.same.received
    · exact hG.received
    · exact .inl (by rw [he])
  · rintro bufLen timeoutMs h₀ prog g rfl
    rcases (Safe.inv hs).received with hr | ⟨f, ht⟩
    · exact .inl hr
    · right
      constructor
      · exact ⟨f, ht⟩
      intro cfg' hstep
      rcases hs.step hstep with henv | hG | he
      · have hduring := Safe.inv hs
        exact henv.rxBuf hduring ht
      · exact hG.rxBuf
      · exact congrArg (fun h => h.fWmi.dst.rxBuf) he.symm
  · rintro bufLen timeoutMs h₀ r h rfl
    exact hs.post

def twoBytes : List UInt8 := [0, 0, 2, 0, 0, 0, 0, 0, 0xAA, 0xBB]

def twoBytesReady : Host :=
  let h := (exec id (WmiCall.body .armRecv) freshHost).2
  h.setWmi (h.fWmi.setDst ((h.fWmi.dst.fill twoBytes).land 10 []).advance)

def twoBytesTaken : Host := (exec id (WmiCall.body (.recvWmi 2048 1)) twoBytesReady).2

theorem twoBytes_received :
    (exec id (WmiCall.body (.recvWmi 2048 1)) twoBytesReady).1 = .got (some [0xAA, 0xBB]) := by
  decide +kernel

theorem twoBytesTaken_reachable :
    Reachable wmiSystem anyCall
      (.busy (.recvWmi 2048 1) twoBytesReady (.ret (.got (some [0xAA, 0xBB]))) twoBytesTaken) := by
  have hfresh : Reachable wmiSystem anyCall (.idle freshHost) :=
    .init ⟨rfl, rfl, rfl, rfl, rfl, rfl, rfl, rfl, rfl, rfl, rfl, rfl⟩
  have harmed := (hfresh.step (.call (c := .armRecv) trivial)).alone.step .finish
  have hready : Reachable wmiSystem anyCall (.idle twoBytesReady) :=
    ((harmed.step (.envIdle (.dst (.fill (f := twoBytes) ⟨by decide, by decide⟩ (by decide))))).step
      (.envIdle (.dst (.land rfl)))).step (.envIdle (.dst (.advance (by decide))))
  rw [← twoBytes_received]
  exact (hready.step (.call (c := .recvWmi 2048 1) trivial)).alone

theorem exactly_once_delivery_two_bytes :
    twoBytesTaken.fWmi.dst.rxArmed ≤ 1 ∧
      RecvWmiPost twoBytesReady.htc 2048 twoBytesReady.fWmi.dst.received (some [0xAA, 0xBB])
        twoBytesTaken :=
  ⟨(exactly_once_delivery twoBytesTaken_reachable).1,
    (exactly_once_delivery twoBytesTaken_reachable).2.2.2.2 _ _ _ _ _ rfl⟩

end Qca9377
