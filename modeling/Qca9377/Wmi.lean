import Qca9377.HtcFrame

namespace Qca9377
open Bytes Interleaving
set_option autoImplicit true

def kWmiTlvEvtServiceReady : Nat := 0x1
def kWmiTlvEvtReady : Nat := 0x2
def kTlvArrayUInt32 : Nat := 16
def kTlvSvcReadyEvent : Nat := 32
def kTlvReadyEvent : Nat := 35
def kTlvMaxTag : Nat := 128

structure Wmi where
  fFwBuild : Nat
  fPhyCapab : Nat
  fNumRfChains : Nat
  fNumMemReqs : Nat
  fAbi : Fin 6 → Nat
  fMac : List UInt8

def freshWmi : Wmi := ⟨0, 0, 0, 0, fun _ => 0, List.replicate 6 0⟩

def rd32 (p : List UInt8) (off : Nat) : Option Nat := (slice p off 4).map decodeLE

def rdAbi (p : List UInt8) (off : Nat) : Option (Fin 6 → Nat) := do
  return ![← rd32 p off, ← rd32 p (off + 4), ← rd32 p (off + 8), ← rd32 p (off + 12),
    ← rd32 p (off + 16), ← rd32 p (off + 20)]

/-- The words of the service bitmap that are printed, 64 bytes of it at most. -/
def dumpBitmap (p : List UInt8) (bmap bmapLen : Nat) : Option (List Nat) :=
  (((List.range 16).map (4 * ·)).takeWhile (· < bmapLen)).mapM fun i => rd32 p (bmap + i)

/-- `Wmi::parseServiceReady`; `none` is a read outside the event. -/
def Wmi.parseServiceReady (w : Wmi) (p : List UInt8) : Option (Bool × Wmi) := do
  let (ok, tb) := tlvParse p kTlvMaxTag
  if !ok then return (false, w)
  match (tb kTlvSvcReadyEvent).ptr with
  | none => return (false, w)
  | some ev =>
    if (tb kTlvSvcReadyEvent).len < 76 then return (false, w)
    let w :=
      { w with
        fFwBuild := ← rd32 p ev
        fAbi := ← rdAbi p (ev + 4)
        fPhyCapab := ← rd32 p (ev + 28)
        fNumRfChains := ← rd32 p (ev + 36)
        fNumMemReqs := ← rd32 p (ev + 72) }
    match (tb kTlvArrayUInt32).ptr with
    | none => return (false, w)
    | some bmap =>
      let bmapLen := (tb kTlvArrayUInt32).len
      if bmapLen < 4 ∨ bmapLen &&& 3 ≠ 0 then return (false, w)
      let _ ← dumpBitmap p bmap bmapLen
      return (true, w)

/-- `Wmi::parseReady`; the status is read for the log only. -/
def Wmi.parseReady (w : Wmi) (p : List UInt8) : Option (Bool × Wmi) := do
  let (ok, tb) := tlvParse p kTlvMaxTag
  if !ok then return (false, w)
  match (tb kTlvReadyEvent).ptr with
  | none => return (false, w)
  | some ev =>
    if (tb kTlvReadyEvent).len < 36 then return (false, w)
    let w := { w with fAbi := ← rdAbi p ev, fMac := ← slice p (ev + 24) 6 }
    let _ ← rd32 p (ev + 32)
    return (true, w)

/-- The calls `waitServiceAndReady` makes, with what they return. -/
inductive WmiAct where
  | armRecv
  | recvWmi (n : Nat)
  | sendInit (ok : Bool)
  deriving DecidableEq, Repr

/-- What the handshake works on, and the calls it has made. -/
structure Handshake where
  wmi : Wmi
  htc : Htc
  rxBuf : List UInt8
  calls : List WmiAct

def Handshake.call (a : WmiAct) (s : Handshake) : Handshake := { s with calls := s.calls ++ [a] }

/-- `recvWmi` into the caller's 2048 bytes, for a frame that has arrived in the rx buffer. -/
def Handshake.recvWmi (s : Handshake) (frame : List UInt8) :
    Option (List UInt8 × Handshake) := do
  let rxBuf := poke s.rxBuf 0 frame
  let (htc, buf) ← s.htc.recvFrame rxBuf frame.length 2048
  return (buf, ⟨s.wmi, htc, rxBuf, s.calls ++ [.recvWmi buf.length]⟩)

/-- Phase 1 of `waitServiceAndReady` on the frames that arrive in time; where they end the
receive wait expires. -/
def Handshake.waitService (s : Handshake) (frames : List (List UInt8)) :
    Option (Bool × Handshake × List (List UInt8)) :=
  if s.wmi.fFwBuild = 0 ∧ s.wmi.fAbi 0 = 0 then
    match frames with
    | [] => some (false, s.call (.recvWmi 0), [])
    | f :: fs => do
      let (buf, s) ← s.recvWmi f
      if buf.length < 4 then return (false, s, fs)
      let s := s.call .armRecv
      let id := (← rd32 buf 0) &&& kWmiCmdIdMask
      if id = kWmiTlvEvtServiceReady then
        let (ok, wmi) ← s.wmi.parseServiceReady (buf.drop 4)
        if !ok then return (false, { s with wmi }, fs)
        waitService { s with wmi } fs
      else waitService s fs
  else some (true, s, frames)

/-- `Wmi::sendInit`, with the outcome of `Htc::sendWmi` as a parameter. -/
def Handshake.sendInit (sendWmi : Htc → List UInt8 → Bool × Htc) (s : Handshake) :
    Bool × Handshake :=
  let (buf, frameLen) := initFrame kAbiWords kRsrcCfg
  if frameLen ≠ 4 + 36 + 184 + 8 then (false, s.call (.sendInit false))
  else
    let (ok, htc) := sendWmi s.htc buf
    (ok, { s with htc }.call (.sendInit ok))

/-- Phase 3, with the tries left. -/
def Handshake.waitReady (s : Handshake) : Nat → List (List UInt8) → Option (Bool × Handshake)
  | 0, _ => some (false, s)
  | _ + 1, [] => some (false, s.call (.recvWmi 0))
  | tries + 1, f :: fs => do
    let (buf, s) ← s.recvWmi f
    if buf.length < 4 then return (false, s)
    let s := s.call .armRecv
    let id := (← rd32 buf 0) &&& kWmiCmdIdMask
    if id = kWmiTlvEvtReady then
      let (ok, wmi) ← s.wmi.parseReady (buf.drop 4)
      return (ok, { s with wmi })
    s.waitReady tries fs

def Handshake.waitServiceAndReady (sendWmi : Htc → List UInt8 → Bool × Htc) (s : Handshake)
    (frames : List (List UInt8)) : Option (Bool × Handshake) := do
  let (ok, s, frames) ← (s.call .armRecv).waitService frames
  if !ok then return (false, s)
  let (ok, s) := s.sendInit sendWmi
  if !ok then return (false, s)
  s.waitReady 5 frames

/-- The event id in a frame's payload, when the payload holds one. -/
def HtcFrame.event (f : HtcFrame) : Option Nat := (rd32 f.payload 0).map (· &&& kWmiCmdIdMask)

/-- A SERVICE_READY event that a fresh object accepts, with a build number other than zero. -/
def HtcFrame.ServiceReady (f : HtcFrame) : Prop :=
  f.event = some kWmiTlvEvtServiceReady ∧
    ∃ w, freshWmi.parseServiceReady (f.payload.drop 4) = some (true, w) ∧ w.fFwBuild ≠ 0

/-- Neither phase 2 nor phase 3 has been entered. -/
def Handshake.Waiting (s : Handshake) : Prop :=
  s.wmi = freshWmi ∧ ∀ ok, WmiAct.sendInit ok ∉ s.calls

theorem Handshake.recvWmi_frame {s : Handshake} {f : HtcFrame} (h : f.WellFormed s.htc.fWmiEid) :
    ∃ n rxBuf, s.recvWmi f.encode = some (f.payload,
      ⟨s.wmi, { s.htc with fWmiCredits := n }, rxBuf,
        s.calls ++ [.recvWmi f.payload.length]⟩) := by
  obtain ⟨n, -, hrecv⟩ := Htc.recvFrame_encode h (s.rxBuf.drop f.encode.length) 2048
  have hroom : ¬ 2048 < f.payload.length := by
    have hsz := h.fits
    rw [f.encode_length, kRxBufSz] at hsz
    omega
  have hbuf : poke s.rxBuf 0 f.encode = f.encode ++ s.rxBuf.drop f.encode.length := by
    rw [poke, List.take_zero, List.nil_append, Nat.zero_add]
  refine ⟨n, poke s.rxBuf 0 f.encode, ?_⟩
  rw [Handshake.recvWmi, hbuf, hrecv, if_neg hroom]
  rfl

theorem Handshake.Waiting.call {s : Handshake} (h : s.Waiting) (ha : ∀ ok, a ≠ .sendInit ok) :
    (s.call a).Waiting := by
  refine ⟨h.1, fun ok hm => ?_⟩
  rcases List.mem_append.1 hm with hm | hm
  · exact h.2 ok hm
  · exact ha ok (List.mem_singleton.1 hm).symm

theorem Handshake.Waiting.fresh {s : Handshake} (h : s.Waiting) :
    s.wmi.fFwBuild = 0 ∧ s.wmi.fAbi 0 = 0 := by
  rw [h.1]
  exact ⟨rfl, rfl⟩

theorem HtcFrame.event_word {f : HtcFrame} (h : 4 ≤ f.payload.length) :
    ∃ id, rd32 f.payload 0 = some id ∧ f.event = some (id &&& kWmiCmdIdMask) := by
  have hin : 0 + 4 ≤ f.payload.length := by omega
  obtain ⟨b, hb⟩ := Option.isSome_iff_exists.1 (slice_isSome hin)
  exact ⟨decodeLE b, by rw [rd32, hb]; rfl, by rw [HtcFrame.event, rd32, hb]; rfl⟩

theorem Handshake.waitService_frame {s : Handshake} {f : HtcFrame} (hs : s.Waiting)
    (hf : f.WellFormed s.htc.fWmiEid) (he : f.event ≠ some kWmiTlvEvtServiceReady)
    (fs : List (List UInt8)) : ∃ s', s'.Waiting ∧ s'.htc.fWmiEid = s.htc.fWmiEid ∧
      s.waitService (f.encode :: fs) =
        if 4 ≤ f.payload.length then s'.waitService fs else some (false, s', fs) := by
  obtain ⟨n, rxBuf, hrecv⟩ := recvWmi_frame hf
  have hs₁ : Waiting ⟨s.wmi, { s.htc with fWmiCredits := n }, rxBuf,
      s.calls ++ [.recvWmi f.payload.length]⟩ :=
    hs.call (a := .recvWmi f.payload.length) fun _ => WmiAct.noConfusion
  rw [Handshake.waitService.eq_def, if_pos hs.fresh]
  by_cases hlen : 4 ≤ f.payload.length
  · obtain ⟨id, hrd, hev⟩ := HtcFrame.event_word hlen
    have hid : id &&& kWmiCmdIdMask ≠ kWmiTlvEvtServiceReady := fun h => he (by rw [hev, h])
    refine ⟨_, hs₁.call (a := .armRecv) fun _ => WmiAct.noConfusion, rfl, ?_⟩
    simp only [hrecv, Option.bind_eq_bind, Option.bind_some, if_neg (not_lt.2 hlen), hrd,
      if_neg hid, if_pos hlen]
  · refine ⟨_, hs₁, rfl, ?_⟩
    simp only [hrecv, Option.bind_eq_bind, Option.bind_some, if_pos (not_le.1 hlen), if_neg hlen,
      Option.pure_def]

/-- The first frame without an event id ends the wait; as long as none comes, it goes on. -/
theorem Handshake.waitService_frames {s : Handshake} {pre : List HtcFrame} (hs : s.Waiting)
    (hpre : ∀ f ∈ pre, f.WellFormed s.htc.fWmiEid ∧ f.event ≠ some kWmiTlvEvtServiceReady)
    (rest : List (List UInt8)) : ∃ s' fs, s'.Waiting ∧ s'.htc.fWmiEid = s.htc.fWmiEid ∧
      s.waitService (pre.map HtcFrame.encode ++ rest) =
        if ∀ f ∈ pre, 4 ≤ f.payload.length then s'.waitService rest
        else some (false, s', fs) := by
  induction pre generalizing s with
  | nil =>
    refine ⟨s, [], hs, rfl, ?_⟩
    rw [if_pos fun f hf => absurd hf List.not_mem_nil]
    rfl
  | cons f pre ih =>
    obtain ⟨hf, he⟩ := hpre f List.mem_cons_self
    obtain ⟨s₁, hs₁, heid, hstep⟩ :=
      waitService_frame hs hf he (pre.map HtcFrame.encode ++ rest)
    rw [List.map_cons, List.cons_append, hstep]
    by_cases hlen : 4 ≤ f.payload.length
    · have hpre' : ∀ g ∈ pre, g.WellFormed s₁.htc.fWmiEid ∧
          g.event ≠ some kWmiTlvEvtServiceReady := by
        intro g hg
        rw [heid]
        exact hpre g (List.mem_cons_of_mem f hg)
      obtain ⟨s₂, fs, hs₂, heid₂, hrun⟩ := ih hs₁ hpre'
      refine ⟨s₂, fs, hs₂, heid₂.trans heid, ?_⟩
      rw [if_pos hlen, hrun]
      simp only [List.forall_mem_cons, hlen, true_and]
    · refine ⟨s₁, pre.map HtcFrame.encode ++ rest, hs₁, heid, ?_⟩
      rw [if_neg hlen, if_neg fun h => hlen (h f List.mem_cons_self)]

theorem Handshake.waitService_ready {s : Handshake} {f : HtcFrame} (hs : s.Waiting)
    (hf : f.WellFormed s.htc.fWmiEid) (hr : f.ServiceReady) :
    ∃ s', s.waitService [f.encode] = some (true, s', []) := by
  obtain ⟨n, rxBuf, hrecv⟩ := recvWmi_frame hf
  obtain ⟨he, w, hw, hbuild⟩ := hr
  have hlen : 4 ≤ f.payload.length := by
    by_contra hshort
    rw [HtcFrame.event, rd32, slice, if_neg (by omega)] at he
    cases he
  obtain ⟨id, hrd, hev⟩ := HtcFrame.event_word hlen
  have hid : id &&& kWmiCmdIdMask = kWmiTlvEvtServiceReady := Option.some.inj (hev.symm.trans he)
  have hpast (t : Handshake) (ht : t.wmi = w) : t.waitService [] = some (true, t, []) := by
    rw [Handshake.waitService, if_neg fun h => hbuild (ht ▸ h.1)]
  rw [Handshake.waitService.eq_def, if_pos hs.fresh]
  simp only [hrecv, Option.bind_eq_bind, Option.bind_some, if_neg (not_lt.2 hlen), hrd,
    if_pos hid, Handshake.call, hs.1, hw, Bool.not_true, Bool.false_eq_true, if_false]
  exact ⟨_, hpast _ rfl⟩

theorem Handshake.sendInit_calls (sendWmi : Htc → List UInt8 → Bool × Htc) (s : Handshake) :
    ∃ ok, (s.sendInit sendWmi).2.calls = s.calls ++ [.sendInit ok] := by
  unfold Handshake.sendInit
  dsimp only
  split
  · exact ⟨_, rfl⟩
  · exact ⟨_, rfl⟩

/-- `sendInit` is reached exactly when every frame before the SERVICE_READY event has at least
the four payload bytes of an event id. -/
theorem sendInit_called_iff {s : Handshake} {pre : List HtcFrame} {last : HtcFrame}
    (sendWmi : Htc → List UInt8 → Bool × Htc) (hs : s.Waiting)
    (hpre : ∀ f ∈ pre, f.WellFormed s.htc.fWmiEid ∧ f.event ≠ some kWmiTlvEvtServiceReady)
    (hlast : last.WellFormed s.htc.fWmiEid) (hready : last.ServiceReady) :
    ∃ ok s', s.waitServiceAndReady sendWmi (pre.map HtcFrame.encode ++ [last.encode]) =
        some (ok, s') ∧
      ((∃ sent, WmiAct.sendInit sent ∈ s'.calls) ↔ ∀ f ∈ pre, 4 ≤ f.payload.length) := by
  have hs₀ := hs.call (a := .armRecv) fun _ => WmiAct.noConfusion
  obtain ⟨s₁, fs, hs₁, heid, hrun⟩ := Handshake.waitService_frames hs₀ hpre [last.encode]
  rw [Handshake.waitServiceAndReady, hrun]
  by_cases hall : ∀ f ∈ pre, 4 ≤ f.payload.length
  · obtain ⟨s₂, hready'⟩ := Handshake.waitService_ready hs₁ (heid ▸ hlast) hready
    obtain ⟨ok, hcalls⟩ := s₂.sendInit_calls sendWmi
    rw [if_pos hall, hready']
    dsimp only [Option.bind_eq_bind, Option.bind_some, Option.pure_def]
    have hmem (l : List WmiAct) : WmiAct.sendInit ok ∈ (s₂.sendInit sendWmi).2.calls ++ l := by
      rw [hcalls]
      exact List.mem_append_left _ (List.mem_append_right _ (List.mem_singleton.2 rfl))
    cases (s₂.sendInit sendWmi).1 with
    | false => exact ⟨_, _, rfl, fun _ => hall, fun _ => ⟨ok, by simpa using hmem []⟩⟩
    | true => exact ⟨_, _, rfl, fun _ => hall, fun _ => ⟨ok, hmem [.recvWmi 0]⟩⟩
  · rw [if_neg hall]
    refine ⟨false, s₁, rfl, ?_⟩
    constructor
    · rintro ⟨sent, hm⟩
      exact absurd hm (hs₁.2 sent)
    · exact fun h => absurd h hall

def serviceReadyFrame : HtcFrame :=
  ⟨1, 0, 0, 0, 0, encodeLE 4 kWmiTlvEvtServiceReady ++ tlvHdr 76 kTlvSvcReadyEvent ++
    encodeLE 76 1 ++ tlvHdr 4 kTlvArrayUInt32 ++ encodeLE 4 0, [], []⟩

def unrelatedFrame : HtcFrame := ⟨1, 0, 0, 0, 0, encodeLE 4 5, [], []⟩

def creditOnlyFrame : HtcFrame :=
  ⟨1, kHtcRxFlagTrailerPresent, 0, 0, 0, [], [1, 4, 0, 0, 1, 1, 0, 0], []⟩

def waitingHandshake : Handshake := ⟨freshWmi, ⟨1, 1792, 1, 1, 0, 0⟩, [], []⟩

theorem serviceReadyFrame_wellFormed : serviceReadyFrame.WellFormed 1 :=
  ⟨.inl rfl, by decide, fun h => absurd rfl h, by decide⟩

theorem creditOnlyFrame_wellFormed : creditOnlyFrame.WellFormed 1 :=
  ⟨.inl rfl, by decide, fun _ => by decide, by decide⟩

theorem serviceReadyFrame_ready : serviceReadyFrame.ServiceReady := by
  have hp : (freshWmi.parseServiceReady (serviceReadyFrame.payload.drop 4)).map
      (fun r => (r.1, r.2.fFwBuild)) = some (true, 1) := by decide +kernel
  obtain ⟨⟨ok, w⟩, hw, hr⟩ := Option.map_eq_some_iff.1 hp
  obtain ⟨rfl, hbuild⟩ := Prod.mk.inj hr
  exact ⟨by decide +kernel, w, hw, fun h0 => absurd (hbuild.symm.trans h0) one_ne_zero⟩

theorem sendInit_called_after_unrelated :
    ∃ ok s', waitingHandshake.waitServiceAndReady (fun c _ => (true, c))
        [unrelatedFrame.encode, serviceReadyFrame.encode] = some (ok, s') ∧
      ∃ sent, WmiAct.sendInit sent ∈ s'.calls := by
  have hpre : ∀ f ∈ [unrelatedFrame], f.WellFormed 1 ∧ f.event ≠ some kWmiTlvEvtServiceReady := by
    intro f hf
    rw [List.mem_singleton.1 hf]
    exact ⟨⟨.inl rfl, by decide, fun h => absurd rfl h, by decide⟩, by decide +kernel⟩
  obtain ⟨ok, s', hrun, hiff⟩ := sendInit_called_iff (s := waitingHandshake) (fun c _ => (true, c))
    ⟨rfl, fun _ => List.not_mem_nil⟩ hpre serviceReadyFrame_wellFormed serviceReadyFrame_ready
  refine ⟨ok, s', hrun, hiff.2 fun f hf => ?_⟩
  rw [List.mem_singleton.1 hf]
  decide

/-- A credit report on its own ends the handshake before the SERVICE_READY event is looked at. -/
theorem credit_report_ends_handshake :
    creditOnlyFrame.WellFormed 1 ∧ serviceReadyFrame.WellFormed 1 ∧
      serviceReadyFrame.ServiceReady ∧
      (waitingHandshake.waitServiceAndReady (fun c _ => (true, c))
        [creditOnlyFrame.encode, serviceReadyFrame.encode]).map (fun r => (r.1, r.2.calls)) =
          some (false, [.armRecv, .recvWmi 0]) :=
  ⟨creditOnlyFrame_wellFormed, serviceReadyFrame_wellFormed, serviceReadyFrame_ready,
    by decide +kernel⟩

end Qca9377
