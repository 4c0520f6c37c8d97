import Qca9377.Handshake

namespace Qca9377
open Bytes Interleaving
set_option autoImplicit true

/-- An event that phase 3 skips. -/
structure Unrelated (eid : UInt8) (f : List UInt8) : Prop where
  length : 4 ≤ (rxPayload eid f).length
  event : eventId (rxPayload eid f) ≠ some kWmiTlvEvtReady

theorem Unrelated.word (h : Unrelated eid f) : ∃ n, rd32 (rxPayload eid f) 0 = some n ∧
    n &&& kWmiCmdIdMask ≠ kWmiTlvEvtReady := by
  obtain ⟨n, hn, he⟩ := eventId_word h.length
  exact ⟨n, hn, fun hid => h.event (by rw [he, hid])⟩

theorem Handshake.waitReady_skip (s : Handshake) (h : Unrelated s.htc.fWmiEid f) (tries : Nat)
    (fs : List (List UInt8)) : ∃ s' : Handshake, s'.wmi = s.wmi ∧ s'.htc.fWmiEid = s.htc.fWmiEid ∧
      s.waitReady (tries + 1) (f :: fs) = s'.waitReady tries fs := by
  obtain ⟨n, rxBuf, hrecv⟩ := s.recvWmi_total f
  obtain ⟨word, hword, hid⟩ := h.word
  rw [Handshake.waitReady, hrecv, Option.bind_eq_bind, Option.bind_some]
  dsimp only
  rw [if_neg (Nat.not_lt.2 h.length), hword, Option.bind_eq_bind, Option.bind_some, if_neg hid]
  refine ⟨_, ?_, ?_, rfl⟩
  · rfl
  · rfl

/-- With fewer tries than events to skip, the wait is over before anything else is received. -/
theorem Handshake.waitReady_exhausted (s : Handshake)
    (hskip : ∀ f ∈ skipped, Unrelated s.htc.fWmiEid f) (hlen : tries ≤ skipped.length)
    (fs : List (List UInt8)) : ∃ s', s.waitReady tries (skipped ++ fs) = some (false, s') := by
  induction skipped generalizing s tries with
  | nil =>
    obtain rfl := Nat.le_zero.1 hlen
    exact ⟨s, by rw [Handshake.waitReady]⟩
  | cons f skipped ih =>
    cases tries with
    | zero => exact ⟨s, by rw [Handshake.waitReady]⟩
    | succ tries =>
      obtain ⟨s₁, -, heid, hrun⟩ :=
        s.waitReady_skip (hskip f List.mem_cons_self) tries (skipped ++ fs)
      obtain ⟨s', hs'⟩ := ih s₁ (fun g hg => heid ▸ hskip g (List.mem_cons_of_mem f hg))
        (Nat.le_of_succ_le_succ hlen)
      exact ⟨s', hrun.trans hs'⟩

theorem eventId_some (h : eventId buf = some event) :
    4 ≤ buf.length ∧ ∃ n, rd32 buf 0 = some n ∧ n &&& kWmiCmdIdMask = event := by
  have hlen : 4 ≤ buf.length := by
    by_contra hshort
    rw [eventId, rd32, slice, if_neg (by omega)] at h
    cases h
  obtain ⟨n, hn, he⟩ := eventId_word hlen
  exact ⟨hlen, n, hn, Option.some.inj (he.symm.trans h)⟩

theorem Handshake.waitReady_accepts (s : Handshake)
    (h : AcceptsReady s.wmi (rxPayload s.htc.fWmiEid f) w) (tries : Nat) (fs : List (List UInt8)) :
    ∃ s' : Handshake, s'.wmi = w ∧ s.waitReady (tries + 1) (f :: fs) = some (true, s') := by
  obtain ⟨n, rxBuf, hrecv⟩ := s.recvWmi_total f
  obtain ⟨hlen, word, hword, hid⟩ := eventId_some h.event
  rw [Handshake.waitReady, hrecv, Option.bind_eq_bind, Option.bind_some]
  dsimp only
  rw [if_neg (Nat.not_lt.2 hlen), hword, Option.bind_eq_bind, Option.bind_some, if_pos hid,
    Handshake.call, h.parsed]
  refine ⟨_, ?_, rfl⟩
  rfl

/-- The events to be skipped are skipped as long as tries are left. -/
theorem Handshake.waitReady_skips (s : Handshake)
    (hskip : ∀ f ∈ skipped, Unrelated s.htc.fWmiEid f) (hlen : skipped.length < tries)
    (h : AcceptsReady s.wmi (rxPayload s.htc.fWmiEid ready) w) (rest : List (List UInt8)) :
    ∃ s' : Handshake, s'.wmi = w ∧
      s.waitReady tries (skipped ++ ready :: rest) = some (true, s') := by
  induction skipped generalizing s tries with
  | nil =>
    cases tries with
    | zero => cases hlen
    | succ tries => exact s.waitReady_accepts h tries rest
  | cons f skipped ih =>
    cases tries with
    | zero => cases hlen
    | succ tries =>
      obtain ⟨s₁, hwmi, heid, hrun⟩ :=
        s.waitReady_skip (hskip f List.mem_cons_self) tries (skipped ++ ready :: rest)
      rw [← hwmi, ← heid] at h
      obtain ⟨s', hw, hs'⟩ := ih s₁ (fun g hg => heid ▸ hskip g (List.mem_cons_of_mem f hg))
        (Nat.lt_of_succ_lt_succ hlen) h
      exact ⟨s', hw, hrun.trans hs'⟩

/-- The handshake has sent WMI_INIT and is in state `t`; `after` is what it has not received by
then. -/
def InitSent (sendWmi : Htc → List UInt8 → Bool × Htc) (s : Handshake)
    (frames : List (List UInt8)) (t : Handshake) (after : List (List UInt8)) : Prop :=
  ∃ s₁, (s.call .armRecv).waitService frames = some (true, s₁, after) ∧
    s₁.sendInit sendWmi = (true, t)

theorem InitSent.run (h : InitSent sendWmi s frames t after) :
    s.waitServiceAndReady sendWmi frames = t.waitReady 5 after := by
  obtain ⟨s₁, hservice, hinit⟩ := h
  rw [Handshake.waitServiceAndReady, hservice, Option.bind_eq_bind, Option.bind_some]
  dsimp only
  rw [Bool.not_true, if_neg Bool.false_ne_true, hinit]
  exact if_neg Bool.false_ne_true

/-- Behind WMI_INIT, a READY event is taken after any number of unrelated events below five. -/
theorem ready_after_skips_iff {s t : Handshake}
    (h : InitSent sendWmi s frames t (skipped ++ ready :: rest))
    (hskip : ∀ f ∈ skipped, Unrelated t.htc.fWmiEid f)
    (hready : AcceptsReady t.wmi (rxPayload t.htc.fWmiEid ready) w) :
    (∃ s', s.waitServiceAndReady sendWmi frames = some (true, s') ∧
      AcceptsReady t.wmi (rxPayload t.htc.fWmiEid ready) s'.wmi) ↔ skipped.length < 5 := by
  rw [h.run]
  constructor
  · rintro ⟨s', hrun, -⟩
    by_contra hlen
    obtain ⟨s'', hfail⟩ := t.waitReady_exhausted hskip (not_lt.1 hlen) (ready :: rest)
    cases hrun.symm.trans hfail
  · intro hlen
    obtain ⟨s', hw, hrun⟩ := t.waitReady_skips hskip hlen hready rest
    exact ⟨s', hrun, hw.symm ▸ hready⟩

/-- The condition of the loop of phase 1. -/
def Wmi.Unset (w : Wmi) : Prop := w.fFwBuild = 0 ∧ w.fAbi 0 = 0

/-- An event that phase 1 skips. -/
structure PreService (eid : UInt8) (f : List UInt8) : Prop where
  length : 4 ≤ (rxPayload eid f).length
  event : eventId (rxPayload eid f) ≠ some kWmiTlvEvtServiceReady

/-- What one turn of phase 1 that does not end it leaves of the frames. -/
structure Handshake.Took (s : Handshake) (f : List UInt8) (w : Wmi) (s' : Handshake) : Prop where
  wmi : s'.wmi = w
  eid : s'.htc.fWmiEid = s.htc.fWmiEid
  calls : s'.calls = s.calls ++ [.recvWmi (rxPayload s.htc.fWmiEid f).length, .armRecv]

theorem Handshake.waitService_skip (s : Handshake) (hs : s.wmi.Unset)
    (h : PreService s.htc.fWmiEid f) (fs : List (List UInt8)) :
    ∃ s', s.Took f s.wmi s' ∧ s.waitService (f :: fs) = s'.waitService fs := by
  obtain ⟨n, rxBuf, hrecv⟩ := s.recvWmi_total f
  obtain ⟨word, hword, he⟩ := eventId_word h.length
  have hid : word &&& kWmiCmdIdMask ≠ kWmiTlvEvtServiceReady :=
    fun hid => h.event (by rw [he, hid])
  have hloop : s.wmi.fFwBuild = 0 ∧ s.wmi.fAbi 0 = 0 := hs
  rw [Handshake.waitService.eq_def, if_pos hloop]
  dsimp only
  rw [hrecv, Option.bind_eq_bind, Option.bind_some]
  dsimp only
  rw [if_neg (Nat.not_lt.2 h.length), hword, Option.bind_eq_bind, Option.bind_some, if_neg hid]
  refine ⟨_, ⟨?_, ?_, ?_⟩, rfl⟩
  · rfl
  · rfl
  · exact List.append_assoc _ _ _

theorem Handshake.waitService_accepts (s : Handshake) (hs : s.wmi.Unset)
    (h : AcceptsService s.wmi (rxPayload s.htc.fWmiEid f) w) (fs : List (List UInt8)) :
    ∃ s', s.Took f w s' ∧ s.waitService (f :: fs) = s'.waitService fs := by
  obtain ⟨n, rxBuf, hrecv⟩ := s.recvWmi_total f
  obtain ⟨hlen, word, hword, hid⟩ := eventId_some h.event
  have hloop : s.wmi.fFwBuild = 0 ∧ s.wmi.fAbi 0 = 0 := hs
  rw [Handshake.waitService.eq_def, if_pos hloop]
  dsimp only
  rw [hrecv, Option.bind_eq_bind, Option.bind_some]
  dsimp only
  rw [if_neg (Nat.not_lt.2 hlen), hword, Option.bind_eq_bind, Option.bind_some, if_pos hid,
    Handshake.call, h.parsed, Option.bind_eq_bind, Option.bind_some]
  dsimp only
  rw [Bool.not_true, if_neg Bool.false_ne_true]
  refine ⟨_, ⟨?_, ?_, ?_⟩, rfl⟩
  · rfl
  · rfl
  · exact List.append_assoc _ _ _

/-- Whether a READY event is accepted does not depend on the object. -/
theorem parseReady_accepts (h : (freshWmi.parseReady p).map Prod.fst = some true) (w : Wmi) :
    ∃ v, w.parseReady p = some (true, v) := by
  unfold Wmi.parseReady at h ⊢
  generalize tlvParse p kTlvMaxTag = t at h
  obtain ⟨ok, tb⟩ := t
  cases ok with
  | false => cases h
  | true =>
    simp only [Bool.not_true, Bool.false_eq_true, if_false, Option.pure_def] at h ⊢
    cases hptr : (tb kTlvReadyEvent).ptr with
    | none =>
      rw [hptr] at h
      cases h
    | some ev =>
      rw [hptr] at h
      dsimp only at h ⊢
      by_cases hlen : (tb kTlvReadyEvent).len < 36
      · rw [if_pos hlen] at h
        cases h
      · rw [if_neg hlen] at h ⊢
        obtain ⟨r, hr, -⟩ := Option.map_eq_some_iff.1 h
        obtain ⟨abi, habi, hr⟩ := Option.bind_eq_some_iff.1 hr
        obtain ⟨mac, hmac, hr⟩ := Option.bind_eq_some_iff.1 hr
        obtain ⟨status, hstatus, -⟩ := Option.bind_eq_some_iff.1 hr
        rw [habi, Option.bind_eq_bind, Option.bind_some, hmac, Option.bind_eq_bind,
          Option.bind_some, hstatus]
        exact ⟨_, rfl⟩

def readyFrame : HtcFrame :=
  ⟨1, 0, 0, 0, 0, encodeLE 4 kWmiTlvEvtReady ++ tlvHdr 36 kTlvReadyEvent ++ List.replicate 36 2,
    [], []⟩

theorem readyFrame_accepted (w : Wmi) :
    ∃ v, AcceptsReady w (rxPayload 1 readyFrame.encode) v := by
  have hevent : eventId (rxPayload 1 readyFrame.encode) = some kWmiTlvEvtReady := by decide +kernel
  have hfresh : (freshWmi.parseReady ((rxPayload 1 readyFrame.encode).drop 4)).map Prod.fst =
      some true := by decide +kernel
  obtain ⟨v, hv⟩ := parseReady_accepts hfresh w
  exact ⟨v, hevent, hv, parseReady_mac hv⟩

theorem unrelatedFrame_unrelated : Unrelated 1 unrelatedFrame.encode :=
  ⟨by decide +kernel, by decide +kernel⟩

/-- A handshake whose sends succeed, right after WMI_INIT. -/
theorem initSent_sample (after : List (List UInt8)) : ∃ t,
    InitSent (fun c _ => (true, c)) waitingHandshake (serviceReadyFrame.encode :: after) t after ∧
      t.htc.fWmiEid = 1 := by
  have hpayload : rxPayload 1 serviceReadyFrame.encode = serviceReadyFrame.payload := by
    decide +kernel
  obtain ⟨hevent, w, hw, hbuild⟩ := serviceReadyFrame_ready
  have hsvc : AcceptsService freshWmi (rxPayload 1 serviceReadyFrame.encode) w := by
    rw [hpayload]
    exact ⟨hevent, hw⟩
  obtain ⟨s, hs, hrun⟩ :=
    (waitingHandshake.call .armRecv).waitService_accepts ⟨rfl, rfl⟩ hsvc after
  have hset : ¬ s.wmi.Unset := fun h => hbuild (hs.wmi ▸ h.1)
  have hlen : (initFrame kAbiWords kRsrcCfg).2 = 4 + 36 + 184 + 8 := by decide +kernel
  refine ⟨s.call (.sendInit true), ⟨s, ?_, ?_⟩, hs.eid⟩
  · rw [hrun, Handshake.waitService.eq_def]
    exact if_neg hset
  · unfold Handshake.sendInit
    dsimp only
    rw [if_neg (not_not.2 hlen)]

theorem ready_after_one :
    ∃ s', waitingHandshake.waitServiceAndReady (fun c _ => (true, c))
      [serviceReadyFrame.encode, unrelatedFrame.encode, readyFrame.encode] = some (true, s') := by
  obtain ⟨t, hsent, heid⟩ := initSent_sample ([unrelatedFrame.encode] ++ readyFrame.encode :: [])
  obtain ⟨w, hready⟩ := readyFrame_accepted t.wmi
  have hskip : ∀ f ∈ [unrelatedFrame.encode], Unrelated t.htc.fWmiEid f := by
    intro f hf
    rw [List.mem_singleton.1 hf, heid]
    exact unrelatedFrame_unrelated
  rw [← heid] at hready
  obtain ⟨s', hrun, -⟩ := (ready_after_skips_iff hsent hskip hready).2 (by decide)
  exact ⟨s', hrun⟩

/-- Five unrelated events use up the tries, and the READY event behind them is not received. -/
theorem ready_after_five_missed : ∃ t : Handshake,
    InitSent (fun c _ => (true, c)) waitingHandshake
        (serviceReadyFrame.encode ::
          (List.replicate 5 unrelatedFrame.encode ++ [readyFrame.encode]))
        t (List.replicate 5 unrelatedFrame.encode ++ [readyFrame.encode]) ∧
      (∀ f ∈ List.replicate 5 unrelatedFrame.encode, Unrelated t.htc.fWmiEid f) ∧
      (∃ w, AcceptsReady t.wmi (rxPayload t.htc.fWmiEid readyFrame.encode) w) ∧
      ∃ s', waitingHandshake.waitServiceAndReady (fun c _ => (true, c)) (serviceReadyFrame.encode ::
        (List.replicate 5 unrelatedFrame.encode ++ [readyFrame.encode])) = some (false, s') := by
  obtain ⟨t, hsent, heid⟩ :=
    initSent_sample (List.replicate 5 unrelatedFrame.encode ++ [readyFrame.encode])
  have hskip : ∀ f ∈ List.replicate 5 unrelatedFrame.encode, Unrelated t.htc.fWmiEid f := by
    intro f hf
    rw [List.eq_of_mem_replicate hf, heid]
    exact unrelatedFrame_unrelated
  obtain ⟨s', hfail⟩ := t.waitReady_exhausted hskip (Nat.le_refl 5) [readyFrame.encode]
  exact ⟨t, hsent, hskip, heid ▸ readyFrame_accepted t.wmi, s', hsent.run.trans hfail⟩

theorem rdAbi_zero (h : rdAbi p off = some abi) : rd32 p off = some (abi 0) := by
  obtain ⟨a, ha, h⟩ := Option.bind_eq_some_iff.1 h
  obtain ⟨b, -, h⟩ := Option.bind_eq_some_iff.1 h
  obtain ⟨c, -, h⟩ := Option.bind_eq_some_iff.1 h
  obtain ⟨d, -, h⟩ := Option.bind_eq_some_iff.1 h
  obtain ⟨e, -, h⟩ := Option.bind_eq_some_iff.1 h
  obtain ⟨f, -, h⟩ := Option.bind_eq_some_iff.1 h
  obtain rfl := Option.some.inj h
  exact ha

theorem parseServiceReady_words {w v : Wmi} (h : w.parseServiceReady p = some (true, v)) :
    ∃ ev len, (tlvParse p kTlvMaxTag).2 kTlvSvcReadyEvent = ⟨some ev, len⟩ ∧
      rd32 p ev = some v.fFwBuild ∧ rd32 p (ev + 4) = some (v.fAbi 0) := by
  unfold Wmi.parseServiceReady at h
  generalize tlvParse p kTlvMaxTag = t at h
  obtain ⟨ok, tb⟩ := t
  cases ok with
  | false => cases h
  | true =>
    simp only [Bool.not_true, Bool.false_eq_true, if_false, Option.pure_def] at h
    cases hptr : (tb kTlvSvcReadyEvent).ptr with
    | none =>
      rw [hptr] at h
      cases h
    | some ev =>
      rw [hptr] at h
      dsimp only at h
      by_cases hlen : (tb kTlvSvcReadyEvent).len < 76
      · rw [if_pos hlen] at h
        cases h
      · rw [if_neg hlen] at h
        obtain ⟨build, hbuild, h⟩ := Option.bind_eq_some_iff.1 h
        obtain ⟨abi, habi, h⟩ := Option.bind_eq_some_iff.1 h
        obtain ⟨phy, -, h⟩ := Option.bind_eq_some_iff.1 h
        obtain ⟨chains, -, h⟩ := Option.bind_eq_some_iff.1 h
        obtain ⟨reqs, -, h⟩ := Option.bind_eq_some_iff.1 h
        obtain rfl : v = { w with
            fFwBuild := build
            fAbi := abi
            fPhyCapab := phy
            fNumRfChains := chains
            fNumMemReqs := reqs } := by
          split at h
          · cases h
          · split at h
            · cases h
            · obtain ⟨-, -, h⟩ := Option.bind_eq_some_iff.1 h
              exact (Prod.mk.inj (Option.some.inj h)).2.symm
        exact ⟨ev, _, by rw [← hptr], hbuild, rdAbi_zero habi⟩

theorem takenCalls_concat (eid : UInt8) (frames : List (List UInt8)) (f : List UInt8) :
    takenCalls eid (frames ++ [f]) =
      takenCalls eid frames ++ [.recvWmi (rxPayload eid f).length, .armRecv] := by
  rw [takenCalls, List.flatMap_append]
  rfl

/-- A SERVICE_READY event that a fresh object accepts, with its build number and first ABI word. -/
structure AcceptedWith (buf : List UInt8) (fwBuild abi0 : Nat) : Prop where
  accepted : ∃ w, AcceptsService freshWmi buf w
  words : ∃ ev len, (tlvParse (buf.drop 4) kTlvMaxTag).2 kTlvSvcReadyEvent = ⟨some ev, len⟩ ∧
    rd32 (buf.drop 4) ev = some fwBuild ∧ rd32 (buf.drop 4) (ev + 4) = some abi0

theorem Handshake.waitService_skips (s : Handshake) (hs : s.wmi.Unset)
    (hpre : ∀ f ∈ pre, PreService s.htc.fWmiEid f) (fs : List (List UInt8)) :
    ∃ s' : Handshake, s'.wmi = s.wmi ∧ s'.htc.fWmiEid = s.htc.fWmiEid ∧
      s'.calls = s.calls ++ takenCalls s.htc.fWmiEid pre ∧
      s.waitService (pre ++ fs) = s'.waitService fs := by
  induction pre generalizing s with
  | nil => exact ⟨s, rfl, rfl, (List.append_nil _).symm, rfl⟩
  | cons f pre ih =>
    obtain ⟨s₁, h₁, hrun₁⟩ := s.waitService_skip hs (hpre f List.mem_cons_self) (pre ++ fs)
    obtain ⟨s₂, hwmi, heid, hcalls, hrun⟩ := ih s₁ (h₁.wmi ▸ hs)
      fun g hg => h₁.eid ▸ hpre g (List.mem_cons_of_mem f hg)
    refine ⟨s₂, hwmi.trans h₁.wmi, heid.trans h₁.eid, ?_, hrun₁.trans hrun⟩
    rw [hcalls, h₁.calls, h₁.eid, List.append_assoc]
    rfl

/-- As long as its condition holds, phase 1 goes on with a receive. -/
theorem Handshake.waitService_receives (s : Handshake) (hs : s.wmi.Unset)
    (fs : List (List UInt8)) : ∃ ok s' after n l, s.waitService fs = some (ok, s', after) ∧
      s'.calls = s.calls ++ .recvWmi n :: l := by
  have hloop : s.wmi.fFwBuild = 0 ∧ s.wmi.fAbi 0 = 0 := hs
  have hextends (t : Handshake) (fs : List (List UInt8)) : ∃ ok s' after l,
      t.waitService fs = some (ok, s', after) ∧ s'.calls = t.calls ++ l := by
    by_cases ht : t.wmi.fFwBuild = 0 ∧ t.wmi.fAbi 0 = 0
    · obtain ⟨ok, s', after, hrun, hpost⟩ := t.waitService_spec fs ht
      cases hpost with
      | failed hcalls => exact ⟨_, _, _, _, hrun, hcalls⟩
      | accepted before svc hframes hsvc hcalls => exact ⟨_, _, _, _, hrun, hcalls⟩
    · rw [Handshake.waitService.eq_def, if_neg ht]
      exact ⟨_, _, _, [], rfl, (List.append_nil _).symm⟩
  cases fs with
  | nil =>
    rw [Handshake.waitService.eq_def, if_pos hloop]
    exact ⟨_, _, _, _, [], rfl, rfl⟩
  | cons f fs =>
    obtain ⟨n, rxBuf, hrecv⟩ := s.recvWmi_total f
    rw [Handshake.waitService.eq_def, if_pos hloop]
    dsimp only
    rw [hrecv, Option.bind_eq_bind, Option.bind_some]
    dsimp only
    by_cases hlen : 4 ≤ (rxPayload s.htc.fWmiEid f).length
    · obtain ⟨word, hword, -⟩ := eventId_word hlen
      rw [if_neg (Nat.not_lt.2 hlen), hword, Option.bind_eq_bind, Option.bind_some]
      have hgoes (t : Handshake)
          (ht : t.calls = s.calls ++ [.recvWmi (rxPayload s.htc.fWmiEid f).length, .armRecv]) :
          ∃ ok s' after n l, t.waitService fs = some (ok, s', after) ∧
            s'.calls = s.calls ++ .recvWmi n :: l := by
        obtain ⟨ok, s', after, l, hrun, hcalls⟩ := hextends t fs
        refine ⟨ok, s', after, (rxPayload s.htc.fWmiEid f).length, .armRecv :: l, hrun, ?_⟩
        rw [hcalls, ht, List.append_assoc]
        rfl
      by_cases hid : word &&& kWmiCmdIdMask = kWmiTlvEvtServiceReady
      · obtain ⟨⟨ok, w⟩, hparse⟩ :=
          parseServiceReady_isSome s.wmi ((rxPayload s.htc.fWmiEid f).drop 4)
        rw [if_pos hid, Handshake.call, hparse, Option.bind_eq_bind, Option.bind_some]
        cases ok with
        | false => exact ⟨_, _, _, _, _, rfl, List.append_assoc _ _ _⟩
        | true => exact hgoes ⟨w, _, _, _⟩ (List.append_assoc _ _ _)
      · rw [if_neg hid]
        exact hgoes (Handshake.call .armRecv ⟨s.wmi, _, _, _⟩) (List.append_assoc _ _ _)
    · rw [if_pos (Nat.lt_of_not_le hlen)]
      exact ⟨_, _, _, _, [], rfl, rfl⟩

theorem Handshake.waitService_failed {s t : Handshake} (sendWmi : Htc → List UInt8 → Bool × Htc)
    (h : (s.call .armRecv).waitService frames = some (false, t, after)) :
    s.waitServiceAndReady sendWmi frames = some (false, t) := by
  rw [Handshake.waitServiceAndReady, h, Option.bind_eq_bind, Option.bind_some]
  exact if_pos rfl

theorem Handshake.waitService_passed {s t : Handshake} (sendWmi : Htc → List UInt8 → Bool × Htc)
    (h : (s.call .armRecv).waitService frames = some (true, t, after)) :
    ∃ ok s' l, s.waitServiceAndReady sendWmi frames = some (ok, s') ∧
      s'.calls = t.calls ++ .sendInit (t.sendInit sendWmi).1 :: l := by
  have hlog := t.sendInit_log sendWmi
  rw [Handshake.waitServiceAndReady, h, Option.bind_eq_bind, Option.bind_some]
  dsimp only
  rw [Bool.not_true, if_neg Bool.false_ne_true]
  cases hsent : (t.sendInit sendWmi).1 with
  | false =>
    rw [hsent] at hlog
    exact ⟨_, _, [], if_pos rfl, hlog⟩
  | true =>
    obtain ⟨ok, s', l, hrun, hcalls, -⟩ := (t.sendInit sendWmi).2.waitReady_spec 5 after
    refine ⟨ok, s', l, (if_neg Bool.false_ne_true).trans hrun, ?_⟩
    rw [hcalls, hlog, hsent, List.append_assoc]
    rfl

/-- A handshake whose phase 1 goes on receives once more. -/
theorem Handshake.waitServiceAndReady_receives {s t : Handshake}
    (sendWmi : Htc → List UInt8 → Bool × Htc) (ht : t.wmi.Unset)
    (hrun : (s.call .armRecv).waitService frames = t.waitService rest) :
    ∃ ok s' n l, s.waitServiceAndReady sendWmi frames = some (ok, s') ∧
      s'.calls = t.calls ++ .recvWmi n :: l := by
  obtain ⟨ok, u, after, n, l, hservice, hreceived⟩ := t.waitService_receives ht rest
  cases ok with
  | false =>
    exact ⟨_, _, _, _, Handshake.waitService_failed sendWmi (hrun.trans hservice), hreceived⟩
  | true =>
    obtain ⟨ok, s', l', hwhole, hrest⟩ := Handshake.waitService_passed sendWmi (hrun.trans hservice)
    refine ⟨ok, s', n, l ++ .sendInit (u.sendInit sendWmi).1 :: l', hwhole, ?_⟩
    rw [hrest, hreceived, List.append_assoc]
    rfl

/-- A handshake whose phase 1 is over sends INIT. -/
theorem Handshake.waitServiceAndReady_sends {s t : Handshake}
    (sendWmi : Htc → List UInt8 → Bool × Htc) (ht : ¬ t.wmi.Unset)
    (hrun : (s.call .armRecv).waitService frames = t.waitService rest) :
    ∃ ok s' sent l, s.waitServiceAndReady sendWmi frames = some (ok, s') ∧
      s'.calls = t.calls ++ .sendInit sent :: l := by
  have hpassed : t.waitService rest = some (true, t, rest) := by
    rw [Handshake.waitService.eq_def]
    exact if_neg ht
  obtain ⟨ok, s', l, hwhole, hsent⟩ := Handshake.waitService_passed sendWmi (hrun.trans hpassed)
  exact ⟨ok, s', _, l, hwhole, hsent⟩

/-- Phase 1 of a fresh object ends with the first SERVICE_READY event that is accepted exactly when
its build number or its first ABI word is set. -/
theorem firstAccepted_ends_iff (sendWmi : Htc → List UInt8 → Bool × Htc) (htc : Htc)
    (rxBuf : List UInt8) (hpre : ∀ f ∈ pre, PreService htc.fWmiEid f)
    (hsvc : AcceptedWith (rxPayload htc.fWmiEid svc) fwBuild abi0) (rest : List (List UInt8)) :
    (∃ ok s' sent l, Handshake.waitServiceAndReady sendWmi ⟨freshWmi, htc, rxBuf, []⟩
        (pre ++ svc :: rest) = some (ok, s') ∧
      s'.calls = .armRecv :: takenCalls htc.fWmiEid (pre ++ [svc]) ++ .sendInit sent :: l) ↔
        fwBuild ≠ 0 ∨ abi0 ≠ 0 := by
  let s : Handshake := Handshake.call .armRecv ⟨freshWmi, htc, rxBuf, []⟩
  obtain ⟨⟨w, hw⟩, ev, len, hview, hbuild, habi⟩ := hsvc
  obtain ⟨ev', len', hview', hbuild', habi'⟩ := parseServiceReady_words hw.parsed
  obtain rfl := Option.some.inj (congrArg View.ptr (hview.symm.trans hview'))
  have hunset : w.Unset ↔ fwBuild = 0 ∧ abi0 = 0 := by
    rw [Wmi.Unset, ← Option.some.inj (hbuild.symm.trans hbuild'),
      ← Option.some.inj (habi.symm.trans habi')]
  obtain ⟨s₁, hwmi, heid, hcalls₁, hrun₁⟩ := s.waitService_skips ⟨rfl, rfl⟩ hpre (svc :: rest)
  have hunset₁ : s₁.wmi.Unset := by
    rw [hwmi]
    exact ⟨rfl, rfl⟩
  have hw₁ : AcceptsService s₁.wmi (rxPayload s₁.htc.fWmiEid svc) w := by
    rw [hwmi, heid]
    exact hw
  obtain ⟨s₂, h₂, hrun₂⟩ := s₁.waitService_accepts hunset₁ hw₁ rest
  have hcalls : s₂.calls = .armRecv :: takenCalls htc.fWmiEid (pre ++ [svc]) := by
    rw [h₂.calls, hcalls₁, heid, List.append_assoc, takenCalls_concat]
    rfl
  have hrun := hrun₁.trans hrun₂
  rw [← hcalls]
  by_cases hzero : fwBuild = 0 ∧ abi0 = 0
  · have hloop : s₂.wmi.Unset := by
      rw [h₂.wmi]
      exact hunset.2 hzero
    obtain ⟨ok, s', n, l, hwhole, hrest⟩ :=
      Handshake.waitServiceAndReady_receives sendWmi hloop hrun
    constructor
    · rintro ⟨ok', s'', sent, l', hwhole', hsent⟩
      obtain ⟨-, rfl⟩ := Prod.mk.inj (Option.some.inj (hwhole.symm.trans hwhole'))
      cases List.append_cancel_left (hrest.symm.trans hsent)
    · rintro (hbuild | habi)
      · exact absurd hzero.1 hbuild
      · exact absurd hzero.2 habi
  · have hover : ¬ s₂.wmi.Unset := by
      rw [h₂.wmi]
      exact fun h => hzero (hunset.1 h)
    obtain ⟨ok, s', sent, l, hwhole, hsent⟩ :=
      Handshake.waitServiceAndReady_sends sendWmi hover hrun
    exact ⟨fun _ => not_and_or.1 hzero, fun _ => ⟨ok, s', sent, l, hwhole, hsent⟩⟩

/-- A SERVICE_READY event with this build number, an ABI of zeros and a bitmap of zeros. -/
def serviceEvent (fwBuild : Nat) : HtcFrame :=
  ⟨1, 0, 0, 0, 0, encodeLE 4 kWmiTlvEvtServiceReady ++ tlvHdr 76 kTlvSvcReadyEvent ++
    encodeLE 76 fwBuild ++ tlvHdr 4 kTlvArrayUInt32 ++ encodeLE 4 0, [], []⟩

theorem acceptedWith_of_parse (ev len : Nat)
    (hevent : eventId buf = some kWmiTlvEvtServiceReady)
    (hparse : (freshWmi.parseServiceReady (buf.drop 4)).map Prod.fst = some true)
    (hview : (tlvParse (buf.drop 4) kTlvMaxTag).2 kTlvSvcReadyEvent = ⟨some ev, len⟩)
    (hbuild : rd32 (buf.drop 4) ev = some fwBuild)
    (habi : rd32 (buf.drop 4) (ev + 4) = some abi0) : AcceptedWith buf fwBuild abi0 := by
  obtain ⟨⟨ok, w⟩, hw, rfl⟩ := Option.map_eq_some_iff.1 hparse
  exact ⟨⟨w, hevent, hw⟩, ev, len, hview, hbuild, habi⟩

theorem serviceEvent_one : AcceptedWith (rxPayload 1 (serviceEvent 1).encode) 1 0 :=
  acceptedWith_of_parse 4 76 (by decide +kernel) (by decide +kernel) (by decide +kernel)
    (by decide +kernel) (by decide +kernel)

theorem serviceEvent_zero : AcceptedWith (rxPayload 1 (serviceEvent 0).encode) 0 0 :=
  acceptedWith_of_parse 4 76 (by decide +kernel) (by decide +kernel) (by decide +kernel)
    (by decide +kernel) (by decide +kernel)

theorem firstAccepted_ends_one : ∃ ok s' sent l,
    Handshake.waitServiceAndReady (fun c _ => (true, c)) waitingHandshake
      [(serviceEvent 1).encode] = some (ok, s') ∧
    s'.calls = .armRecv :: takenCalls 1 [(serviceEvent 1).encode] ++ .sendInit sent :: l := by
  have hpre : ∀ f ∈ ([] : List (List UInt8)), PreService waitingHandshake.htc.fWmiEid f :=
    fun f hf => absurd hf List.not_mem_nil
  exact (firstAccepted_ends_iff (fun c _ => (true, c)) waitingHandshake.htc [] hpre
    serviceEvent_one []).2 (.inl one_ne_zero)

/-- An accepted event whose build number and first ABI word are 0 does not end phase 1. -/
theorem zero_build_waits_on :
    AcceptedWith (rxPayload 1 (serviceEvent 0).encode) 0 0 ∧
      (Handshake.waitServiceAndReady (fun c _ => (true, c)) waitingHandshake
        [(serviceEvent 0).encode]).map (fun r => (r.1, r.2.calls)) =
          some (false, [.armRecv, .recvWmi 92, .armRecv, .recvWmi 0]) :=
  ⟨serviceEvent_zero, by decide +kernel⟩

end Qca9377
