import Qca9377.TlvTable

namespace Qca9377
open Bytes Interleaving
set_option autoImplicit true

/-- What a frame holds for an endpoint, in a buffer of 2048 bytes: nothing when the frame is for
another endpoint, its lengths do not fit or the buffer is too small. -/
def rxPayload (eid : UInt8) (f : List UInt8) : List UInt8 :=
  match f[0]?, rd16At f 2, f[4]? with
  | some e, some len, some trailerLen =>
    if kHtcFrameHdrLen ≤ f.length ∧ (e = eid ∨ e = 0) ∧ len ≤ f.length - kHtcFrameHdrLen ∧
        trailerLen.toNat ≤ len ∧ len - trailerLen.toNat ≤ 2048 then
      (f.drop kHtcFrameHdrLen).take (len - trailerLen.toNat)
    else []
  | _, _, _ => []

theorem rxPayload_short (h : f.length < kHtcFrameHdrLen) : rxPayload eid f = [] := by
  unfold rxPayload
  split
  · exact if_neg fun hf => absurd hf.1 (Nat.not_le.2 h)
  · rfl

theorem rd16At_append (h : off + 2 ≤ f.length) :
    ∃ n, rd16At f off = some n ∧ ∀ rest, rd16At (f ++ rest) off = some n := by
  have h0 : off < f.length := by omega
  have h1 : off + 1 < f.length := by omega
  refine ⟨rd16 f[off] f[off + 1], ?_, fun rest => ?_⟩
  · rw [rd16At, List.getElem?_eq_getElem h0, List.getElem?_eq_getElem h1]
    rfl
  · rw [rd16At, List.getElem?_append_left h0, List.getElem?_append_left h1,
      List.getElem?_eq_getElem h0, List.getElem?_eq_getElem h1]
    rfl

theorem Htc.rxTrailer_total (c : Htc) (x : HtcRx) (h : rawLen ≤ raw.length) :
    ∃ n, c.rxTrailer raw rawLen x = some { c with fWmiCredits := n } := by
  unfold Htc.rxTrailer
  split
  · dsimp only
    split
    · next hin =>
      have hroom : kHtcFrameHdrLen + x.len - x.trailerLen + x.trailerLen ≤ raw.length :=
        hin.2.trans h
      obtain ⟨trailer, htrailer⟩ := Option.isSome_iff_exists.1 (slice_isSome hroom)
      obtain ⟨n, hn⟩ := creditRecords_isSome c.fWmiEid trailer 0 c.fWmiCredits
      refine ⟨n, ?_⟩
      rw [htrailer, Option.bind_eq_bind, Option.bind_some, Htc.applyCreditReport, hn]
      rfl
    · exact ⟨c.fWmiCredits, rfl⟩
  · exact ⟨c.fWmiCredits, rfl⟩

theorem HtcRx.payload_total (x : HtcRx) (rest : List UInt8)
    (h : kHtcFrameHdrLen + (x.len - x.trailerLen) ≤ f.length) :
    x.payload (f ++ rest) 2048 =
      some (if x.len - x.trailerLen ≤ 2048 then
        (f.drop kHtcFrameHdrLen).take (x.len - x.trailerLen) else []) := by
  unfold HtcRx.payload
  dsimp only
  generalize x.len - x.trailerLen = n at h
  by_cases hn : n = 0
  · subst hn
    rw [if_pos (.inl rfl), List.take_zero, ite_self]
  · by_cases hbuf : 2048 < n
    · rw [if_pos (.inr hbuf), if_neg (Nat.not_le.2 hbuf)]
    · have hin : kHtcFrameHdrLen + n ≤ (f ++ rest).length := by
        rw [List.length_append]
        omega
      have hdrop : kHtcFrameHdrLen ≤ f.length := by omega
      have htake : n ≤ (f.drop kHtcFrameHdrLen).length := by
        rw [List.length_drop]
        omega
      rw [if_neg (not_or.2 ⟨hn, hbuf⟩), if_pos (Nat.le_of_not_lt hbuf), slice, if_pos hin,
        List.drop_append_of_le_length hdrop, List.take_append_of_le_length htake]

/-- What the header of a frame of eight bytes or more decides. -/
theorem Htc.parseHdr_append (c : Htc) (hlen : ¬ f.length < kHtcFrameHdrLen) (rest : List UInt8) :
    ∃ e flags t len, f[0]? = some e ∧ f[4]? = some t ∧ rd16At f 2 = some len ∧
      c.parseHdr (f ++ rest) f.length =
        if e ≠ c.fWmiEid ∧ e ≠ 0 then some none
        else if f.length - kHtcFrameHdrLen < len then some none
        else if len < t.toNat then some none
        else some (some ⟨flags, len, t.toNat⟩) := by
  have h8 : 8 ≤ f.length := Nat.le_of_not_lt hlen
  have hbyte (k : Nat) (hk : k < 8) : ∃ x, f[k]? = some x ∧ (f ++ rest)[k]? = some x := by
    have hkf : k < f.length := by omega
    refine ⟨f[k], List.getElem?_eq_getElem hkf, ?_⟩
    rw [List.getElem?_append_left hkf, List.getElem?_eq_getElem hkf]
  have hword : ∃ n, rd16At f 2 = some n ∧ ∀ rest, rd16At (f ++ rest) 2 = some n :=
    rd16At_append (by omega)
  obtain ⟨e, he, he'⟩ := hbyte 0 (by decide)
  obtain ⟨flags, -, hflags⟩ := hbyte 1 (by decide)
  obtain ⟨t, ht, ht'⟩ := hbyte 4 (by decide)
  obtain ⟨len, hl, hl'⟩ := hword
  refine ⟨e, flags, t, len, he, ht, hl, ?_⟩
  rw [Htc.parseHdr, if_neg hlen, he', hflags, hl', ht']
  rfl

/-- Whatever a frame holds, `recvWmi` reads inside it, changes nothing but the credits and hands
out its payload. -/
theorem Htc.recvFrame_total (c : Htc) (f rest : List UInt8) :
    ∃ n, c.recvFrame (f ++ rest) f.length 2048 =
      some ({ c with fWmiCredits := n }, rxPayload c.fWmiEid f) := by
  by_cases hlen : f.length < kHtcFrameHdrLen
  · refine ⟨c.fWmiCredits, ?_⟩
    rw [rxPayload_short hlen]
    apply Htc.recvFrame_reject
    rw [Htc.parseHdr, if_pos hlen]
  · obtain ⟨e, flags, t, len, he, ht, hl, hhdr⟩ := c.parseHdr_append hlen rest
    have hpay : rxPayload c.fWmiEid f =
        if kHtcFrameHdrLen ≤ f.length ∧ (e = c.fWmiEid ∨ e = 0) ∧
            len ≤ f.length - kHtcFrameHdrLen ∧ t.toNat ≤ len ∧ len - t.toNat ≤ 2048 then
          (f.drop kHtcFrameHdrLen).take (len - t.toNat)
        else [] := by
      rw [rxPayload, he, hl, ht]
    by_cases hok : (e = c.fWmiEid ∨ e = 0) ∧ len ≤ f.length - kHtcFrameHdrLen ∧ t.toNat ≤ len
    · obtain ⟨heid, hfit, htr⟩ := hok
      have hno : ¬ (e ≠ c.fWmiEid ∧ e ≠ 0) := fun h => heid.elim h.1 h.2
      rw [if_neg hno, if_neg (Nat.not_lt.2 hfit), if_neg (Nat.not_lt.2 htr)] at hhdr
      have hraw : f.length ≤ (f ++ rest).length := by
        rw [List.length_append]
        omega
      have hroom : kHtcFrameHdrLen + (len - t.toNat) ≤ f.length := by omega
      obtain ⟨n, hn⟩ := c.rxTrailer_total ⟨flags, len, t.toNat⟩ hraw
      refine ⟨n, ?_⟩
      rw [Htc.recvFrame_accept 2048 hhdr, hn, Option.bind_some,
        HtcRx.payload_total ⟨flags, len, t.toNat⟩ rest hroom, hpay]
      simp only [Nat.le_of_not_lt hlen, heid, hfit, htr, true_and, Option.bind_some]
    · refine ⟨c.fWmiCredits, ?_⟩
      have hnone : c.parseHdr (f ++ rest) f.length = some none := by
        rw [hhdr]
        split
        · rfl
        · next heid =>
          split
          · rfl
          · next hfit =>
            split
            · rfl
            · next htr =>
              have heid' : e = c.fWmiEid ∨ e = 0 := by
                by_contra hne
                exact heid (not_or.1 hne)
              exact absurd ⟨heid', Nat.le_of_not_lt hfit, Nat.le_of_not_lt htr⟩ hok
      rw [Htc.recvFrame_reject 2048 hnone, hpay,
        if_neg fun h => hok ⟨h.2.1, h.2.2.1, h.2.2.2.1⟩]

def eventId (buf : List UInt8) : Option Nat := (rd32 buf 0).map (· &&& kWmiCmdIdMask)

theorem eventId_word (h : 4 ≤ buf.length) :
    ∃ n, rd32 buf 0 = some n ∧ eventId buf = some (n &&& kWmiCmdIdMask) := by
  have hread : ∃ n, rd32 buf 0 = some n := rd32_isSome (by omega)
  obtain ⟨n, hn⟩ := hread
  refine ⟨n, hn, ?_⟩
  rw [eventId, hn, Option.map_some]

theorem Handshake.recvWmi_total (s : Handshake) (f : List UInt8) :
    ∃ n rxBuf, s.recvWmi f = some (rxPayload s.htc.fWmiEid f,
      ⟨s.wmi, { s.htc with fWmiCredits := n }, rxBuf,
        s.calls ++ [.recvWmi (rxPayload s.htc.fWmiEid f).length]⟩) := by
  obtain ⟨n, hrecv⟩ := s.htc.recvFrame_total f (s.rxBuf.drop f.length)
  have hbuf : poke s.rxBuf 0 f = f ++ s.rxBuf.drop f.length := by
    rw [poke, List.take_zero, List.nil_append, Nat.zero_add]
  refine ⟨n, poke s.rxBuf 0 f, ?_⟩
  rw [Handshake.recvWmi, hbuf, hrecv]
  rfl

/-- The calls that take frames which hold an event and arm the receive ring again. -/
def takenCalls (eid : UInt8) (frames : List (List UInt8)) : List WmiAct :=
  frames.flatMap fun f => [.recvWmi (rxPayload eid f).length, .armRecv]

/-- Calls among which WMI_INIT is not sent. -/
def Quiet (calls : List WmiAct) : Prop := ∀ ok, WmiAct.sendInit ok ∉ calls

theorem Quiet.append (h : Quiet l) (h' : Quiet l') : Quiet (l ++ l') := by
  intro ok hm
  rcases List.mem_append.1 hm with hm | hm
  · exact h ok hm
  · exact h' ok hm

theorem quiet_recv (n : Nat) : Quiet [.recvWmi n] := by
  intro ok hm
  cases List.mem_singleton.1 hm

theorem quiet_taken (n : Nat) : Quiet [.recvWmi n, .armRecv] := by
  intro ok hm
  rcases List.mem_cons.1 hm with hm | hm
  · cases hm
  · cases List.mem_singleton.1 hm

/-- A SERVICE_READY event that the object accepts, leaving it as `w'`. -/
structure AcceptsService (w : Wmi) (buf : List UInt8) (w' : Wmi) : Prop where
  event : eventId buf = some kWmiTlvEvtServiceReady
  parsed : w.parseServiceReady (buf.drop 4) = some (true, w')

/-- What phase 1 leaves behind: a failure before WMI_INIT, or an accepted SERVICE_READY event as
the last frame that it took. -/
inductive ServicePost (s : Handshake) (frames : List (List UInt8)) :
    Bool → Handshake → List (List UInt8) → Prop
  | failed (hcalls : s'.calls = s.calls ++ l) (hquiet : Quiet l) :
      ServicePost s frames false s' after
  | accepted (before : List (List UInt8)) (svc : List UInt8)
      (hframes : frames = before ++ svc :: after)
      (hsvc : AcceptsService w (rxPayload s.htc.fWmiEid svc) s'.wmi)
      (hcalls : s'.calls = s.calls ++ takenCalls s.htc.fWmiEid (before ++ [svc])) :
      ServicePost s frames true s' after

theorem ServicePost.cons {s s₁ s' : Handshake} (h : ServicePost s₁ frames ok s' after)
    (heid : s₁.htc.fWmiEid = s.htc.fWmiEid)
    (hstep : s₁.calls = s.calls ++ [.recvWmi (rxPayload s.htc.fWmiEid f).length, .armRecv]) :
    ServicePost s (f :: frames) ok s' after := by
  cases h with
  | failed hcalls hquiet =>
    apply ServicePost.failed
    · rw [hcalls, hstep, List.append_assoc]
    · exact (quiet_taken _).append hquiet
  | accepted before svc hframes hsvc hcalls =>
    rw [heid] at hsvc hcalls
    apply ServicePost.accepted (f :: before) svc _ hsvc
    · rw [hcalls, hstep, List.append_assoc]
      rfl
    · rw [hframes, List.cons_append]

theorem Handshake.waitService_spec (s : Handshake) (frames : List (List UInt8))
    (hs : s.wmi.fFwBuild = 0 ∧ s.wmi.fAbi 0 = 0) :
    ∃ ok s' after, s.waitService frames = some (ok, s', after) ∧
      ServicePost s frames ok s' after := by
  induction frames generalizing s with
  | nil =>
    rw [Handshake.waitService.eq_def, if_pos hs]
    exact ⟨_, _, _, rfl, .failed rfl (quiet_recv 0)⟩
  | cons f frames ih =>
    obtain ⟨n, rxBuf, hrecv⟩ := s.recvWmi_total f
    rw [Handshake.waitService.eq_def, if_pos hs]
    dsimp only
    rw [hrecv, Option.bind_eq_bind, Option.bind_some]
    by_cases hlen : 4 ≤ (rxPayload s.htc.fWmiEid f).length
    · obtain ⟨word, hword, hevent⟩ := eventId_word hlen
      dsimp only
      rw [if_neg (Nat.not_lt.2 hlen), hword, Option.bind_eq_bind, Option.bind_some]
      by_cases hid : word &&& kWmiCmdIdMask = kWmiTlvEvtServiceReady
      · obtain ⟨⟨ok, w⟩, hparse⟩ :=
          parseServiceReady_isSome s.wmi ((rxPayload s.htc.fWmiEid f).drop 4)
        rw [if_pos hid, Handshake.call, hparse, Option.bind_eq_bind, Option.bind_some]
        cases ok with
        | false =>
          have hquiet := quiet_taken (rxPayload s.htc.fWmiEid f).length
          exact ⟨_, _, _, rfl, .failed (List.append_assoc _ _ _) hquiet⟩
        | true =>
          dsimp only
          rw [Bool.not_true, if_neg Bool.false_ne_true]
          by_cases hw : w.fFwBuild = 0 ∧ w.fAbi 0 = 0
          · obtain ⟨ok, s', after, hrun, hpost⟩ := ih ⟨w, _, _, _⟩ hw
            exact ⟨ok, s', after, hrun, hpost.cons rfl (List.append_assoc _ _ _)⟩
          · rw [Handshake.waitService.eq_def, if_neg hw]
            refine ⟨_, _, _, rfl, ?_⟩
            apply ServicePost.accepted [] f rfl
            · exact ⟨by rw [hevent, hid], hparse⟩
            · exact List.append_assoc _ _ _
      · rw [if_neg hid]
        obtain ⟨ok, s', after, hrun, hpost⟩ := ih (Handshake.call .armRecv ⟨s.wmi, _, _, _⟩) hs
        exact ⟨ok, s', after, hrun, hpost.cons rfl (List.append_assoc _ _ _)⟩
    · dsimp only
      rw [if_pos (Nat.lt_of_not_le hlen)]
      exact ⟨_, _, _, rfl, .failed rfl (quiet_recv _)⟩

/-- A READY event that the object accepts, leaving it as `w'` with the event's MAC address. -/
structure AcceptsReady (w : Wmi) (buf : List UInt8) (w' : Wmi) : Prop where
  event : eventId buf = some kWmiTlvEvtReady
  parsed : w.parseReady (buf.drop 4) = some (true, w')
  mac : ∃ ev len, (tlvParse (buf.drop 4) kTlvMaxTag).2 kTlvReadyEvent = ⟨some ev, len⟩ ∧
    36 ≤ len ∧ slice (buf.drop 4) (ev + 24) 6 = some w'.fMac

theorem parseReady_mac {w w' : Wmi} (h : w.parseReady p = some (true, w')) :
    ∃ ev len, (tlvParse p kTlvMaxTag).2 kTlvReadyEvent = ⟨some ev, len⟩ ∧
      36 ≤ len ∧ slice p (ev + 24) 6 = some w'.fMac := by
  unfold Wmi.parseReady at h
  generalize tlvParse p kTlvMaxTag = t at h
  obtain ⟨ok, tb⟩ := t
  cases ok with
  | false => cases h
  | true =>
    simp only [Bool.not_true, Bool.false_eq_true, if_false, Option.pure_def] at h
    cases hptr : (tb kTlvReadyEvent).ptr with
    | none =>
      rw [hptr] at h
      cases h
    | some ev =>
      rw [hptr] at h
      dsimp only at h
      by_cases hlen : (tb kTlvReadyEvent).len < 36
      · rw [if_pos hlen] at h
        cases h
      · rw [if_neg hlen] at h
        obtain ⟨abi, -, h⟩ := Option.bind_eq_some_iff.1 h
        obtain ⟨mac, hmac, h⟩ := Option.bind_eq_some_iff.1 h
        obtain ⟨status, -, h⟩ := Option.bind_eq_some_iff.1 h
        obtain ⟨-, rfl⟩ := Prod.mk.inj (Option.some.inj h)
        refine ⟨ev, (tb kTlvReadyEvent).len, ?_, Nat.le_of_not_lt hlen, hmac⟩
        rw [← hptr]

/-- Among the next `tries` frames there is an accepted READY event. -/
def ReadyAmong (s : Handshake) (tries : Nat) (frames : List (List UInt8)) (s' : Handshake) :
    Prop :=
  ∃ skipped ready rest, frames = skipped ++ ready :: rest ∧ skipped.length < tries ∧
    AcceptsReady s.wmi (rxPayload s.htc.fWmiEid ready) s'.wmi

theorem ReadyAmong.cons {s s₁ s' : Handshake} (h : ReadyAmong s₁ tries frames s')
    (hwmi : s₁.wmi = s.wmi) (heid : s₁.htc.fWmiEid = s.htc.fWmiEid) (f : List UInt8) :
    ReadyAmong s (tries + 1) (f :: frames) s' := by
  obtain ⟨skipped, ready, rest, hframes, hlen, hready⟩ := h
  rw [hwmi, heid] at hready
  refine ⟨f :: skipped, ready, rest, ?_, Nat.succ_lt_succ hlen, hready⟩
  rw [hframes, List.cons_append]

theorem Handshake.waitReady_spec (s : Handshake) (tries : Nat) (frames : List (List UInt8)) :
    ∃ ok s' l, s.waitReady tries frames = some (ok, s') ∧ s'.calls = s.calls ++ l ∧ Quiet l ∧
      (ok = true → ReadyAmong s tries frames s') := by
  induction tries generalizing s frames with
  | zero =>
    rw [Handshake.waitReady]
    exact ⟨_, _, [], rfl, (List.append_nil _).symm, fun _ => List.not_mem_nil, nofun⟩
  | succ tries ih =>
    cases frames with
    | nil =>
      rw [Handshake.waitReady]
      exact ⟨_, _, _, rfl, rfl, quiet_recv 0, nofun⟩
    | cons f frames =>
      obtain ⟨n, rxBuf, hrecv⟩ := s.recvWmi_total f
      rw [Handshake.waitReady, hrecv, Option.bind_eq_bind, Option.bind_some]
      dsimp only
      by_cases hlen : 4 ≤ (rxPayload s.htc.fWmiEid f).length
      · obtain ⟨word, hword, hevent⟩ := eventId_word hlen
        rw [if_neg (Nat.not_lt.2 hlen), hword, Option.bind_eq_bind, Option.bind_some]
        have hquiet := quiet_taken (rxPayload s.htc.fWmiEid f).length
        by_cases hid : word &&& kWmiCmdIdMask = kWmiTlvEvtReady
        · obtain ⟨⟨ok, w⟩, hparse⟩ :=
            parseReady_isSome s.wmi ((rxPayload s.htc.fWmiEid f).drop 4)
          rw [if_pos hid, Handshake.call, hparse, Option.bind_eq_bind, Option.bind_some]
          refine ⟨_, _, _, rfl, List.append_assoc _ _ _, hquiet, ?_⟩
          intro hok
          obtain rfl : ok = true := hok
          refine ⟨[], f, frames, rfl, Nat.succ_pos tries, ?_, hparse, parseReady_mac hparse⟩
          rw [hevent, hid]
        · rw [if_neg hid]
          obtain ⟨ok, s', l, hrun, hcalls, hl, hok⟩ :=
            ih (Handshake.call .armRecv ⟨s.wmi, _, _, _⟩) frames
          refine ⟨ok, s', _ ++ l, hrun, ?_, hquiet.append hl, fun h => (hok h).cons rfl rfl f⟩
          rw [hcalls, Handshake.call, List.append_assoc, List.append_assoc]
          rfl
      · rw [if_pos (Nat.lt_of_not_le hlen)]
        exact ⟨_, _, _, rfl, rfl, quiet_recv _, nofun⟩

/-- The order of the handshake: WMI_INIT is sent once at most and directly behind an accepted
SERVICE_READY event, in state `s`; only READY events received after it count. -/
inductive HandshakePost (sendWmi : Htc → List UInt8 → Bool × Htc) (htc : Htc)
    (frames : List (List UInt8)) : Bool → Handshake → Prop
  | failed (hquiet : Quiet s'.calls) : HandshakePost sendWmi htc frames false s'
  | sent (s : Handshake) (hframes : frames = before ++ svc :: after)
      (hsvc : AcceptsService w (rxPayload htc.fWmiEid svc) s.wmi)
      (hbefore : s.calls = .armRecv :: takenCalls htc.fWmiEid (before ++ [svc]))
      (hcalls : s'.calls = s.calls ++ .sendInit (s.sendInit sendWmi).1 :: l) (hquiet : Quiet l)
      (hok : ok = true → (s.sendInit sendWmi).1 = true ∧
        ReadyAmong (s.sendInit sendWmi).2 5 after s') :
      HandshakePost sendWmi htc frames ok s'

theorem Handshake.sendInit_log (sendWmi : Htc → List UInt8 → Bool × Htc) (s : Handshake) :
    (s.sendInit sendWmi).2.calls = s.calls ++ [.sendInit (s.sendInit sendWmi).1] := by
  unfold Handshake.sendInit
  dsimp only
  split
  · rfl
  · rfl

/-- One call of `waitServiceAndReady` on a fresh object, whatever is received and whatever becomes
of the send. -/
theorem waitServiceAndReady_order (sendWmi : Htc → List UInt8 → Bool × Htc) (htc : Htc)
    (rxBuf : List UInt8) (frames : List (List UInt8)) :
    ∃ ok s', Handshake.waitServiceAndReady sendWmi ⟨freshWmi, htc, rxBuf, []⟩ frames =
      some (ok, s') ∧ HandshakePost sendWmi htc frames ok s' := by
  have hfresh : freshWmi.fFwBuild = 0 ∧ freshWmi.fAbi 0 = 0 := ⟨rfl, rfl⟩
  obtain ⟨ok, s, after, hrun, hpost⟩ :=
    Handshake.waitService_spec (Handshake.call .armRecv ⟨freshWmi, htc, rxBuf, []⟩) frames hfresh
  rw [Handshake.waitServiceAndReady, hrun, Option.bind_eq_bind, Option.bind_some]
  cases hpost with
  | failed hcalls hquiet =>
    refine ⟨_, _, rfl, .failed ?_⟩
    rw [hcalls]
    intro sent hm
    rcases List.mem_append.1 hm with hm | hm
    · cases List.mem_singleton.1 hm
    · exact hquiet sent hm
  | accepted before svc hframes hsvc hcalls =>
    have hlog := s.sendInit_log sendWmi
    dsimp only
    rw [Bool.not_true, if_neg Bool.false_ne_true]
    cases hsent : (s.sendInit sendWmi).1 with
    | false =>
      refine ⟨_, _, if_pos rfl, .sent s hframes hsvc hcalls ?_ (fun _ => List.not_mem_nil)
        Bool.noConfusion⟩
      exact hlog
    | true =>
      obtain ⟨ok, s', l, hready, hcalls', hl, hok⟩ :=
        Handshake.waitReady_spec (s.sendInit sendWmi).2 5 after
      refine ⟨ok, s', ?_, .sent s hframes hsvc hcalls ?_ hl fun h => ⟨hsent, hok h⟩⟩
      · exact (if_neg Bool.false_ne_true).trans hready
      · rw [hcalls', hlog, List.append_assoc, List.singleton_append]

end Qca9377
