import Qca9377.Handshake

namespace Qca9377
open Bytes
set_option autoImplicit true

def isTagged (tag : Nat) (r : TlvRecord) : Bool := r.tag.toNat = tag

def firstTagged (tag : Nat) (rs : List TlvRecord) : Option TlvRecord := rs.find? (isTagged tag)

def lastTagged (tag : Nat) (rs : List TlvRecord) : Option TlvRecord :=
  rs.reverse.find? (isTagged tag)

theorem lastTagged_some (h : lastTagged tag rs = some r) :
    r.tag.toNat = tag ∧ ∃ before after, rs = before ++ r :: after ∧ ∀ s ∈ after, s.tag ≠ r.tag := by
  obtain ⟨htag, after, before, hrs, hafter⟩ := List.find?_eq_some_iff_append.1 h
  have htag : r.tag.toNat = tag := of_decide_eq_true htag
  refine ⟨htag, before.reverse, after.reverse, ?_, ?_⟩
  · rw [← List.reverse_reverse rs, hrs, List.reverse_append, List.reverse_cons,
      List.append_assoc, List.singleton_append]
  · intro s hs he
    have hne := hafter s (List.mem_reverse.1 hs)
    rw [isTagged, he, htag, decide_eq_true rfl] at hne
    cases hne

theorem lastTagged_none (h : lastTagged tag rs = none) : ∀ r ∈ rs, r.tag.toNat ≠ tag := by
  intro r hr
  exact of_decide_eq_false (eq_false_of_ne_true (List.find?_eq_none.1 h r (List.mem_reverse.2 hr)))

inductive Tabled (p : List UInt8) : View → Option TlvRecord → Prop
  | absent : Tabled p ⟨none, 0⟩ none
  | record (h : slice p off r.payload.length = some r.payload) :
      Tabled p ⟨some off, r.payload.length⟩ (some r)

theorem tlvParse_tabled (rs : List TlvRecord) (htag : tag < tbLen) :
    Tabled (encodeRecords rs) ((tlvParse (encodeRecords rs) tbLen).2 tag) (lastTagged tag rs) := by
  have htable := (tlvParse_records rs tbLen).2
  cases hlast : lastTagged tag rs with
  | none =>
    rw [htable.absent tag htag (lastTagged_none hlast)]
    exact .absent
  | some r =>
    obtain ⟨rfl, before, after, hrs, hafter⟩ := lastTagged_some hlast
    rw [htable.last before r after hrs htag hafter]
    apply Tabled.record
    apply slice_eq_of_append (encodeRecords before ++ tlvHdr r.payload.length r.tag.toNat)
      r.payload (encodeRecords after) _ _ rfl
    · rw [hrs, encodeRecords, List.flatMap_append, List.flatMap_cons, TlvRecord.encode]
      simp only [List.append_assoc, encodeRecords]
    · rw [List.length_append, tlvHdr_length]

def eventWord (ev : List UInt8) (off : Nat) : Nat := decodeLE ((ev.drop off).take 4)

def eventAbi (ev : List UInt8) (i : Fin 6) : Nat := eventWord ev (4 + 4 * i)

/-- The event fields that the object keeps. -/
def Wmi.enter (ev : List UInt8) (w : Wmi) : Wmi :=
  { w with
    fFwBuild := eventWord ev 0
    fAbi := eventAbi ev
    fPhyCapab := eventWord ev 28
    fNumRfChains := eventWord ev 36
    fNumMemReqs := eventWord ev 72 }

/-- Words, and at least one. -/
def GoodBitmap (r : TlvRecord) : Prop := 0 < r.payload.length ∧ r.payload.length % 4 = 0

instance (r : TlvRecord) : Decidable (GoodBitmap r) := inferInstanceAs (Decidable (_ ∧ _))

theorem rd32_event (h : slice p ev n = some b) (hoff : off + 4 ≤ n) :
    rd32 p (ev + off) = some (eventWord b off) := by
  have hlen := slice_length h
  rw [slice] at h
  split at h
  · next hin =>
    obtain rfl := Option.some.inj h
    have hroom : ev + off + 4 ≤ p.length := by omega
    have hmin : min 4 (n - off) = 4 := by omega
    rw [rd32, slice, if_pos hroom, Option.map_some, eventWord, List.drop_take, List.take_take,
      List.drop_drop, hmin]
  · cases h

theorem rdAbi_event (h : slice p ev n = some b) (hn : 28 ≤ n) :
    rdAbi p (ev + 4) = some (eventAbi b) := by
  have hword (k : Nat) (hk : k ≤ 20) : rd32 p (ev + 4 + k) = some (eventWord b (4 + k)) := by
    rw [Nat.add_assoc]
    exact rd32_event h (by omega)
  have hfirst : rd32 p (ev + 4) = some (eventWord b (4 + 0)) := hword 0 (by decide)
  rw [rdAbi, hfirst, hword 4 (by decide), hword 8 (by decide), hword 12 (by decide),
    hword 16 (by decide), hword 20 (by decide)]
  apply congrArg some
  funext i
  fin_cases i <;> rfl

/-- The checks on a bitmap, and its dump. -/
theorem bitmap_checked (w : Wmi) (h : slice p bmap r.payload.length = some r.payload) :
    (if r.payload.length < 4 ∨ r.payload.length &&& 3 ≠ 0 then some (false, w)
      else (dumpBitmap p bmap r.payload.length).bind fun _ => some (true, w)) =
      some (decide (GoodBitmap r), w) := by
  have hmod : r.payload.length &&& 3 = r.payload.length % 4 :=
    Nat.and_two_pow_sub_one_eq_mod r.payload.length 2
  rw [hmod]
  by_cases hbad : r.payload.length < 4 ∨ r.payload.length % 4 ≠ 0
  · have hno : ¬ GoodBitmap r := by
      rintro ⟨hpos, hwords⟩
      omega
    rw [if_pos hbad, decide_eq_false hno]
  · obtain ⟨hlen, hwords⟩ := not_or.1 hbad
    have hyes : GoodBitmap r := ⟨by omega, not_not.1 hwords⟩
    have hin : bmap + r.payload.length ≤ p.length := by
      rw [slice] at h
      split at h
      · assumption
      · cases h
    obtain ⟨words, hdump⟩ := dumpBitmap_isSome hin (hmod.trans (not_not.1 hwords))
    rw [if_neg hbad, hdump, decide_eq_true hyes]
    rfl

/-- What `parseServiceReady` makes of a stream of records: the last event decides, and it is
entered before the last bitmap is looked at. -/
def Wmi.serviceResult (w : Wmi) (rs : List TlvRecord) : Bool × Wmi :=
  match lastTagged kTlvSvcReadyEvent rs with
  | none => (false, w)
  | some ev =>
    if ev.payload.length < 76 then (false, w)
    else (decide (∃ r ∈ lastTagged kTlvArrayUInt32 rs, GoodBitmap r), w.enter ev.payload)

theorem parseServiceReady_records (w : Wmi) (rs : List TlvRecord) :
    w.parseServiceReady (encodeRecords rs) = some (w.serviceResult rs) := by
  have hok := (tlvParse_records rs kTlvMaxTag).1
  have hevent : kTlvSvcReadyEvent < kTlvMaxTag := by decide
  have harray : kTlvArrayUInt32 < kTlvMaxTag := by decide
  have hev := tlvParse_tabled rs hevent
  have hbmap := tlvParse_tabled rs harray
  unfold Wmi.parseServiceReady Wmi.serviceResult
  generalize tlvParse (encodeRecords rs) kTlvMaxTag = t at hok hev hbmap
  obtain ⟨ok, tb⟩ := t
  dsimp only at hok hev hbmap ⊢
  subst hok
  simp only [Bool.not_true, Bool.false_eq_true, if_false, Option.pure_def]
  generalize hv : tb kTlvSvcReadyEvent = v at hev
  generalize lastTagged kTlvSvcReadyEvent rs = last at hev
  cases hev with
  | absent => rfl
  | @record off ev hslice =>
    dsimp only
    by_cases hshort : ev.payload.length < 76
    · rw [if_pos hshort, if_pos hshort]
    · have hword (k : Nat) (hk : k + 4 ≤ 76) :
          rd32 (encodeRecords rs) (off + k) = some (eventWord ev.payload k) :=
        rd32_event hslice (by omega)
      have hfirst : rd32 (encodeRecords rs) off = some (eventWord ev.payload 0) :=
        hword 0 (by decide)
      have habi : rdAbi (encodeRecords rs) (off + 4) = some (eventAbi ev.payload) :=
        rdAbi_event hslice (by omega)
      rw [if_neg hshort, if_neg hshort, hfirst, habi, hword 28 (by decide), hword 36 (by decide),
        hword 72 (by decide)]
      simp only [Option.bind_eq_bind, Option.bind_some]
      generalize tb kTlvArrayUInt32 = u at hbmap
      generalize lastTagged kTlvArrayUInt32 rs = lastArray at hbmap
      cases hbmap with
      | absent => rfl
      | @record boff r hbslice =>
        have hgood : (∃ q ∈ some r, GoodBitmap q) ↔ GoodBitmap r := by simp
        rw [decide_eq_decide.2 hgood]
        exact bitmap_checked _ hbslice

theorem parseServiceReady_malformed (w : Wmi) (h : ∀ rs, p ≠ encodeRecords rs) :
    w.parseServiceReady p = some (false, w) := by
  have hbad : (tlvParse p kTlvMaxTag).1 = false := by
    rw [Bool.eq_false_iff, ne_eq, tlvParse_accepts]
    rintro ⟨rs, hrs⟩
    exact h rs hrs
  unfold Wmi.parseServiceReady
  generalize tlvParse p kTlvMaxTag = t at hbad
  obtain ⟨ok, tb⟩ := t
  dsimp only at hbad
  rw [hbad]
  rfl

/-- The fields that are also the loop condition of phase 1. -/
def Wmi.Pending (w : Wmi) : Prop := w.fFwBuild = 0 ∧ w.fAbi 0 = 0

/-- What `parseServiceReady` fills in is the same in both. -/
structure Wmi.SameEvent (w w' : Wmi) : Prop where
  fFwBuild : w'.fFwBuild = w.fFwBuild
  fAbi : w'.fAbi = w.fAbi
  fPhyCapab : w'.fPhyCapab = w.fPhyCapab
  fNumRfChains : w'.fNumRfChains = w.fNumRfChains
  fNumMemReqs : w'.fNumMemReqs = w.fNumMemReqs

theorem Wmi.SameEvent.refl (w : Wmi) : w.SameEvent w := ⟨rfl, rfl, rfl, rfl, rfl⟩

theorem Wmi.SameEvent.pending {w w' : Wmi} (h : w.SameEvent w') (hw : w.Pending) : w'.Pending := by
  rw [Wmi.Pending, h.fFwBuild, h.fAbi]
  exact hw

/-- A call of `waitServiceAndReady` on this object waits for an event before it sends WMI_INIT. -/
def Wmi.EntersPhase1 (w : Wmi) : Prop :=
  ∀ (sendWmi : Htc → List UInt8 → Bool × Htc) (s : Handshake) (frames : List (List UInt8)),
    s.wmi = w → ∃ ok s' n l, s.waitServiceAndReady sendWmi frames = some (ok, s') ∧
      s'.calls = s.calls ++ (.armRecv :: .recvWmi n :: l)

theorem Handshake.waitService_grows (s : Handshake) (frames : List (List UInt8)) :
    ∃ ok s' after l, s.waitService frames = some (ok, s', after) ∧ s'.calls = s.calls ++ l := by
  by_cases hs : s.wmi.fFwBuild = 0 ∧ s.wmi.fAbi 0 = 0
  · obtain ⟨ok, s', after, hrun, hpost⟩ := s.waitService_spec frames hs
    refine ⟨ok, s', after, ?_⟩
    cases hpost with
    | failed hcalls => exact ⟨_, hrun, hcalls⟩
    | accepted before svc hframes hsvc hcalls => exact ⟨_, hrun, hcalls⟩
  · rw [Handshake.waitService.eq_def, if_neg hs]
    exact ⟨_, _, _, [], rfl, (List.append_nil _).symm⟩

theorem Handshake.waitService_first (s : Handshake) (hs : s.wmi.fFwBuild = 0 ∧ s.wmi.fAbi 0 = 0)
    (frames : List (List UInt8)) :
    ∃ ok s' after n l, s.waitService frames = some (ok, s', after) ∧
      s'.calls = s.calls ++ (.recvWmi n :: l) := by
  cases frames with
  | nil =>
    rw [Handshake.waitService.eq_def, if_pos hs]
    exact ⟨_, _, _, 0, [], rfl, rfl⟩
  | cons f frames =>
    obtain ⟨n, rxBuf, hrecv⟩ := s.recvWmi_total f
    have hgoes (t : Handshake)
        (ht : t.calls = (s.calls ++ [.recvWmi (rxPayload s.htc.fWmiEid f).length]) ++ [.armRecv]) :
        ∃ ok s' after n l, t.waitService frames = some (ok, s', after) ∧
          s'.calls = s.calls ++ (.recvWmi n :: l) := by
      obtain ⟨ok, s', after, l, hrun, hcalls⟩ := t.waitService_grows frames
      refine ⟨ok, s', after, (rxPayload s.htc.fWmiEid f).length, .armRecv :: l, hrun, ?_⟩
      rw [hcalls, ht, List.append_assoc, List.append_assoc]
      rfl
    rw [Handshake.waitService.eq_def, if_pos hs]
    dsimp only
    rw [hrecv, Option.bind_eq_bind, Option.bind_some]
    dsimp only
    by_cases hlen : (rxPayload s.htc.fWmiEid f).length < 4
    · rw [if_pos hlen]
      exact ⟨_, _, _, _, [], rfl, rfl⟩
    · obtain ⟨word, hword, -⟩ := eventId_word (Nat.le_of_not_lt hlen)
      rw [if_neg hlen, hword, Option.bind_eq_bind, Option.bind_some]
      by_cases hid : word &&& kWmiCmdIdMask = kWmiTlvEvtServiceReady
      · obtain ⟨⟨ok, w⟩, hparse⟩ :=
          parseServiceReady_isSome s.wmi ((rxPayload s.htc.fWmiEid f).drop 4)
        rw [if_pos hid, Handshake.call, hparse, Option.bind_eq_bind, Option.bind_some]
        cases ok with
        | false => exact ⟨_, _, _, _, _, rfl, List.append_assoc _ _ _⟩
        | true => exact hgoes _ rfl
      · rw [if_neg hid]
        exact hgoes _ rfl

theorem Wmi.Pending.enters {w : Wmi} (h : w.Pending) : w.EntersPhase1 := by
  intro sendWmi s frames hw
  have hs : (s.call .armRecv).wmi.fFwBuild = 0 ∧ (s.call .armRecv).wmi.fAbi 0 = 0 := by
    rw [Handshake.call, hw]
    exact h
  obtain ⟨ok, s₁, after, n, l, hrun, hcalls⟩ := (s.call .armRecv).waitService_first hs frames
  have hfirst : s₁.calls = s.calls ++ (.armRecv :: .recvWmi n :: l) := by
    rw [hcalls, Handshake.call, List.append_assoc, List.singleton_append]
  rw [Handshake.waitServiceAndReady, hrun, Option.bind_eq_bind, Option.bind_some]
  cases ok with
  | false => exact ⟨_, _, n, l, rfl, hfirst⟩
  | true =>
    have hsent : (s₁.sendInit sendWmi).2.calls =
        s.calls ++ (.armRecv :: .recvWmi n :: (l ++ [.sendInit (s₁.sendInit sendWmi).1])) := by
      rw [s₁.sendInit_log sendWmi, hfirst, List.append_assoc]
      rfl
    dsimp only
    rw [Bool.not_true, if_neg Bool.false_ne_true]
    cases hok : (s₁.sendInit sendWmi).1 with
    | false => exact ⟨_, _, n, _, if_pos rfl, hsent⟩
    | true =>
      obtain ⟨ok, s₂, k, hready, hcalls', -⟩ := (s₁.sendInit sendWmi).2.waitReady_spec 5 after
      have hlast : s₂.calls = s.calls ++ (.armRecv :: .recvWmi n ::
          (l ++ [.sendInit (s₁.sendInit sendWmi).1] ++ k)) := by
        rw [hcalls', hsent, List.append_assoc]
        rfl
      exact ⟨ok, s₂, n, _, (if_neg Bool.false_ne_true).trans hready, hlast⟩

/-- A refused event leaves the object as it was, and no later call takes it for an accepted one. -/
def RejectedClean (w : Wmi) (p : List UInt8) : Prop :=
  ∀ w', w.parseServiceReady p = some (false, w') →
    w.SameEvent w' ∧ (w.Pending → w'.EntersPhase1)

/-- The stream gets past the event checks and fails on its bitmap, and its event does not say what
the object holds already. -/
def HalfApplied (w : Wmi) (p : List UInt8) : Prop :=
  ∃ rs ev, p = encodeRecords rs ∧ lastTagged kTlvSvcReadyEvent rs = some ev ∧
    76 ≤ ev.payload.length ∧ (∀ r ∈ lastTagged kTlvArrayUInt32 rs, ¬ GoodBitmap r) ∧
    ¬ w.SameEvent (w.enter ev.payload)

theorem Wmi.SameEvent.clean {w w' : Wmi} (h : w.SameEvent w') :
    w.SameEvent w' ∧ (w.Pending → w'.EntersPhase1) := ⟨h, fun hw => (h.pending hw).enters⟩

/-- A refused event leaves no trace exactly if it is not refused for its bitmap alone. -/
theorem rejectedClean_iff (w : Wmi) (p : List UInt8) :
    RejectedClean w p ↔ ¬ HalfApplied w p := by
  constructor
  · rintro h ⟨rs, ev, rfl, hev, hlen, hbad, hnew⟩
    have hno : ¬ ∃ r ∈ lastTagged kTlvArrayUInt32 rs, GoodBitmap r :=
      fun ⟨r, hr, hgood⟩ => hbad r hr hgood
    have hresult : w.serviceResult rs = (false, w.enter ev.payload) := by
      rw [Wmi.serviceResult, hev]
      dsimp only
      rw [if_neg (Nat.not_lt.2 hlen), decide_eq_false hno]
    have hparse := parseServiceReady_records w rs
    rw [hresult] at hparse
    exact hnew (h _ hparse).1
  · intro h w' hparse
    by_cases hrs : ∃ rs, p = encodeRecords rs
    · obtain ⟨rs, rfl⟩ := hrs
      have hresult := Option.some.inj ((parseServiceReady_records w rs).symm.trans hparse)
      rw [Wmi.serviceResult] at hresult
      split at hresult
      · obtain ⟨-, rfl⟩ := Prod.mk.inj hresult
        exact (Wmi.SameEvent.refl w).clean
      · next ev hev =>
        split at hresult
        · obtain ⟨-, rfl⟩ := Prod.mk.inj hresult
          exact (Wmi.SameEvent.refl w).clean
        · next hlen =>
          obtain ⟨hbad, rfl⟩ := Prod.mk.inj hresult
          have hno := of_decide_eq_false hbad
          apply Wmi.SameEvent.clean
          by_contra hnew
          exact h ⟨rs, ev, rfl, hev, Nat.le_of_not_lt hlen,
            fun r hr hgood => hno ⟨r, hr, hgood⟩, hnew⟩
    · have hmalformed := parseServiceReady_malformed w fun rs he => hrs ⟨rs, he⟩
      obtain ⟨-, rfl⟩ := Prod.mk.inj (Option.some.inj (hmalformed.symm.trans hparse))
      exact (Wmi.SameEvent.refl w).clean

def sampleEvent : TlvRecord where
  tag := 32
  payload := 1 :: List.replicate 75 0
  payload_lt := by decide

/-- An event without a service bitmap is refused, and yet the next call on the object sends WMI_INIT
without waiting for any event. -/
theorem refused_event_sticks :
    ¬ RejectedClean freshWmi (encodeRecords [sampleEvent]) ∧
      (∃ w', freshWmi.parseServiceReady (encodeRecords [sampleEvent]) = some (false, w') ∧
        w'.fFwBuild = 1) ∧
      ∀ w', freshWmi.parseServiceReady (encodeRecords [sampleEvent]) = some (false, w') →
        (Handshake.waitServiceAndReady (fun c _ => (true, c)) ⟨w', freshHost.htc, [], []⟩ []).map
          (fun r => r.2.calls) = some [.armRecv, .sendInit true, .recvWmi 0] := by
  have hresult : freshWmi.parseServiceReady (encodeRecords [sampleEvent]) =
      some (false, freshWmi.enter sampleEvent.payload) :=
    parseServiceReady_records freshWmi [sampleEvent]
  have hbuild : (freshWmi.enter sampleEvent.payload).fFwBuild = 1 := by decide
  refine ⟨?_, ⟨_, hresult, hbuild⟩, ?_⟩
  · intro hclean
    have hsame := (hclean _ hresult).1.fFwBuild
    rw [hbuild] at hsame
    cases hsame
  · intro w' hw'
    obtain ⟨-, rfl⟩ := Prod.mk.inj (Option.some.inj (hresult.symm.trans hw'))
    decide +kernel

/-- The bytes that `bmap` and `bmapLen` of `parseServiceReady` name. -/
def serviceBitmap (p : List UInt8) : Option (List UInt8) :=
  let v := (tlvParse p kTlvMaxTag).2 kTlvArrayUInt32
  v.ptr.bind fun bmap => slice p bmap v.len

/-- The first ARRAY_UINT32 record decides, and it is the bitmap that is read. -/
structure ReadsFirstBitmap (w : Wmi) (rs : List TlvRecord) : Prop where
  accepts : (∃ w', w.parseServiceReady (encodeRecords rs) = some (true, w')) ↔
    ∃ r ∈ firstTagged kTlvArrayUInt32 rs, GoodBitmap r
  reads : ∀ w', w.parseServiceReady (encodeRecords rs) = some (true, w') →
    ∃ r ∈ firstTagged kTlvArrayUInt32 rs, serviceBitmap (encodeRecords rs) = some r.payload

theorem lastTagged_isSome (h : firstTagged tag rs = some f) : ∃ l, lastTagged tag rs = some l := by
  have hmem := List.mem_reverse.2 (List.mem_of_find?_eq_some h)
  apply Option.isSome_iff_exists.1
  rw [lastTagged, List.find?_isSome]
  exact ⟨f, hmem, List.find?_some h⟩

theorem firstTagged_isSome (h : lastTagged tag rs = some l) :
    ∃ f, firstTagged tag rs = some f := by
  have hmem := List.mem_reverse.1 (List.mem_of_find?_eq_some h)
  apply Option.isSome_iff_exists.1
  rw [firstTagged, List.find?_isSome]
  exact ⟨l, hmem, List.find?_some h⟩

theorem lastTagged_only (h : rs.filter (isTagged tag) = [r]) : lastTagged tag rs = some r := by
  rw [lastTagged, ← List.head?_filter, List.filter_reverse, h]
  rfl

/-- The first and the last ARRAY_UINT32 record carry the same bytes, or neither is a bitmap. -/
def BitmapsAgree (rs : List TlvRecord) : Prop :=
  ∀ f ∈ firstTagged kTlvArrayUInt32 rs, ∀ l ∈ lastTagged kTlvArrayUInt32 rs,
    l.payload = f.payload ∨ ¬ GoodBitmap f ∧ ¬ GoodBitmap l

theorem BitmapsAgree.good_iff (h : BitmapsAgree rs) (hf : f ∈ firstTagged kTlvArrayUInt32 rs)
    (hl : l ∈ lastTagged kTlvArrayUInt32 rs) : GoodBitmap f ↔ GoodBitmap l := by
  rcases h f hf l hl with he | ⟨hnf, hnl⟩
  · rw [GoodBitmap, GoodBitmap, he]
  · exact iff_of_false hnf hnl

/-- With one complete event record, the last ARRAY_UINT32 record decides. -/
theorem parseServiceReady_accepts (w : Wmi)
    (hev : rs.filter (isTagged kTlvSvcReadyEvent) = [ev]) (hlen : 76 ≤ ev.payload.length) :
    (∃ w', w.parseServiceReady (encodeRecords rs) = some (true, w')) ↔
      ∃ r ∈ lastTagged kTlvArrayUInt32 rs, GoodBitmap r := by
  rw [parseServiceReady_records, Wmi.serviceResult, lastTagged_only hev]
  dsimp only
  rw [if_neg (Nat.not_lt.2 hlen)]
  constructor
  · rintro ⟨w', h⟩
    exact of_decide_eq_true (Prod.mk.inj (Option.some.inj h)).1
  · intro h
    exact ⟨_, congrArg some (Prod.ext (decide_eq_true h) rfl)⟩

theorem serviceBitmap_last (hl : lastTagged kTlvArrayUInt32 rs = some l) :
    serviceBitmap (encodeRecords rs) = some l.payload := by
  have htab := tlvParse_tabled rs (by decide : kTlvArrayUInt32 < kTlvMaxTag)
  unfold serviceBitmap
  rw [hl] at htab
  generalize (tlvParse (encodeRecords rs) kTlvMaxTag).2 kTlvArrayUInt32 = v at htab
  cases htab with
  | record hs => exact hs

/-- The bitmap is the last ARRAY_UINT32 record, so it is the first one exactly if the two agree. -/
theorem readsFirstBitmap_iff (w : Wmi) (hev : rs.filter (isTagged kTlvSvcReadyEvent) = [ev])
    (hlen : 76 ≤ ev.payload.length) : ReadsFirstBitmap w rs ↔ BitmapsAgree rs := by
  have htrue := parseServiceReady_accepts w hev hlen
  constructor
  · rintro ⟨haccepts, hreads⟩ f hf l hl
    by_cases hgood : GoodBitmap l
    · obtain ⟨w', hw'⟩ := htrue.2 ⟨l, hl, hgood⟩
      obtain ⟨r, hr, hread⟩ := hreads w' hw'
      obtain rfl := Option.mem_unique hf hr
      left
      exact Option.some.inj ((serviceBitmap_last hl).symm.trans hread)
    · refine .inr ⟨?_, hgood⟩
      intro hfirst
      obtain ⟨r, hr, hrgood⟩ := htrue.1 (haccepts.2 ⟨f, hf, hfirst⟩)
      obtain rfl := Option.mem_unique hl hr
      exact hgood hrgood
  · intro hagree
    constructor
    · rw [htrue]
      constructor
      · rintro ⟨l, hl, hgood⟩
        obtain ⟨f, hf⟩ := firstTagged_isSome hl
        exact ⟨f, hf, (hagree.good_iff hf hl).2 hgood⟩
      · rintro ⟨f, hf, hgood⟩
        obtain ⟨l, hl⟩ := lastTagged_isSome hf
        exact ⟨l, hl, (hagree.good_iff hf hl).1 hgood⟩
    · intro w' hw'
      obtain ⟨l, hl, hgood⟩ := htrue.1 ⟨w', hw'⟩
      obtain ⟨f, hf⟩ := firstTagged_isSome hl
      refine ⟨f, hf, ?_⟩
      rcases hagree f hf l hl with he | ⟨-, hnl⟩
      · rw [serviceBitmap_last hl, he]
      · exact absurd hgood hnl

def bitmapRecord (b : UInt8) : TlvRecord where
  tag := 16
  payload := [b, 0, 0, 0]
  payload_lt := by norm_num

theorem readsFirstBitmap_single :
    ReadsFirstBitmap freshWmi [bitmapRecord 1, sampleEvent] ↔
      BitmapsAgree [bitmapRecord 1, sampleEvent] := by
  have hev : [bitmapRecord 1, sampleEvent].filter (isTagged kTlvSvcReadyEvent) = [sampleEvent] :=
    rfl
  exact readsFirstBitmap_iff freshWmi hev (by decide)

/-- Of two bitmaps the second one is read. -/
theorem second_bitmap_read :
    [bitmapRecord 1, sampleEvent, bitmapRecord 2].filter (isTagged kTlvSvcReadyEvent) =
        [sampleEvent] ∧
      ¬ ReadsFirstBitmap freshWmi [bitmapRecord 1, sampleEvent, bitmapRecord 2] ∧
      serviceBitmap (encodeRecords [bitmapRecord 1, sampleEvent, bitmapRecord 2]) =
        some (bitmapRecord 2).payload := by
  have hread : serviceBitmap (encodeRecords [bitmapRecord 1, sampleEvent, bitmapRecord 2]) =
      some (bitmapRecord 2).payload := by decide +kernel
  refine ⟨rfl, ?_, hread⟩
  intro h
  have hgood : GoodBitmap (bitmapRecord 1) := by decide
  obtain ⟨w', hw'⟩ := h.accepts.2 ⟨_, rfl, hgood⟩
  obtain ⟨r, hr, hfirst⟩ := h.reads w' hw'
  obtain rfl := Option.some.inj hr
  rw [hread] at hfirst
  cases hfirst

end Qca9377
