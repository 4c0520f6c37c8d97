import Qca9377.Htc

namespace Qca9377
open Bytes Interleaving
set_option autoImplicit true

/-- A received frame as the target builds it; `extra` follows the body the header announces. -/
structure HtcFrame where
  eid : UInt8
  flags : UInt8
  ctrlByte1 : UInt8
  pad0 : UInt8
  pad1 : UInt8
  payload : List UInt8
  trailer : List UInt8
  extra : List UInt8

def HtcFrame.header (f : HtcFrame) : List UInt8 :=
  [f.eid, f.flags] ++ encodeLE 2 (f.payload.length + f.trailer.length) ++
    [UInt8.ofNat f.trailer.length, f.ctrlByte1, f.pad0, f.pad1]

def HtcFrame.encode (f : HtcFrame) : List UInt8 := f.header ++ f.payload ++ f.trailer ++ f.extra

/-- A frame that fits the receive buffer and is meant for the endpoint `eid` or the control one. -/
structure HtcFrame.WellFormed (eid : UInt8) (f : HtcFrame) : Prop where
  eid : f.eid = eid ∨ f.eid = 0
  trailer : f.trailer.length < 256
  flag : f.trailer ≠ [] → f.flags &&& kHtcRxFlagTrailerPresent ≠ 0
  fits : f.encode.length ≤ kRxBufSz

@[simp] theorem HtcFrame.header_length (f : HtcFrame) : f.header.length = kHtcFrameHdrLen := rfl

theorem HtcFrame.encode_length (f : HtcFrame) :
    f.encode.length =
      kHtcFrameHdrLen + f.payload.length + f.trailer.length + f.extra.length := by
  simp only [HtcFrame.encode, List.length_append, HtcFrame.header_length]

/-- The body of a credit record never reaches past its record. -/
theorem creditEntries_isSome (h : off + recLen ≤ trailer.length) :
    ∃ n, creditEntries eid trailer off recLen i c = some n := by
  fun_induction creditEntries eid trailer off recLen i c with
  | case1 i c hi ih =>
    have h0 : off + i < trailer.length := by omega
    have h1 : off + i + 1 < trailer.length := by omega
    rw [List.getElem?_eq_getElem h0, List.getElem?_eq_getElem h1]
    exact ih _ _
  | case2 i c hi => exact ⟨c, rfl⟩

/-- A credit report is never read outside its trailer, whatever the target wrote there. -/
theorem creditRecords_isSome (eid : UInt8) (trailer : List UInt8) (off c : Nat) :
    ∃ n, creditRecords eid trailer off c = some n := by
  fun_induction creditRecords eid trailer off c with
  | case1 off c h ih =>
    have h0 : off < trailer.length := by omega
    have h1 : off + 1 < trailer.length := by omega
    rw [List.getElem?_eq_getElem h0, List.getElem?_eq_getElem h1]
    dsimp only [Option.bind_eq_bind, Option.bind_some, Option.pure_def]
    split
    · exact ⟨c, rfl⟩
    · next hlen =>
      split
      · obtain ⟨n, hn⟩ := creditEntries_isSome (i := 0) (c := c) (not_lt.1 hlen)
        rw [hn]
        exact ih trailer[off + 1] hlen n
      · exact ih trailer[off + 1] hlen c
  | case2 off c h => exact ⟨c, rfl⟩

/-- The credits that the entries of a record give to an endpoint. -/
def entryCredits (eid : UInt8) : List UInt8 → Nat
  | e :: credits :: _ :: _ :: rest =>
    (if e = eid then credits.toNat else 0) + entryCredits eid rest
  | _ => 0

/-- The credits that the records of a trailer give to an endpoint; the first record that does not
fit ends it. -/
def reportedCredits (eid : UInt8) : List UInt8 → Nat
  | id :: len :: _ :: _ :: rest =>
    if rest.length < len.toNat then 0
    else (if id = kHtcRecordCredits then entryCredits eid (rest.take len.toNat) else 0) +
      reportedCredits eid (rest.drop len.toNat)
  | _ => 0
termination_by trailer => trailer.length
decreasing_by
  simp only [List.length_drop, List.length_cons]
  omega

theorem getElem?_behind (pre l : List UInt8) (h : off = pre.length + k) :
    (pre ++ l)[off]? = l[k]? := by
  rw [h, List.getElem?_append_right (Nat.le_add_right _ _), Nat.add_sub_cancel_left]

theorem creditEntries_sum (eid : UInt8) (l pre post : List UInt8) (hpre : pre.length = off + i)
    (hlen : recLen = i + l.length) (hc : c < 2 ^ 16) :
    creditEntries eid (pre ++ (l ++ post)) off recLen i c =
      some ((c + entryCredits eid l) % 2 ^ 16) := by
  induction l using entryCredits.induct generalizing pre i c with
  | case1 e credits p₀ p₁ rest ih =>
    have hin : i + 4 ≤ recLen := by
      rw [hlen]
      simp only [List.length_cons]
      omega
    have hall : pre ++ (e :: credits :: p₀ :: p₁ :: rest ++ post) =
        (pre ++ [e, credits, p₀, p₁]) ++ (rest ++ post) := by
      simp only [List.cons_append, List.append_assoc, List.nil_append]
    have h0 : (pre ++ (e :: credits :: p₀ :: p₁ :: rest ++ post))[off + i]? = some e :=
      getElem?_behind _ _ (k := 0) hpre.symm
    have h1 : (pre ++ (e :: credits :: p₀ :: p₁ :: rest ++ post))[off + i + 1]? = some credits :=
      getElem?_behind _ _ (congrArg (· + 1) hpre.symm)
    have hpre' : (pre ++ [e, credits, p₀, p₁]).length = off + (i + 4) := by
      rw [List.length_append, hpre]
      rfl
    have hlen' : recLen = i + 4 + rest.length := by
      rw [hlen]
      simp only [List.length_cons]
      omega
    rw [creditEntries, if_pos hin, h0, h1]
    dsimp only [Option.bind_eq_bind, Option.bind_some]
    rw [hall, entryCredits]
    by_cases he : e = eid
    · rw [if_pos he, if_pos he, ih _ hpre' hlen' (Nat.mod_lt _ (by decide)), Nat.mod_add_mod,
        Nat.add_assoc]
    · rw [if_neg he, if_neg he, ih _ hpre' hlen' hc, Nat.zero_add]
  | case2 l hl =>
    have hshort : ¬ i + 4 ≤ recLen := by
      rw [hlen]
      intro h
      match l, hl, h with
      | e :: credits :: p₀ :: p₁ :: rest, hl, _ => exact hl e credits p₀ p₁ rest rfl
      | [], _, h => simp at h
      | [_], _, h => simp at h
      | [_, _], _, h => simp at h
      | [_, _, _], _, h => simp at h
    have hzero : entryCredits eid l = 0 := by
      rw [entryCredits.eq_def]
      split
      · exact absurd rfl (hl _ _ _ _ _)
      · rfl
    rw [creditEntries, if_neg hshort, hzero, Nat.add_zero, Nat.mod_eq_of_lt hc]

theorem creditRecords_unfit {trailer : List UInt8} (hid : trailer[off]? = some recId)
    (hlen : trailer[off + 1]? = some len)
    (h : trailer.length < off + 4 + len.toNat) : creditRecords eid trailer off c = some c := by
  have hin : off + 2 ≤ trailer.length := by
    obtain ⟨hlt, -⟩ := List.getElem?_eq_some_iff.1 hlen
    omega
  rw [creditRecords, if_pos hin, hid, hlen]
  dsimp only [Option.bind_eq_bind, Option.bind_some, Option.pure_def]
  rw [if_pos h]

theorem entryCredits_short (eid : UInt8) (h : l.length < 4) : entryCredits eid l = 0 := by
  rw [entryCredits.eq_def]
  split
  · simp only [List.length_cons] at h
    omega
  · rfl

section Records

variable {pre : List UInt8}

theorem record_id (id len : UInt8) (rest : List UInt8) (hpre : pre.length = off) :
    (pre ++ id :: len :: rest)[off]? = some id ∧ (pre ++ id :: len :: rest)[off + 1]? = some len :=
  ⟨getElem?_behind _ _ (k := 0) hpre.symm, getElem?_behind _ _ (congrArg (· + 1) hpre.symm)⟩

theorem record_length (id len p₀ p₁ : UInt8) (rest : List UInt8) (hpre : pre.length = off) :
    (pre ++ id :: len :: p₀ :: p₁ :: rest).length = off + 4 + rest.length := by
  rw [List.length_append, hpre]
  simp only [List.length_cons]
  omega

theorem record_split (pre rest : List UInt8) (id len p₀ p₁ : UInt8) :
    pre ++ id :: len :: p₀ :: p₁ :: rest =
      (pre ++ [id, len, p₀, p₁]) ++ (rest.take len.toNat ++ rest.drop len.toNat) := by
  rw [List.take_append_drop, List.append_assoc]
  rfl

/-- What one record adds. -/
theorem creditRecord_sum (eid id p₀ p₁ : UInt8) (hpre : pre.length = off)
    (hfits : len.toNat ≤ rest.length) (hc : c < 2 ^ 16) :
    (if id = kHtcRecordCredits ∧ 4 ≤ len.toNat then
        creditEntries eid (pre ++ id :: len :: p₀ :: p₁ :: rest) (off + 4) len.toNat 0 c
      else some c) =
      some ((c + if id = kHtcRecordCredits then entryCredits eid (rest.take len.toNat) else 0)
        % 2 ^ 16) := by
  have htake : (rest.take len.toNat).length = len.toNat := List.length_take_of_le hfits
  by_cases hid : id = kHtcRecordCredits
  · rw [if_pos hid]
    by_cases hlen : 4 ≤ len.toNat
    · have hhead : (pre ++ [id, len, p₀, p₁]).length = off + 4 := by
        rw [List.length_append, hpre]
        rfl
      rw [if_pos ⟨hid, hlen⟩, record_split]
      apply creditEntries_sum _ _ _ _ (i := 0) hhead _ hc
      rw [htake, Nat.zero_add]
    · have hnone := entryCredits_short eid (htake.trans_lt (Nat.lt_of_not_le hlen))
      rw [if_neg fun h => hlen h.2, hnone, Nat.add_zero, Nat.mod_eq_of_lt hc]
  · rw [if_neg fun h => hid h.1, if_neg hid, Nat.add_zero, Nat.mod_eq_of_lt hc]

/-- The loop enters a record that fits and goes on behind it. -/
theorem creditRecords_record (eid id p₀ p₁ : UInt8) (hpre : pre.length = off)
    (hfits : len.toNat ≤ rest.length) (hc : c < 2 ^ 16) :
    creditRecords eid (pre ++ id :: len :: p₀ :: p₁ :: rest) off c =
      creditRecords eid (pre ++ id :: len :: p₀ :: p₁ :: rest) (off + 4 + len.toNat)
        ((c + if id = kHtcRecordCredits then entryCredits eid (rest.take len.toNat) else 0)
          % 2 ^ 16) := by
  have hall := record_length id len p₀ p₁ rest hpre
  have hin : off + 2 ≤ (pre ++ id :: len :: p₀ :: p₁ :: rest).length := by omega
  have hroom : ¬ (pre ++ id :: len :: p₀ :: p₁ :: rest).length < off + 4 + len.toNat := by omega
  have hrec := creditRecord_sum eid id p₀ p₁ hpre hfits hc
  obtain ⟨h0, h1⟩ := record_id id len (p₀ :: p₁ :: rest) hpre
  rw [creditRecords, if_pos hin, h0, h1]
  dsimp only [Option.bind_eq_bind, Option.bind_some, Option.pure_def]
  rw [if_neg hroom]
  split
  · next h =>
    rw [if_pos h] at hrec
    rw [hrec, Option.bind_some]
  · next h =>
    rw [if_neg h] at hrec
    rw [← Option.some.inj hrec]

end Records

/-- What `applyCreditReport` adds up, whatever a trailer holds. -/
theorem creditRecords_sum (eid : UInt8) (l pre : List UInt8) (hpre : pre.length = off)
    (hc : c < 2 ^ 16) :
    creditRecords eid (pre ++ l) off c = some ((c + reportedCredits eid l) % 2 ^ 16) := by
  induction l using reportedCredits.induct generalizing pre off c with
  | case1 id len p₀ p₁ rest hshort =>
    obtain ⟨h0, h1⟩ := record_id id len (p₀ :: p₁ :: rest) hpre
    rw [creditRecords_unfit h0 h1, reportedCredits, if_pos hshort, Nat.add_zero,
      Nat.mod_eq_of_lt hc]
    rw [record_length id len p₀ p₁ rest hpre]
    exact Nat.add_lt_add_left hshort _
  | case2 id len p₀ p₁ rest hfits ih =>
    have hfits : len.toNat ≤ rest.length := Nat.le_of_not_lt hfits
    have hnext : (pre ++ [id, len, p₀, p₁] ++ rest.take len.toNat).length =
        off + 4 + len.toNat := by
      rw [List.length_append, List.length_append, hpre, List.length_take_of_le hfits]
      rfl
    rw [creditRecords_record eid id p₀ p₁ hpre hfits hc, record_split, ← List.append_assoc,
      ih _ hnext (Nat.mod_lt _ (by decide)), Nat.mod_add_mod, reportedCredits,
      if_neg (Nat.not_lt.2 hfits), Nat.add_assoc]
  | case3 l hl =>
    have hzero : reportedCredits eid l = 0 := by
      rw [reportedCredits.eq_def]
      split
      · exact absurd rfl (hl _ _ _ _ _)
      · rfl
    have hlen : (pre ++ l).length = off + l.length := by rw [List.length_append, hpre]
    rw [hzero, Nat.add_zero, Nat.mod_eq_of_lt hc]
    match l, hl, hlen with
    | [], _, hlen | [_], _, hlen =>
      rw [creditRecords, if_neg (by simp only [hlen, List.length_cons, List.length_nil]; omega)]
    | recId :: len :: tl, hl, hlen =>
      obtain ⟨h0, h1⟩ := record_id recId len tl hpre
      apply creditRecords_unfit h0 h1
      rw [hlen]
      match tl, hl with
      | [], _ | [_], _ => simp only [List.length_cons, List.length_nil]; omega
      | _ :: _ :: rest, hl => exact absurd rfl (hl _ _ _ _ _)

theorem Htc.parseHdr_frame {c : Htc} {f : HtcFrame} (h : f.WellFormed c.fWmiEid)
    (rest : List UInt8) : c.parseHdr (f.encode ++ rest) f.encode.length =
      some (some ⟨f.flags, f.payload.length + f.trailer.length, f.trailer.length⟩) := by
  have hlen := f.encode_length
  have hsz := h.fits
  have hpos : ¬ f.encode.length < kHtcFrameHdrLen := by
    rw [hlen]
    omega
  have ht : (UInt8.ofNat f.trailer.length).toNat = f.trailer.length :=
    UInt8.toNat_ofNat_of_lt' h.trailer
  have h16 : rd16At (f.encode ++ rest) 2 = some (f.payload.length + f.trailer.length) := by
    have hrd : rd16At (f.encode ++ rest) 2 =
        some (decodeLE (encodeLE 2 (f.payload.length + f.trailer.length))) :=
      congrArg some (rd16_eq _ _)
    rw [hrd, decodeLE_encodeLE_of_lt]
    rw [hlen, kRxBufSz] at hsz
    omega
  have h0 : (f.encode ++ rest)[0]? = some f.eid := rfl
  have h1 : (f.encode ++ rest)[1]? = some f.flags := rfl
  have h4 : (f.encode ++ rest)[4]? = some (UInt8.ofNat f.trailer.length) := rfl
  have heid : ¬ (f.eid ≠ c.fWmiEid ∧ f.eid ≠ 0) := by
    rintro ⟨hne, hne0⟩
    rcases h.eid with he | he
    · exact hne he
    · exact hne0 he
  have hbody : ¬ f.encode.length - kHtcFrameHdrLen < f.payload.length + f.trailer.length := by
    rw [hlen]
    omega
  have htr : ¬ f.payload.length + f.trailer.length < f.trailer.length := by omega
  simp only [Htc.parseHdr, if_neg hpos, h0, h1, h4, h16, Option.bind_eq_bind, Option.bind_some,
    if_neg heid, if_neg hbody, ht, if_neg htr, Option.pure_def]

theorem Htc.rxTrailer_frame {c : Htc} {f : HtcFrame} (h : f.WellFormed c.fWmiEid)
    (rest : List UInt8) :
    c.rxTrailer (f.encode ++ rest) f.encode.length
        ⟨f.flags, f.payload.length + f.trailer.length, f.trailer.length⟩ =
      c.applyCreditReport f.trailer := by
  by_cases hnil : f.trailer = []
  · have hc : c.applyCreditReport [] = some c := by
      rw [Htc.applyCreditReport, creditRecords]
      rfl
    rw [hnil, hc, Htc.rxTrailer, if_neg fun hne => hne.1 rfl]
  · have hlen := f.encode_length
    have hoff : kHtcFrameHdrLen + (f.payload.length + f.trailer.length) - f.trailer.length =
        (f.header ++ f.payload).length := by
      rw [List.length_append, f.header_length]
      omega
    have hin : kHtcFrameHdrLen ≤ (f.header ++ f.payload).length ∧
        (f.header ++ f.payload).length + f.trailer.length ≤ f.encode.length := by
      rw [List.length_append, f.header_length, hlen]
      omega
    have hs : slice (f.encode ++ rest) (f.header ++ f.payload).length f.trailer.length =
        some f.trailer := by
      apply slice_eq_of_append (f.header ++ f.payload) f.trailer (f.extra ++ rest) _ rfl rfl
      simp only [HtcFrame.encode, List.append_assoc]
    have hne : f.trailer.length ≠ 0 := fun h0 => hnil (List.length_eq_zero_iff.1 h0)
    simp only [Htc.rxTrailer, if_pos (And.intro hne (h.flag hnil)), hoff, if_pos hin, hs,
      Option.bind_eq_bind, Option.bind_some]

theorem HtcRx.payload_frame (f : HtcFrame) (rest : List UInt8) (bufLen : Nat) :
    HtcRx.payload ⟨f.flags, f.payload.length + f.trailer.length, f.trailer.length⟩
        (f.encode ++ rest) bufLen =
      some (if bufLen < f.payload.length then [] else f.payload) := by
  have hs : slice (f.encode ++ rest) kHtcFrameHdrLen f.payload.length = some f.payload := by
    apply slice_eq_of_append f.header f.payload (f.trailer ++ f.extra ++ rest) _ rfl rfl
    simp only [HtcFrame.encode, List.append_assoc]
  simp only [HtcRx.payload, Nat.add_sub_cancel, hs]
  by_cases hnil : f.payload = []
  · rw [hnil, if_pos (.inl rfl), ite_self]
  · have hne : f.payload.length ≠ 0 := fun h0 => hnil (List.length_eq_zero_iff.1 h0)
    by_cases hb : bufLen < f.payload.length
    · rw [if_pos (.inr hb), if_pos hb]
    · rw [if_neg (not_or.2 ⟨hne, hb⟩), if_neg hb]

/-- What `recvWmi` makes of a well-formed frame: its credit report is applied and its payload
handed out when it fits the caller's buffer. -/
theorem Htc.recvFrame_encode {c : Htc} {f : HtcFrame} (h : f.WellFormed c.fWmiEid)
    (rest : List UInt8) (bufLen : Nat) : ∃ n,
    creditRecords c.fWmiEid f.trailer 0 c.fWmiCredits = some n ∧
    c.recvFrame (f.encode ++ rest) f.encode.length bufLen =
      some ({ c with fWmiCredits := n }, if bufLen < f.payload.length then [] else f.payload) := by
  obtain ⟨n, hn⟩ := creditRecords_isSome c.fWmiEid f.trailer 0 c.fWmiCredits
  refine ⟨n, hn, ?_⟩
  rw [Htc.recvFrame_accept bufLen (Htc.parseHdr_frame h rest), Htc.rxTrailer_frame h rest,
    HtcRx.payload_frame, Htc.applyCreditReport, hn]
  rfl

structure CreditEntry where
  eid : UInt8
  credits : UInt8
  pad0 : UInt8
  pad1 : UInt8

def CreditEntry.encode (e : CreditEntry) : List UInt8 := [e.eid, e.credits, e.pad0, e.pad1]

/-- What some entries report for an endpoint. -/
def reportedFor (eid : UInt8) : List CreditEntry → Nat
  | [] => 0
  | e :: es => (if e.eid = eid then e.credits.toNat else 0) + reportedFor eid es

/-- A record of a trailer: credit entries, or something the host skips. -/
inductive TrailerRec where
  | credits (pad0 pad1 : UInt8) (entries : List CreditEntry) (hlen : 4 * entries.length < 256)
  | other (id pad0 pad1 : UInt8) (body : List UInt8) (hid : id ≠ kHtcRecordCredits)
    (hlen : body.length < 256)

def TrailerRec.id : TrailerRec → UInt8
  | .credits .. => kHtcRecordCredits
  | .other id .. => id

def TrailerRec.pads : TrailerRec → List UInt8
  | .credits pad0 pad1 .. => [pad0, pad1]
  | .other _ pad0 pad1 .. => [pad0, pad1]

def TrailerRec.body : TrailerRec → List UInt8
  | .credits _ _ entries _ => entries.flatMap CreditEntry.encode
  | .other _ _ _ body .. => body

def TrailerRec.encode (r : TrailerRec) : List UInt8 :=
  [r.id, UInt8.ofNat r.body.length] ++ r.pads ++ r.body

def TrailerRec.reported (eid : UInt8) : TrailerRec → Nat
  | .credits _ _ entries _ => reportedFor eid entries
  | .other .. => 0

def encodeTrailer (rs : List TrailerRec) : List UInt8 := rs.flatMap TrailerRec.encode

/-- The credits a trailer reports back to an endpoint. -/
def trailerCredits (eid : UInt8) (rs : List TrailerRec) : Nat :=
  (rs.map (TrailerRec.reported eid)).sum

theorem entries_length (es : List CreditEntry) :
    (es.flatMap CreditEntry.encode).length = 4 * es.length := by
  induction es with
  | nil => rfl
  | cons e es ih =>
    rw [List.flatMap_cons, List.length_append, ih, List.length_cons, Nat.mul_succ]
    exact Nat.add_comm _ _

theorem TrailerRec.body_length (r : TrailerRec) : r.body.length < 256 := by
  cases r with
  | credits _ _ es hlen =>
    rw [TrailerRec.body, entries_length]
    exact hlen
  | other _ _ _ _ _ hlen => exact hlen

theorem entryCredits_encode (eid : UInt8) (es : List CreditEntry) :
    entryCredits eid (es.flatMap CreditEntry.encode) = reportedFor eid es := by
  induction es with
  | nil => rfl
  | cons e es ih => exact congrArg ((if e.eid = eid then e.credits.toNat else 0) + ·) ih

theorem TrailerRec.entryCredits_body (eid : UInt8) (r : TrailerRec) :
    (if r.id = kHtcRecordCredits then entryCredits eid r.body else 0) = r.reported eid := by
  cases r with
  | credits _ _ es => exact (if_pos rfl).trans (entryCredits_encode eid es)
  | other _ _ _ _ hid => exact if_neg hid

theorem reportedCredits_encode (eid : UInt8) (rs : List TrailerRec) :
    reportedCredits eid (encodeTrailer rs) = trailerCredits eid rs := by
  induction rs with
  | nil =>
    rw [encodeTrailer, List.flatMap_nil, reportedCredits.eq_def]
    rfl
  | cons r rs ih =>
    have hbody : (UInt8.ofNat r.body.length).toNat = r.body.length :=
      UInt8.toNat_ofNat_of_lt' r.body_length
    obtain ⟨pad0, pad1, hpads⟩ : ∃ pad0 pad1, r.pads = [pad0, pad1] := by
      cases r with
      | credits pad0 pad1 => exact ⟨pad0, pad1, rfl⟩
      | other _ pad0 pad1 => exact ⟨pad0, pad1, rfl⟩
    have hencode : encodeTrailer (r :: rs) =
        r.id :: UInt8.ofNat r.body.length :: pad0 :: pad1 :: (r.body ++ encodeTrailer rs) := by
      rw [encodeTrailer, List.flatMap_cons, TrailerRec.encode, hpads]
      rfl
    have hfits : ¬ (r.body ++ encodeTrailer rs).length < r.body.length := by
      rw [List.length_append]
      exact Nat.not_lt.2 (Nat.le_add_right _ _)
    rw [hencode, reportedCredits, hbody, if_neg hfits, List.take_left' rfl, List.drop_left' rfl,
      r.entryCredits_body, ih]
    rfl

theorem creditRecords_encode (eid : UInt8) (pre : List UInt8) (rs : List TrailerRec)
    (hoff : off = pre.length) (hc : c < 2 ^ 16) :
    creditRecords eid (pre ++ encodeTrailer rs) off c =
      some ((c + trailerCredits eid rs) % 2 ^ 16) := by
  rw [creditRecords_sum eid _ pre hoff.symm hc, reportedCredits_encode]

end Qca9377
