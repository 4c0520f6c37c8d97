import Qca9377.WmiPath
import Qca9377.TlvTable
import Qca9377.Posting

namespace Qca9377
open Bytes Interleaving
set_option autoImplicit true

/-- A received frame of at least a header; `rest` is what follows the header. -/
structure RxFrame where
  eid : UInt8
  flags : UInt8
  len : UInt16
  ctrlByte0 : UInt8
  ctrlByte1 : UInt8
  pad0 : UInt8
  pad1 : UInt8
  rest : List UInt8

namespace RxFrame

def header (x : RxFrame) : List UInt8 :=
  [x.eid, x.flags] ++ encodeLE 2 x.len.toNat ++ [x.ctrlByte0, x.ctrlByte1, x.pad0, x.pad1]

def encode (x : RxFrame) : List UInt8 := x.header ++ x.rest

theorem header_length (x : RxFrame) : x.header.length = kHtcFrameHdrLen := rfl

theorem encode_length (x : RxFrame) : x.encode.length = kHtcFrameHdrLen + x.rest.length := by
  rw [encode, List.length_append, header_length]

/-- Every byte string of eight bytes or more is a frame. -/
theorem exists_encode (h : kHtcFrameHdrLen ≤ f.length) : ∃ x : RxFrame, f = x.encode := by
  match f, h with
  | eid :: flags :: l₀ :: l₁ :: ctrlByte0 :: ctrlByte1 :: pad0 :: pad1 :: rest, _ =>
    refine ⟨⟨eid, flags, .ofNat (rd16 l₀ l₁), ctrlByte0, ctrlByte1, pad0, pad1, rest⟩, ?_⟩
    have hlen : (UInt16.ofNat (rd16 l₀ l₁)).toNat = rd16 l₀ l₁ := by
      rw [UInt16.toNat_ofNat']
      exact Nat.mod_eq_of_lt (rd16_lt l₀ l₁)
    simp only [encode, header, hlen, encodeLE_rd16, List.cons_append, List.nil_append]

def HasTrailer (x : RxFrame) : Prop := x.flags &&& kHtcRxFlagTrailerPresent ≠ 0

instance (x : RxFrame) : Decidable x.HasTrailer := inferInstanceAs (Decidable (_ ≠ _))

def body (x : RxFrame) : List UInt8 := x.rest.take x.len.toNat

/-- The last bytes of the body, when the flag is set. -/
def trailer (x : RxFrame) : List UInt8 :=
  if x.HasTrailer then x.body.drop (x.body.length - x.ctrlByte0.toNat) else []

/-- A trailer that is there fits the body. -/
def Valid (x : RxFrame) : Prop := x.HasTrailer → x.ctrlByte0.toNat ≤ x.body.length

instance (x : RxFrame) : Decidable x.Valid := inferInstanceAs (Decidable (_ → _))

def payload (x : RxFrame) : List UInt8 := x.body.take (x.body.length - x.trailer.length)

/-- What the header fields say about a frame: the credits it reports and the bytes it hands out. -/
def decoded (c : Htc) (bufLen : Nat) (x : RxFrame) : Htc × List UInt8 :=
  if x.Valid then
    ({ c with fWmiCredits := (c.fWmiCredits + reportedCredits c.fWmiEid x.trailer) % 2 ^ 16 },
      if 1 ≤ x.payload.length ∧ x.payload.length ≤ bufLen then x.payload else [])
  else (c, [])

end RxFrame

theorem Htc.parseHdr_rx (c : Htc) (x : RxFrame) (beyond : List UInt8)
    (heid : x.eid = c.fWmiEid ∨ x.eid = 0) (hlen : x.len.toNat ≤ x.rest.length) :
    c.parseHdr (x.encode ++ beyond) x.encode.length =
      if x.len.toNat < x.ctrlByte0.toNat then some none
      else some (some ⟨x.flags, x.len.toNat, x.ctrlByte0.toNat⟩) := by
  have henc := x.encode_length
  have h16 : rd16At (x.encode ++ beyond) 2 = some x.len.toNat := by
    have hrd : rd16At (x.encode ++ beyond) 2 = some (decodeLE (encodeLE 2 x.len.toNat)) :=
      congrArg some (rd16_eq _ _)
    rw [hrd, decodeLE_encodeLE_of_lt x.len.toNat_lt]
  have h0 : (x.encode ++ beyond)[0]? = some x.eid := rfl
  have h1 : (x.encode ++ beyond)[1]? = some x.flags := rfl
  have h4 : (x.encode ++ beyond)[4]? = some x.ctrlByte0 := rfl
  have hpos : ¬ x.encode.length < kHtcFrameHdrLen := by omega
  have hours : ¬ (x.eid ≠ c.fWmiEid ∧ x.eid ≠ 0) := fun h => heid.elim h.1 h.2
  have hfits : ¬ x.encode.length - kHtcFrameHdrLen < x.len.toNat := by omega
  rw [Htc.parseHdr, if_neg hpos, h0, h1, h16, h4]
  simp only [Option.bind_eq_bind, Option.bind_some, if_neg hours, if_neg hfits, Option.pure_def]

theorem RxFrame.slice_rest (x : RxFrame) (beyond : List UInt8) (h : off + k ≤ x.rest.length) :
    slice (x.encode ++ beyond) (kHtcFrameHdrLen + off) k = some ((x.rest.drop off).take k) := by
  have hoff : off ≤ x.rest.length := (Nat.le_add_right _ _).trans h
  have hk : k ≤ (x.rest.drop off).length := by
    rw [List.length_drop]
    omega
  apply slice_eq_of_append (x.header ++ x.rest.take off) _ ((x.rest.drop off).drop k ++ beyond)
  · have hrest : x.rest.take off ++ ((x.rest.drop off).take k ++ (x.rest.drop off).drop k) =
        x.rest := by rw [List.take_append_drop, List.take_append_drop]
    rw [RxFrame.encode]
    nth_rewrite 1 [← hrest]
    simp only [List.append_assoc]
  · rw [List.length_append, x.header_length, List.length_take, min_eq_left hoff]
  · rw [List.length_take, min_eq_left hk]

theorem RxFrame.body_length {x : RxFrame} (hlen : x.len.toNat ≤ x.rest.length) :
    x.body.length = x.len.toNat := by
  rw [RxFrame.body, List.length_take, min_eq_left hlen]

theorem RxFrame.trailer_bytes {x : RxFrame} (hx : x.HasTrailer)
    (hlen : x.len.toNat ≤ x.rest.length) (ht : x.ctrlByte0.toNat ≤ x.len.toNat) :
    x.trailer = (x.rest.drop (x.len.toNat - x.ctrlByte0.toNat)).take x.ctrlByte0.toNat := by
  rw [RxFrame.trailer, if_pos hx, RxFrame.body_length hlen, RxFrame.body, List.drop_take,
    Nat.sub_sub_self ht]

theorem reportedCredits_nil (eid : UInt8) : reportedCredits eid [] = 0 := by
  rw [reportedCredits]
  intro _ _ _ _ _ h
  cases h

theorem Htc.applyCreditReport_sum (c : Htc) (trailer : List UInt8) (hc : c.fWmiCredits < 2 ^ 16) :
    c.applyCreditReport trailer =
      some { c with
        fWmiCredits := (c.fWmiCredits + reportedCredits c.fWmiEid trailer) % 2 ^ 16 } := by
  have hsum : creditRecords c.fWmiEid ([] ++ trailer) 0 c.fWmiCredits = _ :=
    creditRecords_sum c.fWmiEid trailer [] rfl hc
  rw [List.nil_append] at hsum
  rw [Htc.applyCreditReport, hsum]
  rfl

theorem Htc.rxTrailer_rx (c : Htc) (x : RxFrame) (beyond : List UInt8)
    (hlen : x.len.toNat ≤ x.rest.length) (ht : x.ctrlByte0.toNat ≤ x.len.toNat)
    (hc : c.fWmiCredits < 2 ^ 16) :
    c.rxTrailer (x.encode ++ beyond) x.encode.length ⟨x.flags, x.len.toNat, x.ctrlByte0.toNat⟩ =
      some { c with
        fWmiCredits := (c.fWmiCredits + reportedCredits c.fWmiEid x.trailer) % 2 ^ 16 } := by
  have henc := x.encode_length
  by_cases hx : x.ctrlByte0.toNat ≠ 0 ∧ x.flags &&& kHtcRxFlagTrailerPresent ≠ 0
  · have hoff : kHtcFrameHdrLen + x.len.toNat - x.ctrlByte0.toNat =
        kHtcFrameHdrLen + (x.len.toNat - x.ctrlByte0.toNat) := by omega
    have hin : kHtcFrameHdrLen ≤ kHtcFrameHdrLen + (x.len.toNat - x.ctrlByte0.toNat) ∧
        kHtcFrameHdrLen + (x.len.toNat - x.ctrlByte0.toNat) + x.ctrlByte0.toNat ≤
          x.encode.length := by omega
    have hroom : x.len.toNat - x.ctrlByte0.toNat + x.ctrlByte0.toNat ≤ x.rest.length := by omega
    unfold Htc.rxTrailer
    dsimp only
    rw [if_pos hx, hoff, if_pos hin, x.slice_rest beyond hroom, Option.bind_eq_bind,
      Option.bind_some, c.applyCreditReport_sum _ hc, RxFrame.trailer_bytes hx.2 hlen ht]
  · have hnil : x.trailer = [] := by
      rw [RxFrame.trailer]
      split
      · next hflag =>
        have hzero : x.ctrlByte0.toNat = 0 := by
          by_contra hne
          exact hx ⟨hne, hflag⟩
        rw [hzero, Nat.sub_zero, List.drop_length]
      · rfl
    unfold Htc.rxTrailer
    rw [if_neg hx, hnil, reportedCredits_nil, Nat.add_zero, Nat.mod_eq_of_lt hc]

/-- What `recvWmi` does with a frame: it takes `ctrlByte0` off the body, flag or no flag. -/
theorem Htc.recvFrame_rx (c : Htc) (x : RxFrame) (beyond : List UInt8) (bufLen : Nat)
    (heid : x.eid = c.fWmiEid ∨ x.eid = 0) (hlen : x.len.toNat ≤ x.rest.length)
    (hc : c.fWmiCredits < 2 ^ 16) :
    c.recvFrame (x.encode ++ beyond) x.encode.length bufLen =
      some (if x.len.toNat < x.ctrlByte0.toNat then (c, [])
        else
          ({ c with fWmiCredits := (c.fWmiCredits + reportedCredits c.fWmiEid x.trailer) % 2 ^ 16 },
            if x.len.toNat - x.ctrlByte0.toNat = 0 ∨
                bufLen < x.len.toNat - x.ctrlByte0.toNat then []
            else x.rest.take (x.len.toNat - x.ctrlByte0.toNat))) := by
  have hparse := c.parseHdr_rx x beyond heid hlen
  by_cases hbad : x.len.toNat < x.ctrlByte0.toNat
  · rw [if_pos hbad] at hparse ⊢
    exact Htc.recvFrame_reject bufLen hparse
  · rw [if_neg hbad] at hparse ⊢
    rw [Htc.recvFrame_accept bufLen hparse, c.rxTrailer_rx x beyond hlen (Nat.le_of_not_lt hbad) hc,
      Option.bind_some]
    have hroom : 0 + (x.len.toNat - x.ctrlByte0.toNat) ≤ x.rest.length := by omega
    have hslice := x.slice_rest beyond hroom
    rw [Nat.add_zero, List.drop_zero] at hslice
    unfold HtcRx.payload
    dsimp only
    split
    · rfl
    · rw [hslice, Option.bind_some]

/-- `recvWmi` makes of a frame what its header says. -/
def DecodesExactly (c : Htc) (x : RxFrame) (beyond : List UInt8) (bufLen : Nat) : Prop :=
  c.recvFrame (x.encode ++ beyond) x.encode.length bufLen = some (x.decoded c bufLen)

/-- The flag is set, or `ctrlByte0` makes no difference: it is zero, there is no body, or neither
the body nor what is left of it can be handed out. -/
def RxFrame.Unambiguous (bufLen : Nat) (x : RxFrame) : Prop :=
  x.HasTrailer ∨ x.ctrlByte0.toNat = 0 ∨ x.len.toNat = 0 ∨
    bufLen < x.len.toNat ∧
      (x.len.toNat ≤ x.ctrlByte0.toNat ∨ bufLen < x.len.toNat - x.ctrlByte0.toNat)

theorem take_inj_of_le (l : List α) (ha : a ≤ l.length) (hb : b ≤ l.length) :
    l.take a = l.take b ↔ a = b := by
  constructor
  · intro h
    have hlen := congrArg List.length h
    rwa [List.length_take, List.length_take, min_eq_left ha, min_eq_left hb] at hlen
  · exact congrArg l.take

theorem RxFrame.decoded_flagged {x : RxFrame} (hx : x.HasTrailer)
    (hlen : x.len.toNat ≤ x.rest.length) (c : Htc) (bufLen : Nat) :
    x.decoded c bufLen = if x.len.toNat < x.ctrlByte0.toNat then (c, [])
      else
        ({ c with fWmiCredits := (c.fWmiCredits + reportedCredits c.fWmiEid x.trailer) % 2 ^ 16 },
          if x.len.toNat - x.ctrlByte0.toNat = 0 ∨ bufLen < x.len.toNat - x.ctrlByte0.toNat then []
          else x.rest.take (x.len.toNat - x.ctrlByte0.toNat)) := by
  have hbody := RxFrame.body_length hlen
  by_cases ht : x.ctrlByte0.toNat ≤ x.len.toNat
  · have hvalid : x.Valid := fun _ => hbody.symm ▸ ht
    have htrailer : x.trailer.length = x.ctrlByte0.toNat := by
      rw [RxFrame.trailer, if_pos hx, List.length_drop, hbody, Nat.sub_sub_self ht]
    have hpayload : x.payload = x.rest.take (x.len.toNat - x.ctrlByte0.toNat) := by
      rw [RxFrame.payload, hbody, htrailer, RxFrame.body, List.take_take,
        min_eq_left (Nat.sub_le _ _)]
    have hsize : x.payload.length = x.len.toNat - x.ctrlByte0.toNat := by
      rw [hpayload, List.length_take]
      omega
    rw [RxFrame.decoded, if_pos hvalid, if_neg (Nat.not_lt.2 ht), hsize, hpayload]
    by_cases hout : x.len.toNat - x.ctrlByte0.toNat = 0 ∨ bufLen < x.len.toNat - x.ctrlByte0.toNat
    · have hno : ¬ (1 ≤ x.len.toNat - x.ctrlByte0.toNat ∧
          x.len.toNat - x.ctrlByte0.toNat ≤ bufLen) := by omega
      rw [if_pos hout, if_neg hno]
    · have hyes : 1 ≤ x.len.toNat - x.ctrlByte0.toNat ∧
          x.len.toNat - x.ctrlByte0.toNat ≤ bufLen := by omega
      rw [if_neg hout, if_pos hyes]
  · have hinvalid : ¬ x.Valid := fun hv => ht (hbody ▸ hv hx)
    rw [RxFrame.decoded, if_neg hinvalid, if_pos (Nat.lt_of_not_le ht)]

theorem RxFrame.decoded_plain {x : RxFrame} (hx : ¬ x.HasTrailer)
    (hlen : x.len.toNat ≤ x.rest.length) (bufLen : Nat) (hc : c.fWmiCredits < 2 ^ 16) :
    x.decoded c bufLen =
      (c, x.rest.take (if 1 ≤ x.len.toNat ∧ x.len.toNat ≤ bufLen then x.len.toNat else 0)) := by
  have hbody := RxFrame.body_length hlen
  have hvalid : x.Valid := fun h => absurd h hx
  have htrailer : x.trailer = [] := if_neg hx
  have hpayload : x.payload = x.rest.take x.len.toNat := by
    rw [RxFrame.payload, htrailer, List.length_nil, Nat.sub_zero, List.take_length, RxFrame.body]
  have hsize : x.payload.length = x.len.toNat := by
    rw [hpayload, List.length_take, min_eq_left hlen]
  rw [RxFrame.decoded, if_pos hvalid, htrailer, reportedCredits_nil, Nat.add_zero,
    Nat.mod_eq_of_lt hc, hsize, hpayload]
  by_cases hout : 1 ≤ x.len.toNat ∧ x.len.toNat ≤ bufLen
  · rw [if_pos hout, if_pos hout]
  · rw [if_neg hout, if_neg hout, List.take_zero]

/-- A frame is decoded exactly if its flag is set or its `ctrlByte0` makes no difference. -/
theorem decodesExactly_iff (c : Htc) (x : RxFrame) (beyond : List UInt8) (bufLen : Nat)
    (heid : x.eid = c.fWmiEid ∨ x.eid = 0) (hlen : x.len.toNat ≤ x.rest.length)
    (hc : c.fWmiCredits < 2 ^ 16) :
    DecodesExactly c x beyond bufLen ↔ x.Unambiguous bufLen := by
  have hrecv := c.recvFrame_rx x beyond bufLen heid hlen hc
  rw [DecodesExactly, hrecv]
  by_cases hx : x.HasTrailer
  · rw [RxFrame.decoded_flagged hx hlen]
    exact iff_of_true rfl (.inl hx)
  · have htrailer : x.trailer = [] := if_neg hx
    have hcode : (if x.len.toNat < x.ctrlByte0.toNat then (c, [])
        else
          ({ c with fWmiCredits := (c.fWmiCredits + reportedCredits c.fWmiEid x.trailer) % 2 ^ 16 },
            if x.len.toNat - x.ctrlByte0.toNat = 0 ∨ bufLen < x.len.toNat - x.ctrlByte0.toNat
            then [] else x.rest.take (x.len.toNat - x.ctrlByte0.toNat))) =
        (c, x.rest.take (if bufLen < x.len.toNat - x.ctrlByte0.toNat then 0
          else x.len.toNat - x.ctrlByte0.toNat)) := by
      rw [htrailer, reportedCredits_nil, Nat.add_zero, Nat.mod_eq_of_lt hc]
      split
      · next hbad =>
        rw [Nat.sub_eq_zero_of_le hbad.le, ite_self, List.take_zero]
      · split
        · next hout =>
          rcases hout with hzero | hbuf
          · rw [hzero, ite_self, List.take_zero]
          · rw [if_pos hbuf, List.take_zero]
        · next hout => rw [if_neg (not_or.1 hout).2]
    rw [hcode, RxFrame.decoded_plain hx hlen bufLen hc, Option.some_inj, Prod.mk.injEq,
      take_inj_of_le _ (by split <;> omega) (by split <;> omega), RxFrame.Unambiguous]
    simp only [hx, true_and, false_or]
    split
    · split
      · omega
      · omega
    · split
      · omega
      · omega

def oneCredit : Htc := ⟨2, 1792, 1, 1, 0, 0⟩

def unflaggedFrame : RxFrame := ⟨1, 0, 1, 1, 0, 0, 0, [0xab]⟩

theorem decodesExactly_unflagged :
    DecodesExactly oneCredit unflaggedFrame [] 2048 ↔ unflaggedFrame.Unambiguous 2048 :=
  decodesExactly_iff oneCredit unflaggedFrame [] 2048 (.inl rfl) (by decide) (by decide)

/-- The byte is taken for a trailer and lost. -/
theorem unflagged_trailer_stripped :
    unflaggedFrame.encode.length = 9 ∧ unflaggedFrame.eid = oneCredit.fWmiEid ∧
      unflaggedFrame.len.toNat ≤ unflaggedFrame.encode.length - 8 ∧
      ¬ unflaggedFrame.HasTrailer ∧ ¬ DecodesExactly oneCredit unflaggedFrame [] 2048 ∧
      oneCredit.recvFrame unflaggedFrame.encode 9 2048 = some (oneCredit, []) ∧
      unflaggedFrame.decoded oneCredit 2048 = (oneCredit, [0xab]) := by
  have hrecv : oneCredit.recvFrame unflaggedFrame.encode 9 2048 = some (oneCredit, []) := by decide
  have hdecoded : unflaggedFrame.decoded oneCredit 2048 = (oneCredit, [0xab]) := by
    have hflag : ¬ unflaggedFrame.HasTrailer := by decide
    exact RxFrame.decoded_plain hflag (by decide) 2048 (by decide)
  refine ⟨rfl, rfl, by decide, by decide, ?_, hrecv, hdecoded⟩
  intro h
  rw [DecodesExactly, List.append_nil, hdecoded] at h
  have hlost := congrArg Prod.snd (Option.some.inj (hrecv.symm.trans h))
  cases hlost

end Qca9377
