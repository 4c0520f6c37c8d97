import Qca9377.RxFrame
import Qca9377.Calls

namespace Qca9377
open Bytes Interleaving
set_option autoImplicit true

/-- A computation that reads bytes of the receive buffer, or of what lies behind it. -/
abbrev RxRead := Calls Nat UInt8

def rxByte (off : Nat) : RxRead UInt8 := Calls.make off

def rxBytes (off : Nat) : Nat → RxRead (List UInt8)
  | 0 => return []
  | n + 1 => do
    let b ← rxByte off
    let bs ← rxBytes (off + 1) n
    return b :: bs

/-- The entries of one credit record whose body starts at `body`. -/
def creditEntriesRead (eid : UInt8) (body recLen i credits : Nat) : RxRead Nat :=
  if i + 4 ≤ recLen then do
    let e ← rxByte (body + i)
    let c ← rxByte (body + i + 1)
    creditEntriesRead eid body recLen (i + 4)
      (if e = eid then (credits + c.toNat) % 2 ^ 16 else credits)
  else return credits
termination_by recLen - i

def creditRecordsRead (eid : UInt8) (trailer trailerLen off credits : Nat) : RxRead Nat :=
  if off + 2 ≤ trailerLen then do
    let recId ← rxByte (trailer + off)
    let recLen ← rxByte (trailer + off + 1)
    if trailerLen < off + 4 + recLen.toNat then
      return credits
    let credits ←
      if recId = kHtcRecordCredits ∧ 4 ≤ recLen.toNat then
        creditEntriesRead eid (trailer + off + 4) recLen.toNat 0 credits
      else pure credits
    creditRecordsRead eid trailer trailerLen (off + 4 + recLen.toNat) credits
  else return credits
termination_by trailerLen - off

/-- `Htc::applyCreditReport` on the bytes from `trailer` on. -/
def Htc.applyCreditReportRead (c : Htc) (trailer trailerLen : Nat) : RxRead Htc := do
  return { c with fWmiCredits := ← creditRecordsRead c.fWmiEid trailer trailerLen 0 c.fWmiCredits }

def Htc.parseHdrRead (c : Htc) (rawLen : Nat) : RxRead (Option HtcRx) :=
  if rawLen < kHtcFrameHdrLen then return none
  else do
    let eid ← rxByte 0
    let flags ← rxByte 1
    let l₀ ← rxByte 2
    let l₁ ← rxByte 3
    let trailerLen ← rxByte 4
    let len := rd16 l₀ l₁
    if eid ≠ c.fWmiEid ∧ eid ≠ 0 then return none
    if rawLen - kHtcFrameHdrLen < len then return none
    if len < trailerLen.toNat then return none
    return some ⟨flags, len, trailerLen.toNat⟩

def Htc.rxTrailerRead (c : Htc) (rawLen : Nat) (x : HtcRx) : RxRead Htc :=
  if x.trailerLen ≠ 0 ∧ x.flags &&& kHtcRxFlagTrailerPresent ≠ 0 then
    let trOff := kHtcFrameHdrLen + x.len - x.trailerLen
    if kHtcFrameHdrLen ≤ trOff ∧ trOff + x.trailerLen ≤ rawLen then
      c.applyCreditReportRead trOff x.trailerLen
    else return c
  else return c

def HtcRx.payloadRead (x : HtcRx) (bufLen : Nat) : RxRead (List UInt8) :=
  let payloadLen := x.len - x.trailerLen
  if payloadLen = 0 ∨ bufLen < payloadLen then return []
  else rxBytes kHtcFrameHdrLen payloadLen

/-- `Htc::recvWmi` with a completed descriptor of `rawLen` bytes. -/
def Htc.recvWmiRead (c : Htc) (rawLen bufLen : Nat) : RxRead (Htc × List UInt8) := do
  match ← c.parseHdrRead rawLen with
  | none => return (c, [])
  | some x => return (← c.rxTrailerRead rawLen x, ← x.payloadRead bufLen)

/-- The bytes that a memory holds from `base` on. -/
def Shows (mem : Nat → UInt8) (base : Nat) (b : List UInt8) : Prop :=
  ∀ i < b.length, b[i]? = some (mem (base + i))

theorem Shows.slice (h : Shows mem base b) (hx : slice b off len = some x) :
    Shows mem (base + off) x := by
  have hlen := slice_length hx
  simp only [Bytes.slice] at hx
  split at hx
  · next hin =>
    obtain rfl := Option.some.inj hx
    intro i hi
    rw [List.getElem?_take_of_lt (hlen ▸ hi), List.getElem?_drop, Nat.add_assoc]
    exact h _ (by omega)
  · cases hx

section Refinement

variable {mem : Nat → UInt8}

theorem creditEntries_read (h : Shows mem base b) (hin : off + recLen ≤ b.length) :
    creditEntries eid b off recLen i credits =
      some ((creditEntriesRead eid (base + off) recLen i credits).answer mem) := by
  induction i, credits using creditEntriesRead.induct eid recLen with
  | case1 i credits hi ih =>
    have h0 : b[off + i]? = some (mem (base + off + i)) := by
      rw [h _ (by omega), Nat.add_assoc]
    have h1 : b[off + i + 1]? = some (mem (base + off + i + 1)) := by
      rw [h _ (by omega), Nat.add_assoc, Nat.add_assoc, Nat.add_assoc]
    have hrest := ih (mem (base + off + i)) (mem (base + off + i + 1))
    rw [dite_eq_ite] at hrest
    rw [creditEntries, if_pos hi, h0, h1, creditEntriesRead, if_pos hi]
    exact hrest
  | case2 i credits hi =>
    rw [creditEntries, if_neg hi, creditEntriesRead, if_neg hi]
    rfl

theorem creditRecords_read (h : Shows mem base b) :
    creditRecords eid b off credits =
      some ((creditRecordsRead eid base b.length off credits).answer mem) := by
  induction off, credits using creditRecordsRead.induct b.length with
  | case1 off credits hoff ih =>
    have h0 : b[off]? = some (mem (base + off)) := h _ (by omega)
    have h1 : b[off + 1]? = some (mem (base + off + 1)) := h _ (by omega)
    rw [creditRecords, if_pos hoff, h0, h1, creditRecordsRead, if_pos hoff]
    simp only [Calls.bind_eq_bind, Calls.pure_eq_ret, rxByte, Calls.make_bind, Calls.answer_call,
      Option.bind_eq_bind, Option.bind_some, Option.pure_def, Calls.ret_bind]
    split
    · rfl
    · next hfit =>
      have hrest := ih _ hfit
      split
      · rw [creditEntries_read h (Nat.le_of_not_lt hfit), Calls.answer_bind, Option.bind_some,
          Nat.add_assoc base off 4]
        exact hrest _
      · exact hrest _
  | case2 off credits hoff =>
    rw [creditRecords, if_neg hoff, creditRecordsRead, if_neg hoff]
    rfl

theorem rxBytes_read (h : Shows mem 0 b) (hin : off + n ≤ b.length) :
    slice b off n = some ((rxBytes off n).answer mem) := by
  induction n generalizing off with
  | zero =>
    rw [Bytes.slice, if_pos hin, List.take_zero]
    rfl
  | succ n ih =>
    have h0 : b[off]? = some (mem off) := by rw [h _ (by omega), Nat.zero_add]
    have hin' : off + 1 + n ≤ b.length := by omega
    have hrest := ih hin'
    rw [Bytes.slice, if_pos (by omega)] at hrest ⊢
    obtain ⟨hlt, hget⟩ := List.getElem?_eq_some_iff.1 h0
    rw [List.drop_eq_getElem_cons hlt, List.take_succ_cons, hget, Option.some.inj hrest]
    rw [rxBytes]
    simp only [Calls.bind_eq_bind, Calls.pure_eq_ret, rxByte, Calls.make_bind, Calls.answer_call,
      Calls.answer_bind, Calls.answer_ret]

theorem parseHdr_read (c : Htc) (h : Shows mem 0 raw) (hlen : rawLen ≤ raw.length) :
    c.parseHdr raw rawLen = some ((c.parseHdrRead rawLen).answer mem) := by
  have hat (i : Nat) (hi : i < raw.length) : raw[i]? = some (mem i) := by
    rw [h i hi, Nat.zero_add]
  by_cases hshort : rawLen < kHtcFrameHdrLen
  · rw [Htc.parseHdr, if_pos hshort, Htc.parseHdrRead, if_pos hshort]
    rfl
  · have h8 : 8 ≤ rawLen := Nat.le_of_not_lt hshort
    have h16 : rd16At raw 2 = some (rd16 (mem 2) (mem 3)) := by
      rw [rd16At, hat 2 (by omega), hat 3 (by omega)]
      rfl
    rw [Htc.parseHdr, if_neg hshort, hat 0 (by omega), hat 1 (by omega), h16, hat 4 (by omega),
      Htc.parseHdrRead, if_neg hshort]
    simp only [Calls.bind_eq_bind, Calls.pure_eq_ret, rxByte, Calls.make_bind, Calls.answer_call,
      Option.bind_eq_bind, Option.bind_some, Option.pure_def]
    split
    · rfl
    split
    · rfl
    split
    · rfl
    · rfl

theorem rxTrailer_read (c : Htc) (x : HtcRx) (h : Shows mem 0 raw) (hlen : rawLen ≤ raw.length) :
    c.rxTrailer raw rawLen x = some ((c.rxTrailerRead rawLen x).answer mem) := by
  unfold Htc.rxTrailer Htc.rxTrailerRead
  dsimp only
  split
  · split
    · next hin =>
      obtain ⟨tr, htr⟩ := Option.isSome_iff_exists.1 (slice_isSome (hin.2.trans hlen))
      have hsum : creditRecords c.fWmiEid tr 0 c.fWmiCredits = _ := creditRecords_read (h.slice htr)
      rw [Nat.zero_add, slice_length htr] at hsum
      rw [htr, Htc.applyCreditReportRead, Calls.bind_eq_bind, Calls.answer_bind]
      simp only [Option.bind_eq_bind, Option.bind_some, Htc.applyCreditReport, hsum]
      rfl
    · rfl
  · rfl

theorem payload_read (x : HtcRx) (bufLen : Nat) (h : Shows mem 0 raw)
    (hlen : kHtcFrameHdrLen + x.len ≤ raw.length) :
    x.payload raw bufLen = some ((x.payloadRead bufLen).answer mem) := by
  unfold HtcRx.payload HtcRx.payloadRead
  dsimp only
  split
  · rfl
  · exact rxBytes_read h (by omega)

theorem parseHdrRead_len {c : Htc} (h : (c.parseHdrRead rawLen).answer mem = some x) :
    kHtcFrameHdrLen + x.len ≤ rawLen := by
  unfold Htc.parseHdrRead at h
  split at h
  · cases h
  · next hshort =>
    simp only [Calls.bind_eq_bind, Calls.pure_eq_ret, rxByte, Calls.make_bind,
      Calls.answer_call] at h
    split at h
    · cases h
    split at h
    · cases h
    next hfit =>
    split at h
    · cases h
    · obtain rfl := Option.some.inj h
      dsimp only
      omega

/-- Inside the bytes received, the reads compute what `recvFrame` does on the buffer. -/
theorem recvFrame_read (c : Htc) (bufLen : Nat) (h : Shows mem 0 raw)
    (hlen : rawLen ≤ raw.length) :
    c.recvFrame raw rawLen bufLen = some ((c.recvWmiRead rawLen bufLen).answer mem) := by
  have hparse := parseHdr_read c h hlen
  rw [Htc.recvWmiRead, Calls.bind_eq_bind, Calls.answer_bind]
  cases hx : (c.parseHdrRead rawLen).answer mem with
  | none => exact Htc.recvFrame_reject bufLen (hparse.trans (congrArg some hx))
  | some x =>
    have hin := (parseHdrRead_len hx).trans hlen
    rw [Htc.recvFrame_accept bufLen (hparse.trans (congrArg some hx)), rxTrailer_read c x h hlen,
      payload_read x bufLen h hin]
    simp only [Option.bind_some, Calls.bind_eq_bind, Calls.pure_eq_ret, Calls.answer_bind,
      Calls.answer_ret]

end Refinement

/-- Where a record starts at `off`, another one starts at `off'`. -/
inductive RecordFrom (mem : Nat → UInt8) (trailer trailerLen : Nat) : Nat → Nat → Prop
  | here : RecordFrom mem trailer trailerLen off off
  | next (hfit : off + 4 + (mem (trailer + off + 1)).toNat ≤ trailerLen)
      (h : RecordFrom mem trailer trailerLen (off + 4 + (mem (trailer + off + 1)).toNat) off') :
      RecordFrom mem trailer trailerLen off off'

/-- Inside the buffer lie the id and the length of every record from `start` on, and the first two
bytes of every entry of a credit record. -/
structure RecordsInside (mem : Nat → UInt8) (trailer trailerLen start : Nat) : Prop where
  header : ∀ off, RecordFrom mem trailer trailerLen start off → off + 2 ≤ trailerLen →
    trailer + off + 2 ≤ kRxBufSz
  entry : ∀ off k, RecordFrom mem trailer trailerLen start off →
    off + 4 + (mem (trailer + off + 1)).toNat ≤ trailerLen →
    mem (trailer + off) = kHtcRecordCredits → 4 * k + 4 ≤ (mem (trailer + off + 1)).toNat →
    trailer + off + 4 + 4 * k + 2 ≤ kRxBufSz

/-- The header passes the checks of `recvWmi`. -/
structure Accepted (c : Htc) (mem : Nat → UInt8) (rawLen : Nat) : Prop where
  header : kHtcFrameHdrLen ≤ rawLen
  eid : mem 0 = c.fWmiEid ∨ mem 0 = 0
  len : rd16 (mem 2) (mem 3) ≤ rawLen - kHtcFrameHdrLen
  trailer : (mem 4).toNat ≤ rd16 (mem 2) (mem 3)

/-- What an accepted header points to lies inside the buffer: the records of a flagged trailer and
the payload that is handed out. -/
def BodyInside (c : Htc) (mem : Nat → UInt8) (rawLen bufLen : Nat) : Prop :=
  Accepted c mem rawLen →
    (mem 1 &&& kHtcRxFlagTrailerPresent ≠ 0 →
      RecordsInside mem (kHtcFrameHdrLen + (rd16 (mem 2) (mem 3) - (mem 4).toNat))
        (mem 4).toNat 0) ∧
    (rd16 (mem 2) (mem 3) - (mem 4).toNat ≤ bufLen →
      kHtcFrameHdrLen + (rd16 (mem 2) (mem 3) - (mem 4).toNat) ≤ kRxBufSz)

def ReadsInside (mem : Nat → UInt8) (t : RxRead α) : Prop := ∀ off ∈ t.asked mem, off < kRxBufSz

section Inside

variable {mem : Nat → UInt8}

theorem ReadsInside.ret (a : α) : ReadsInside mem (.ret a) := fun _ h => absurd h List.not_mem_nil

theorem readsInside_bind (t : RxRead α) (k : α → RxRead β) :
    ReadsInside mem (t.bind k) ↔ ReadsInside mem t ∧ ReadsInside mem (k (t.answer mem)) := by
  simp only [ReadsInside, Calls.asked_bind, List.forall_mem_append]

theorem readsInside_call (off : Nat) (k : UInt8 → RxRead α) :
    ReadsInside mem (.call off k) ↔ off < kRxBufSz ∧ ReadsInside mem (k (mem off)) := by
  simp only [ReadsInside, Calls.asked_call, List.forall_mem_cons]

theorem readsInside_bytes (off n : Nat) :
    ReadsInside mem (rxBytes off n) ↔ (n = 0 ∨ off + n ≤ kRxBufSz) := by
  induction n generalizing off with
  | zero => exact iff_of_true (.ret []) (.inl rfl)
  | succ n ih =>
    have hrest : ReadsInside mem ((rxBytes (off + 1) n).bind fun bs => .ret (mem off :: bs)) ↔
        (n = 0 ∨ off + 1 + n ≤ kRxBufSz) := by
      rw [readsInside_bind, ih, and_iff_left (ReadsInside.ret _)]
    rw [rxBytes, Calls.bind_eq_bind, rxByte, Calls.make_bind, readsInside_call]
    refine (and_congr_right fun _ => hrest).trans ?_
    omega

theorem readsInside_entries (eid : UInt8) (body recLen i credits : Nat) :
    ReadsInside mem (creditEntriesRead eid body recLen i credits) ↔
      ∀ k, i + 4 * k + 4 ≤ recLen → body + i + 4 * k + 2 ≤ kRxBufSz := by
  induction i, credits using creditEntriesRead.induct eid recLen with
  | case1 i credits hi ih =>
    have hrest := ih (mem (body + i)) (mem (body + i + 1))
    rw [dite_eq_ite] at hrest
    rw [creditEntriesRead, if_pos hi]
    simp only [Calls.bind_eq_bind, rxByte, Calls.make_bind]
    rw [readsInside_call, readsInside_call, hrest]
    constructor
    · rintro ⟨-, h1, hk⟩ k hin
      cases k with
      | zero => omega
      | succ k =>
        have hnext := hk k (by omega)
        omega
    · intro h
      have h0 := h 0 (by omega)
      refine ⟨by omega, by omega, fun k hin => ?_⟩
      have hnext := h (k + 1) (by omega)
      omega
  | case2 i credits hi =>
    rw [creditEntriesRead, if_neg hi]
    exact iff_of_true (.ret _) fun k hk => absurd hk (by omega)

theorem recordsInside_cons (hoff : off + 2 ≤ n) :
    RecordsInside mem trailer n off ↔
      trailer + off + 2 ≤ kRxBufSz ∧
        (off + 4 + (mem (trailer + off + 1)).toNat ≤ n →
          (mem (trailer + off) = kHtcRecordCredits → ∀ k,
            4 * k + 4 ≤ (mem (trailer + off + 1)).toNat →
            trailer + off + 4 + 4 * k + 2 ≤ kRxBufSz) ∧
          RecordsInside mem trailer n (off + 4 + (mem (trailer + off + 1)).toNat)) := by
  constructor
  · intro h
    refine ⟨h.header off .here hoff, fun hfit => ⟨?_, ?_⟩⟩
    · intro hcredits k hk
      exact h.entry off k .here hfit hcredits hk
    · exact ⟨fun off' h' => h.header off' (.next hfit h'),
        fun off' k h' => h.entry off' k (.next hfit h')⟩
  · rintro ⟨hhead, hrest⟩
    constructor
    · intro off' h hin
      cases h with
      | here => exact hhead
      | next hfit h => exact (hrest hfit).2.header off' h hin
    · intro off' k h
      cases h with
      | here => exact fun hfit hcredits => (hrest hfit).1 hcredits k
      | next hfit h => exact (hrest hfit).2.entry off' k h

theorem readsInside_records (eid : UInt8) (trailer n off credits : Nat) :
    ReadsInside mem (creditRecordsRead eid trailer n off credits) ↔
      RecordsInside mem trailer n off := by
  induction off, credits using creditRecordsRead.induct n with
  | case1 off credits hoff ih =>
    have hhead : (trailer + off < kRxBufSz ∧ trailer + off + 1 < kRxBufSz) ↔
        trailer + off + 2 ≤ kRxBufSz := by omega
    rw [creditRecordsRead, if_pos hoff, recordsInside_cons hoff, ← hhead, and_assoc]
    simp only [Calls.bind_eq_bind, Calls.pure_eq_ret, rxByte, Calls.make_bind, Calls.ret_bind,
      readsInside_call]
    refine and_congr_right fun _ => and_congr_right fun _ => ?_
    split
    · next hfit => exact iff_of_true (.ret _) fun h => absurd h (Nat.not_le.2 hfit)
    next hfit =>
    rw [imp_iff_right (Nat.le_of_not_lt hfit)]
    split
    · next hcredits =>
      rw [readsInside_bind, readsInside_entries, ih _ hfit, imp_iff_right hcredits.1]
      simp only [Nat.zero_add, Nat.add_zero]
    · next hcredits =>
      have hnone : mem (trailer + off) = kHtcRecordCredits → ∀ k,
          4 * k + 4 ≤ (mem (trailer + off + 1)).toNat →
          trailer + off + 4 + 4 * k + 2 ≤ kRxBufSz := by
        intro hid k hk
        exact absurd ⟨hid, (Nat.le_add_left 4 _).trans hk⟩ hcredits
      rw [ih _ hfit, and_iff_right hnone]
  | case2 off credits hoff =>
    rw [creditRecordsRead, if_neg hoff]
    refine iff_of_true (.ret _) ⟨fun off' h hin => ?_, fun off' k h hfit => ?_⟩
    · cases h with
      | here => exact absurd hin hoff
      | next hfit => omega
    · cases h with
      | here => omega
      | next hfit => omega

theorem readsInside_trailer (c : Htc) (x : HtcRx) (hlen : x.len ≤ rawLen - kHtcFrameHdrLen)
    (h8 : kHtcFrameHdrLen ≤ rawLen) (ht : x.trailerLen ≤ x.len) :
    ReadsInside mem (c.rxTrailerRead rawLen x) ↔
      (x.flags &&& kHtcRxFlagTrailerPresent ≠ 0 →
        RecordsInside mem (kHtcFrameHdrLen + (x.len - x.trailerLen)) x.trailerLen 0) := by
  have hoff : kHtcFrameHdrLen + x.len - x.trailerLen =
      kHtcFrameHdrLen + (x.len - x.trailerLen) := by omega
  have hin : kHtcFrameHdrLen ≤ kHtcFrameHdrLen + (x.len - x.trailerLen) ∧
      kHtcFrameHdrLen + (x.len - x.trailerLen) + x.trailerLen ≤ rawLen := by omega
  unfold Htc.rxTrailerRead
  dsimp only
  rw [hoff, if_pos hin]
  split
  · next hflag =>
    rw [imp_iff_right hflag.2, Htc.applyCreditReportRead, Calls.bind_eq_bind,
      readsInside_bind, readsInside_records]
    exact and_iff_left (.ret _)
  · next hflag =>
    refine iff_of_true (.ret _) fun hpresent => ?_
    have hzero : x.trailerLen = 0 := by
      by_contra hne
      exact hflag ⟨hne, hpresent⟩
    rw [hzero]
    constructor
    · intro off h hoff
      omega
    · intro off k h hfit
      omega

theorem readsInside_payload (x : HtcRx) (bufLen : Nat) :
    ReadsInside mem (x.payloadRead bufLen) ↔
      (x.len - x.trailerLen ≤ bufLen →
        kHtcFrameHdrLen + (x.len - x.trailerLen) ≤ kRxBufSz) := by
  have h8 : kHtcFrameHdrLen ≤ kRxBufSz := by decide
  unfold HtcRx.payloadRead
  dsimp only
  split
  · refine iff_of_true (.ret _) ?_
    omega
  · rw [readsInside_bytes]
    omega

/-- A frame is read inside the buffer just when what its header points to lies there. -/
theorem readsInside_recvWmi (c : Htc) (rawLen bufLen : Nat) :
    ReadsInside mem (c.recvWmiRead rawLen bufLen) ↔ BodyInside c mem rawLen bufLen := by
  rw [Htc.recvWmiRead, Calls.bind_eq_bind, readsInside_bind]
  unfold Htc.parseHdrRead
  split
  · next hshort =>
    exact iff_of_true ⟨.ret _, .ret _⟩ fun h => absurd h.header (Nat.not_le.2 hshort)
  next hshort =>
  have hsize : (4 : Nat) < kRxBufSz := by decide
  simp only [Calls.bind_eq_bind, Calls.pure_eq_ret, rxByte, Calls.make_bind, readsInside_call,
    Calls.answer_call]
  split
  · next heid =>
    refine iff_of_true ⟨⟨by omega, by omega, by omega, by omega, hsize, .ret _⟩, .ret _⟩ fun h => ?_
    exact absurd h.eid (not_or.2 heid)
  next heid =>
  split
  · next hlen =>
    refine iff_of_true ⟨⟨by omega, by omega, by omega, by omega, hsize, .ret _⟩, .ret _⟩ fun h => ?_
    exact absurd h.len (Nat.not_le.2 hlen)
  next hlen =>
  split
  · next htrailer =>
    refine iff_of_true ⟨⟨by omega, by omega, by omega, by omega, hsize, .ret _⟩, .ret _⟩ fun h => ?_
    exact absurd h.trailer (Nat.not_le.2 htrailer)
  next htrailer =>
  have haccepted : Accepted c mem rawLen :=
    ⟨Nat.le_of_not_lt hshort, not_not.1 (mt not_or.1 heid), Nat.le_of_not_lt hlen,
      Nat.le_of_not_lt htrailer⟩
  have hheader : (0 < kRxBufSz ∧ 1 < kRxBufSz ∧ 2 < kRxBufSz ∧ 3 < kRxBufSz ∧ 4 < kRxBufSz ∧
      ReadsInside mem (.ret (some (HtcRx.mk (mem 1) (rd16 (mem 2) (mem 3)) (mem 4).toNat)))) :=
    ⟨by omega, by omega, by omega, by omega, hsize, .ret _⟩
  rw [and_iff_right hheader, BodyInside, imp_iff_right haccepted]
  simp only [Calls.answer_ret, readsInside_bind]
  rw [readsInside_trailer c _ haccepted.len haccepted.header haccepted.trailer,
    readsInside_payload]
  exact and_congr_right fun _ => and_iff_left (.ret _)

end Inside

/-- A frame from `c`'s endpoint that fills the descriptor and ends with a trailer of two bytes. -/
def trailerAtEnd (c : Htc) (nbytes : Nat) : Nat → UInt8
  | 0 => c.fWmiEid
  | 1 => kHtcRxFlagTrailerPresent
  | 2 => .ofNat (nbytes - kHtcFrameHdrLen)
  | 3 => .ofNat ((nbytes - kHtcFrameHdrLen) / 256)
  | 4 => 2
  | _ => 0

theorem trailerAtEnd_reads (c : Htc) (bufLen : Nat) (hlt : nbytes < 2 ^ 16)
    (hbig : kRxBufSz < nbytes) :
    ¬ ReadsInside (trailerAtEnd c nbytes) (c.recvWmiRead nbytes bufLen) := by
  have h8 : kHtcFrameHdrLen + 2 ≤ nbytes := Nat.le_trans (by decide) hbig.le
  have hlen : rd16 (trailerAtEnd c nbytes 2) (trailerAtEnd c nbytes 3) =
      nbytes - kHtcFrameHdrLen := by
    have henc : rd16 (trailerAtEnd c nbytes 2) (trailerAtEnd c nbytes 3) =
        decodeLE (encodeLE 2 (nbytes - kHtcFrameHdrLen)) := rd16_eq _ _
    rw [henc, decodeLE_encodeLE_of_lt (Nat.lt_of_le_of_lt (Nat.sub_le _ _) hlt)]
  rw [readsInside_recvWmi]
  intro h
  have haccepted : Accepted c (trailerAtEnd c nbytes) nbytes := by
    refine ⟨by omega, .inl rfl, hlen.le, ?_⟩
    rw [hlen]
    exact Nat.le_sub_of_add_le' h8
  have hflag : kHtcRxFlagTrailerPresent &&& kHtcRxFlagTrailerPresent ≠ 0 := by decide
  have hhead := ((h haccepted).1 hflag).header 0 .here (Nat.le_refl 2)
  have htwo : (trailerAtEnd c nbytes 4).toNat = 2 := rfl
  rw [hlen, htwo] at hhead
  omega

/-- A descriptor that claims no more than the buffer keeps all reads inside it. -/
theorem bodyInside_of_le (c : Htc) (mem : Nat → UInt8) (bufLen : Nat) (h : nbytes ≤ kRxBufSz) :
    BodyInside c mem nbytes bufLen := by
  intro hx
  have hheader := hx.header
  have hlen := hx.len
  have htrailer := hx.trailer
  refine ⟨fun _ => ⟨fun off _ hin => ?_, fun off k _ hfit _ hk => ?_⟩, fun _ => ?_⟩
  · omega
  · omega
  · omega

/-- Every frame that a descriptor of `nbytes` bytes can complete with is read inside the receive
buffer just when what its header points to lies there, and all of them are just when the descriptor
does not claim more than the buffer. -/
theorem readsInside_iff (c : Htc) (nbytes : UInt16) (bufLen : Nat) :
    (∀ mem, ReadsInside mem (c.recvWmiRead nbytes.toNat bufLen) ↔
      BodyInside c mem nbytes.toNat bufLen) ∧
    ((∀ mem, ReadsInside mem (c.recvWmiRead nbytes.toNat bufLen)) ↔ nbytes.toNat ≤ kRxBufSz) := by
  refine ⟨fun mem => readsInside_recvWmi c _ _, fun h => ?_, fun h mem => ?_⟩
  · by_contra hbig
    exact trailerAtEnd_reads c bufLen nbytes.toNat_lt (Nat.lt_of_not_le hbig) (h _)
  · exact (readsInside_recvWmi c _ _).2 (bodyInside_of_le c mem bufLen h)

/-- A descriptor of one byte too many: the second byte of the trailer is read behind the buffer. -/
theorem trailer_read_behind :
    (List.range 5).map (trailerAtEnd oneCredit 2049) = [1, 2, 0xf9, 0x07, 2] ∧
      kRxBufSz ∈ (oneCredit.recvWmiRead 2049 2048).asked (trailerAtEnd oneCredit 2049) ∧
      ¬ ReadsInside (trailerAtEnd oneCredit 2049) (oneCredit.recvWmiRead 2049 2048) := by
  have hhdr : (oneCredit.parseHdrRead 2049).answer (trailerAtEnd oneCredit 2049) =
      some ⟨2, 2041, 2⟩ := rfl
  have htrailer : oneCredit.rxTrailerRead 2049 ⟨2, 2041, 2⟩ =
      oneCredit.applyCreditReportRead 2047 2 := rfl
  have hread : kRxBufSz ∈
      (oneCredit.recvWmiRead 2049 2048).asked (trailerAtEnd oneCredit 2049) := by
    rw [Htc.recvWmiRead, Calls.bind_eq_bind, Calls.asked_bind, hhdr]
    dsimp only
    rw [htrailer, Calls.bind_eq_bind, Calls.asked_bind, Htc.applyCreditReportRead,
      Calls.bind_eq_bind, Calls.asked_bind, creditRecordsRead, if_pos (Nat.le_refl 2)]
    apply List.mem_append_right
    apply List.mem_append_left
    apply List.mem_append_left
    exact List.mem_cons_of_mem _ List.mem_cons_self
  exact ⟨by decide, hread, fun h => Nat.lt_irrefl _ (h _ hread)⟩

end Qca9377
