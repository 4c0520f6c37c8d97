import Qca9377.RxReads

namespace Qca9377
open Bytes Interleaving
set_option autoImplicit true

/-- A trailer record with any body; the entries of a credit record need not fill it. -/
structure TrailerRecord where
  id : UInt8
  pad0 : UInt8
  pad1 : UInt8
  body : List UInt8
  hlen : body.length < 256

namespace TrailerRecord

def encode (r : TrailerRecord) : List UInt8 :=
  [r.id, UInt8.ofNat r.body.length, r.pad0, r.pad1] ++ r.body

/-- The credits that the complete entries of a credit record give to an endpoint. -/
def reported (eid : UInt8) (r : TrailerRecord) : Nat :=
  if r.id = kHtcRecordCredits then entryCredits eid r.body else 0

end TrailerRecord

def recordCredits (eid : UInt8) (rs : List TrailerRecord) : Nat :=
  (rs.map (TrailerRecord.reported eid)).sum

/-- No complete record starts here. -/
def Truncated (rest : List UInt8) : Prop :=
  ∀ (r : TrailerRecord) (s : List UInt8), rest ≠ r.encode ++ s

theorem TrailerRecord.length_byte (r : TrailerRecord) :
    (UInt8.ofNat r.body.length).toNat = r.body.length := UInt8.toNat_ofNat_of_lt' r.hlen

theorem reportedCredits_record (eid : UInt8) (r : TrailerRecord) (rest : List UInt8) :
    reportedCredits eid (r.encode ++ rest) = r.reported eid + reportedCredits eid rest := by
  have hencode : r.encode ++ rest =
      r.id :: UInt8.ofNat r.body.length :: r.pad0 :: r.pad1 :: (r.body ++ rest) := rfl
  have hfits : ¬ (r.body ++ rest).length < r.body.length := by
    rw [List.length_append]
    exact Nat.not_lt.2 (Nat.le_add_right _ _)
  rw [hencode, reportedCredits, r.length_byte, if_neg hfits, List.take_left' rfl,
    List.drop_left' rfl]
  rfl

/-- A header and a body that fits are a complete record. -/
theorem exists_record (id len p₀ p₁ : UInt8) (hfits : len.toNat ≤ rest.length) :
    ∃ r : TrailerRecord, id :: len :: p₀ :: p₁ :: rest = r.encode ++ rest.drop len.toNat := by
  have htake : (rest.take len.toNat).length = len.toNat := List.length_take_of_le hfits
  refine ⟨⟨id, p₀, p₁, rest.take len.toNat, htake.trans_lt len.toNat_lt⟩, ?_⟩
  simp only [TrailerRecord.encode, htake, UInt8.ofNat_toNat, List.cons_append, List.nil_append,
    List.take_append_drop]

theorem reportedCredits_truncated (eid : UInt8) (h : Truncated rest) :
    reportedCredits eid rest = 0 := by
  rw [reportedCredits.eq_def]
  split
  · next id len p₀ p₁ tl =>
    by_cases hshort : tl.length < len.toNat
    · rw [if_pos hshort]
    · obtain ⟨r, hr⟩ := exists_record id len p₀ p₁ (Nat.le_of_not_lt hshort)
      exact absurd hr (h r _)
  · rfl

theorem reportedCredits_records (eid : UInt8) (rs : List TrailerRecord) (h : Truncated rest) :
    reportedCredits eid (rs.flatMap TrailerRecord.encode ++ rest) = recordCredits eid rs := by
  induction rs with
  | nil => exact reportedCredits_truncated eid h
  | cons r rs ih =>
    rw [List.flatMap_cons, List.append_assoc, reportedCredits_record, ih]
    rfl

/-- Every trailer is some complete records and something in which no record starts. -/
theorem exists_records (trailer : List UInt8) :
    ∃ (rs : List TrailerRecord) (rest : List UInt8),
      trailer = rs.flatMap TrailerRecord.encode ++ rest ∧ Truncated rest := by
  induction hn : trailer.length using Nat.strongRecOn generalizing trailer with
  | ind n ih =>
    by_cases h : Truncated trailer
    · exact ⟨[], trailer, rfl, h⟩
    · simp only [Truncated, not_forall, not_not] at h
      obtain ⟨r, s, rfl⟩ := h
      have hlt : s.length < n := by
        rw [← hn, List.length_append, TrailerRecord.encode, List.length_append]
        exact Nat.lt_add_of_pos_left (Nat.add_pos_left (Nat.succ_pos _) _)
      obtain ⟨rs, rest, hs, hrest⟩ := ih s.length hlt s rfl
      refine ⟨r :: rs, rest, ?_, hrest⟩
      rw [List.flatMap_cons, List.append_assoc, ← hs]

theorem truncated_nil : Truncated [] := by
  intro r s h
  cases h

section Reads

variable {mem : Nat → UInt8}

theorem entries_asked (eid : UInt8) (body recLen i credits : Nat) :
    ∀ off ∈ (creditEntriesRead eid body recLen i credits).asked mem,
      body ≤ off ∧ off < body + recLen := by
  induction i, credits using creditEntriesRead.induct eid recLen with
  | case1 i credits hi ih =>
    have hrest := ih (mem (body + i)) (mem (body + i + 1))
    rw [dite_eq_ite] at hrest
    rw [creditEntriesRead, if_pos hi]
    simp only [Calls.bind_eq_bind, rxByte, Calls.make_bind, Calls.asked_call, List.forall_mem_cons]
    exact ⟨by omega, by omega, hrest⟩
  | case2 i credits hi =>
    rw [creditEntriesRead, if_neg hi]
    exact fun _ h => absurd h List.not_mem_nil

/-- The record loop asks for bytes of the trailer only. -/
theorem records_asked (eid : UInt8) (trailer n off credits : Nat) :
    ∀ at' ∈ (creditRecordsRead eid trailer n off credits).asked mem,
      trailer ≤ at' ∧ at' < trailer + n := by
  induction off, credits using creditRecordsRead.induct n with
  | case1 off credits hoff ih =>
    rw [creditRecordsRead, if_pos hoff]
    simp only [Calls.bind_eq_bind, Calls.pure_eq_ret, rxByte, Calls.make_bind, Calls.ret_bind,
      Calls.asked_call, List.forall_mem_cons]
    refine ⟨by omega, by omega, ?_⟩
    split
    · exact fun _ h => absurd h List.not_mem_nil
    next hfit =>
    split
    · rw [Calls.asked_bind, List.forall_mem_append]
      refine ⟨?_, ih _ hfit _⟩
      intro at' hat
      have hentry := entries_asked _ _ _ _ _ at' hat
      omega
    · exact ih _ hfit _
  | case2 off credits hoff =>
    rw [creditRecordsRead, if_neg hoff]
    exact fun _ h => absurd h List.not_mem_nil

theorem Htc.applyCreditReport_read (c : Htc) (h : Shows mem base trailer) :
    c.applyCreditReport trailer =
      some ((c.applyCreditReportRead base trailer.length).answer mem) := by
  rw [Htc.applyCreditReport, creditRecords_read h, Htc.applyCreditReportRead, Calls.bind_eq_bind,
    Calls.answer_bind]
  rfl

theorem Htc.applyCreditReport_asked (c : Htc) (base n : Nat) :
    ∀ off ∈ (c.applyCreditReportRead base n).asked mem, base ≤ off ∧ off < base + n := by
  rw [Htc.applyCreditReportRead, Calls.bind_eq_bind, Calls.asked_bind, List.forall_mem_append]
  exact ⟨records_asked _ _ _ _ _, fun _ h => absurd h List.not_mem_nil⟩

end Reads

theorem Htc.applyCreditReport_records (c : Htc) (rs : List TrailerRecord)
    (h : Truncated rest) (hc : c.fWmiCredits < 2 ^ 16) :
    c.applyCreditReport (rs.flatMap TrailerRecord.encode ++ rest) =
      some { c with fWmiCredits := (c.fWmiCredits + recordCredits c.fWmiEid rs) % 2 ^ 16 } := by
  rw [c.applyCreditReport_sum _ hc, reportedCredits_records _ rs h]

/-- The record loop in the 32-bit arithmetic of the source; out of `fuel` it has no result. -/
def creditRecords32 (eid : UInt8) (trailer : List UInt8) : Nat → UInt32 → Nat → Option Nat
  | 0, _, _ => none
  | fuel + 1, off, credits =>
    let trailerLen := UInt32.ofNat trailer.length
    if off + 2 ≤ trailerLen then do
      let recId ← trailer[off.toNat]?
      let recLen ← trailer[(off + 1).toNat]?
      let off := off + 4
      if trailerLen < off + recLen.toUInt32 then
        return credits
      let credits ←
        if recId = kHtcRecordCredits ∧ 4 ≤ recLen.toNat then
          creditEntries eid trailer off.toNat recLen.toNat 0 credits
        else some credits
      creditRecords32 eid trailer fuel (off + recLen.toUInt32) credits
    else some credits

theorem toNat_add_of_lt {a b : UInt32} (h : a.toNat + b.toNat < 2 ^ 32) :
    (a + b).toNat = a.toNat + b.toNat := by
  rw [UInt32.toNat_add, Nat.mod_eq_of_lt h]

/-- No offset wraps in a trailer behind which another record's reach still fits 32 bits. -/
theorem creditRecords32_eq (eid : UInt8) (trailer : List UInt8) (fuel : Nat) (off : UInt32)
    (c : Nat) (hlen : trailer.length + 259 < 2 ^ 32) (hoff : off.toNat ≤ trailer.length)
    (hfuel : trailer.length < off.toNat + fuel) :
    creditRecords32 eid trailer fuel off c = creditRecords eid trailer off.toNat c := by
  induction fuel generalizing off c with
  | zero => omega
  | succ fuel ih =>
    have htrailer : (UInt32.ofNat trailer.length).toNat = trailer.length :=
      UInt32.toNat_ofNat_of_lt' (Nat.lt_of_add_right_lt hlen)
    have hadd (n : UInt32) (hn : n.toNat ≤ 4) : (off + n).toNat = off.toNat + n.toNat :=
      toNat_add_of_lt (by omega)
    have hone : (off + 1).toNat = off.toNat + 1 := hadd 1 (by decide)
    have htwo : (off + 2).toNat = off.toNat + 2 := hadd 2 (by decide)
    have hfour : (off + 4).toNat = off.toNat + 4 := hadd 4 (by decide)
    by_cases hin : off.toNat + 2 ≤ trailer.length
    · have hin32 : off + 2 ≤ UInt32.ofNat trailer.length := by
        rw [UInt32.le_iff_toNat_le, htwo, htrailer]
        exact hin
      obtain ⟨recId, hid⟩ : ∃ recId, trailer[off.toNat]? = some recId :=
        ⟨_, List.getElem?_eq_getElem (by omega)⟩
      obtain ⟨recLen, hrec⟩ : ∃ recLen, trailer[off.toNat + 1]? = some recLen :=
        ⟨_, List.getElem?_eq_getElem (by omega)⟩
      have hreach : (off + 4 + recLen.toUInt32).toNat = off.toNat + 4 + recLen.toNat := by
        have hbyte := recLen.toNat_lt
        have hsum : (off + 4).toNat + recLen.toUInt32.toNat < 2 ^ 32 := by
          rw [hfour, UInt8.toNat_toUInt32]
          omega
        rw [toNat_add_of_lt hsum, hfour, UInt8.toNat_toUInt32]
      have hshort : UInt32.ofNat trailer.length < off + 4 + recLen.toUInt32 ↔
          trailer.length < off.toNat + 4 + recLen.toNat := by
        rw [UInt32.lt_iff_toNat_lt, htrailer, hreach]
      rw [creditRecords32, creditRecords, if_pos hin32, if_pos hin, hone, hid, hrec]
      simp only [Option.bind_eq_bind, Option.bind_some, Option.pure_def, hshort, hfour]
      split
      · rfl
      · next hfit =>
        have hnext (c : Nat) : creditRecords32 eid trailer fuel (off + 4 + recLen.toUInt32) c =
            creditRecords eid trailer (off.toNat + 4 + recLen.toNat) c := by
          rw [← hreach]
          apply ih
          · rw [hreach]
            exact Nat.le_of_not_lt hfit
          · rw [hreach]
            omega
        simp only [hnext]
    · have hout32 : ¬ off + 2 ≤ UInt32.ofNat trailer.length := by
        rw [UInt32.le_iff_toNat_le, htwo, htrailer]
        exact hin
      rw [creditRecords32, creditRecords, if_neg hout32, if_neg hin]

/-- A credit report adds what its complete records report up to the first truncated one, and reads
nothing outside its trailer. -/
theorem creditReport_exact (c : Htc) (credits : UInt16) :
    let h : Htc := { c with fWmiCredits := credits.toNat }
    (∀ rs : List TrailerRecord,
      h.applyCreditReport (rs.flatMap TrailerRecord.encode) =
        some { h with fWmiCredits := (h.fWmiCredits + recordCredits h.fWmiEid rs) % 2 ^ 16 }) ∧
    ∀ trailer : List UInt8,
      (∃ (rs : List TrailerRecord) (rest : List UInt8),
        trailer = rs.flatMap TrailerRecord.encode ++ rest ∧ Truncated rest ∧
        h.applyCreditReport trailer =
          some { h with fWmiCredits := (h.fWmiCredits + recordCredits h.fWmiEid rs) % 2 ^ 16 }) ∧
      ∀ (mem : Nat → UInt8) (base : Nat), Shows mem base trailer →
        h.applyCreditReport trailer =
          some ((h.applyCreditReportRead base trailer.length).answer mem) ∧
        ∀ off ∈ (h.applyCreditReportRead base trailer.length).asked mem,
          base ≤ off ∧ off < base + trailer.length := by
  intro h
  have hc : h.fWmiCredits < 2 ^ 16 := credits.toNat_lt
  refine ⟨?_, fun trailer => ⟨?_, ?_⟩⟩
  · intro rs
    have hall := h.applyCreditReport_records rs truncated_nil hc
    rwa [List.append_nil] at hall
  · obtain ⟨rs, rest, rfl, hrest⟩ := exists_records trailer
    exact ⟨rs, rest, rfl, hrest, h.applyCreditReport_records rs hrest hc⟩
  · intro mem base hshows
    exact ⟨h.applyCreditReport_read hshows, h.applyCreditReport_asked base trailer.length⟩

/-- A record of another kind and a credit record whose body ends inside an entry. -/
def sampleRecords : List TrailerRecord :=
  [⟨7, 0, 0, [9], by decide⟩, ⟨1, 0xaa, 0xbb, [2, 250, 0, 0, 1, 5, 0, 0, 1, 9], by decide⟩]

def fullCredits : Htc := { oneCredit with fWmiCredits := (0xffff : UInt16).toNat }

theorem creditReport_exact_sample :
    fullCredits.applyCreditReport (sampleRecords.flatMap TrailerRecord.encode) =
        some { fullCredits with fWmiCredits := 4 } ∧
      ∀ off ∈ (fullCredits.applyCreditReportRead 3 1).asked fun i => if i = 3 then 1 else 0,
        3 ≤ off ∧ off < 3 + 1 := by
  have hshows : Shows (fun i => if i = 3 then 1 else 0) 3 [1] := by
    intro i hi
    obtain rfl : i = 0 := Nat.lt_one_iff.1 hi
    rfl
  constructor
  · exact ((creditReport_exact oneCredit 0xffff).1 sampleRecords).trans rfl
  · exact (((creditReport_exact oneCredit 0xffff).2 [1]).2 _ 3 hshows).2

end Qca9377
