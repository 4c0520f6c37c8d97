import Qca9377.Wmi

namespace Qca9377
open Bytes
set_option autoImplicit true

/-- One record of a stream: its tag and the bytes it carries. -/
structure TlvRecord where
  tag : UInt16
  payload : List UInt8
  payload_lt : payload.length < 2 ^ 16

def TlvRecord.encode (r : TlvRecord) : List UInt8 :=
  tlvHdr r.payload.length r.tag.toNat ++ r.payload

def encodeRecords (rs : List TlvRecord) : List UInt8 := rs.flatMap TlvRecord.encode

/-- The records as the iterator visits them, the first of them at offset `off`. -/
def placed : Nat → List TlvRecord → List TlvRec
  | _, [] => []
  | off, r :: rs => ⟨r.tag.toNat, off + 4, r.payload⟩ :: placed (off + 4 + r.payload.length) rs

theorem TlvRecord.encode_length (r : TlvRecord) : r.encode.length = 4 + r.payload.length := by
  rw [encode, List.length_append, tlvHdr_length]

theorem encodeRecords_cons (r : TlvRecord) (rs : List TlvRecord) :
    encodeRecords (r :: rs) = r.encode ++ encodeRecords rs := rfl

theorem tlvIter_records (visit : σ → TlvRec → σ) (rs : List TlvRecord) (off : Nat) (s : σ) :
    tlvIter visit off (encodeRecords rs) s = (true, (placed off rs).foldl visit s) := by
  induction rs generalizing off s with
  | nil =>
    rw [encodeRecords, List.flatMap_nil, tlvIter]
    rfl
  | cons r rs ih =>
    rw [encodeRecords_cons, TlvRecord.encode, List.append_assoc,
      tlvIter_record visit off s r.payload _ r.payload_lt r.tag.toNat_lt, ih]
    rfl

theorem encodeLE_rd16 (p₀ p₁ : UInt8) : encodeLE 2 (rd16 p₀ p₁) = [p₀, p₁] := by
  rw [rd16_eq]
  exact encodeLE_decodeLE [p₀, p₁]

theorem rd16_lt (p₀ p₁ : UInt8) : rd16 p₀ p₁ < 2 ^ 16 := by
  have h₀ : p₀.toNat < 256 := p₀.toNat_lt
  have h₁ : p₁.toNat < 256 := p₁.toNat_lt
  rw [rd16_eq]
  simp only [decodeLE]
  omega

/-- The record that a header and enough bytes behind it stand for. -/
def TlvRecord.read (p₀ p₁ p₂ p₃ : UInt8) (rest : List UInt8) : TlvRecord where
  tag := UInt16.ofNat (rd16 p₂ p₃)
  payload := rest.take (rd16 p₀ p₁)
  payload_lt := by
    rw [List.length_take]
    exact (Nat.min_le_left _ _).trans_lt (rd16_lt p₀ p₁)

theorem TlvRecord.read_encode (p₀ p₁ p₂ p₃ : UInt8) (rest : List UInt8)
    (h : rd16 p₀ p₁ ≤ rest.length) :
    (TlvRecord.read p₀ p₁ p₂ p₃ rest).encode = p₀ :: p₁ :: p₂ :: p₃ :: rest.take (rd16 p₀ p₁) := by
  have hof : (UInt16.ofNat (rd16 p₂ p₃)).toNat = rd16 p₂ p₃ := by
    rw [UInt16.toNat_ofNat']
    exact Nat.mod_eq_of_lt (rd16_lt p₂ p₃)
  simp only [encode, read, List.length_take, min_eq_left h, tlvHdr, hof, encodeLE_rd16,
    List.cons_append, List.nil_append]

/-- Only concatenations of records are walked to the end. -/
theorem tlvIter_accepts (visit : σ → TlvRec → σ) (off : Nat) (p : List UInt8) (s : σ)
    (h : (tlvIter visit off p s).1 = true) : ∃ rs, p = encodeRecords rs := by
  induction off, p, s using tlvIter.induct visit with
  | case1 => exact ⟨[], rfl⟩
  | case2 off s p₀ p₁ p₂ p₃ rest tlvLen hlt =>
    rw [tlvIter, if_pos hlt] at h
    cases h
  | case3 off s p₀ p₁ p₂ p₃ rest tlvLen tlvTag hlt ih =>
    rw [tlvIter, if_neg hlt] at h
    obtain ⟨rs, hrs⟩ := ih h
    refine ⟨TlvRecord.read p₀ p₁ p₂ p₃ rest :: rs, ?_⟩
    rw [encodeRecords_cons, TlvRecord.read_encode _ _ _ _ _ (not_lt.1 hlt), ← hrs]
    simp only [List.cons_append, tlvLen, List.take_append_drop]
  | case4 off p s hnil hcons =>
    rw [tlvIter.eq_def] at h
    split at h
    · exact absurd rfl hnil
    · exact absurd rfl (hcons _ _ _ _ _)
    · cases h

/-- What every visit inside the stream keeps holds in the end, also of a malformed stream. -/
theorem tlvIter_keeps {visit : σ → TlvRec → σ} {I : σ → Prop} {N : Nat} (off : Nat)
    (p : List UInt8) (s : σ)
    (hvisit : ∀ s r, I s → r.off + r.payload.length ≤ N → I (visit s r)) (hs : I s)
    (hp : off + p.length ≤ N) : I (tlvIter visit off p s).2 := by
  induction off, p, s using tlvIter.induct visit with
  | case1 =>
    rw [tlvIter]
    exact hs
  | case2 off s p₀ p₁ p₂ p₃ rest tlvLen hlt =>
    rw [tlvIter, if_pos hlt]
    exact hs
  | case3 off s p₀ p₁ p₂ p₃ rest tlvLen tlvTag hlt ih =>
    rw [tlvIter, if_neg hlt]
    simp only [List.length_cons] at hp
    apply ih
    · apply hvisit _ _ hs
      simp only [List.length_take]
      omega
    · rw [List.length_drop]
      omega
  | case4 off p s hnil hcons =>
    rw [tlvIter.eq_def]
    split
    · exact absurd rfl hnil
    · exact absurd rfl (hcons _ _ _ _ _)
    · exact hs

def tbStep (tbLen : Nat) (tb : Nat → View) (r : TlvRec) : Nat → View :=
  if r.tag < tbLen then Function.update tb r.tag ⟨some r.off, r.payload.length⟩ else tb

theorem tlvParse_eq (p : List UInt8) (tbLen : Nat) :
    tlvParse p tbLen = tlvIter (tbStep tbLen) 0 p fun _ => ⟨none, 0⟩ := rfl

theorem tbStep_own (tb : Nat → View) (h : r.tag < tbLen) :
    tbStep tbLen tb r r.tag = ⟨some r.off, r.payload.length⟩ := by
  rw [tbStep, if_pos h, Function.update_self]

theorem tbStep_other (tb : Nat → View) (h : r.tag = tag → tbLen ≤ tag) :
    tbStep tbLen tb r tag = tb tag := by
  rw [tbStep]
  split
  · next hlt =>
    apply Function.update_of_ne
    rintro rfl
    exact absurd hlt (not_lt.2 (h rfl))
  · rfl

theorem foldl_tbStep_other (recs : List TlvRec) (tb : Nat → View)
    (h : ∀ r ∈ recs, r.tag = tag → tbLen ≤ tag) : recs.foldl (tbStep tbLen) tb tag = tb tag := by
  induction recs generalizing tb with
  | nil => rfl
  | cons r recs ih =>
    rw [List.foldl_cons, ih _ fun q hq => h q (List.mem_cons_of_mem r hq)]
    exact tbStep_other tb (h r List.mem_cons_self)

/-- Every slice of a table lies inside a stream of `N` bytes. -/
def TableInside (N : Nat) (tb : Nat → View) : Prop := ∀ tag, (tb tag).Inside N

theorem tlvParse_inside (p : List UInt8) (tbLen : Nat) :
    TableInside p.length (tlvParse p tbLen).2 := by
  rw [tlvParse_eq]
  apply tlvIter_keeps
  · intro tb r htb hr tag off hoff
    by_cases hown : r.tag = tag → tbLen ≤ tag
    · rw [tbStep_other tb hown] at hoff ⊢
      exact htb tag off hoff
    · obtain ⟨rfl, hlt⟩ := Classical.not_imp.1 hown
      rw [tbStep_own tb (not_le.1 hlt)] at hoff ⊢
      obtain rfl := Option.some.inj hoff
      exact hr
  · exact nofun
  · rw [Nat.zero_add]

theorem placed_append (off : Nat) (rs ss : List TlvRecord) :
    placed off (rs ++ ss) = placed off rs ++ placed (off + (encodeRecords rs).length) ss := by
  induction rs generalizing off with
  | nil => rfl
  | cons r rs ih =>
    have hlen : off + 4 + r.payload.length + (encodeRecords rs).length =
        off + (encodeRecords (r :: rs)).length := by
      rw [encodeRecords_cons, List.length_append, r.encode_length]
      omega
    rw [List.cons_append, placed, ih, hlen]
    rfl

theorem placed_tag (h : q ∈ placed off rs) : ∃ r ∈ rs, q.tag = r.tag.toNat := by
  induction rs generalizing off with
  | nil => cases h
  | cons r rs ih =>
    cases h with
    | head => exact ⟨r, List.mem_cons_self, rfl⟩
    | tail _ h =>
      obtain ⟨s, hs, htag⟩ := ih h
      exact ⟨s, List.mem_cons_of_mem r hs, htag⟩

/-- What the table is for a stream of records: for a tag it has room for, the last record with
that tag; nothing else. -/
structure TableOf (rs : List TlvRecord) (tbLen : Nat) (tb : Nat → View) : Prop where
  last : ∀ before r after, rs = before ++ r :: after → r.tag.toNat < tbLen →
    (∀ s ∈ after, s.tag ≠ r.tag) →
      tb r.tag.toNat = ⟨some ((encodeRecords before).length + 4), r.payload.length⟩
  absent : ∀ tag, tag < tbLen → (∀ r ∈ rs, r.tag.toNat ≠ tag) → tb tag = ⟨none, 0⟩
  beyond : ∀ tag, tbLen ≤ tag → tb tag = ⟨none, 0⟩

theorem tlvParse_records (rs : List TlvRecord) (tbLen : Nat) :
    (tlvParse (encodeRecords rs) tbLen).1 = true ∧
      TableOf rs tbLen (tlvParse (encodeRecords rs) tbLen).2 := by
  rw [tlvParse_eq, tlvIter_records]
  refine ⟨rfl, ?_, ?_, ?_⟩
  · intro before r after hrs hlt hafter
    subst hrs
    rw [placed_append, List.foldl_append, placed, List.foldl_cons, Nat.zero_add]
    apply (foldl_tbStep_other _ _ _).trans (tbStep_own _ hlt)
    intro q hq htag
    obtain ⟨s, hs, hqs⟩ := placed_tag hq
    exact absurd (UInt16.toNat.inj (hqs.symm.trans htag)) (hafter s hs)
  · intro tag _ hnone
    apply foldl_tbStep_other
    intro q hq htag
    obtain ⟨r, hr, hqr⟩ := placed_tag hq
    exact absurd (hqr.symm.trans htag) (hnone r hr)
  · intro tag hbeyond
    exact foldl_tbStep_other _ _ fun _ _ _ => hbeyond

theorem tlvParse_accepts (p : List UInt8) (tbLen : Nat) :
    (tlvParse p tbLen).1 = true ↔ ∃ rs, p = encodeRecords rs := by
  constructor
  · exact tlvIter_accepts _ 0 p _
  · rintro ⟨rs, rfl⟩
    exact (tlvParse_records rs tbLen).1

theorem rd32_isSome (h : off + 4 ≤ p.length) : ∃ n, rd32 p off = some n := by
  apply Option.isSome_iff_exists.1
  rw [rd32, Option.isSome_map]
  exact slice_isSome h

theorem rdAbi_isSome (h : off + 24 ≤ p.length) : ∃ abi, rdAbi p off = some abi := by
  have hfirst : ∃ n, rd32 p off = some n := rd32_isSome (by omega)
  obtain ⟨n₀, h₀⟩ := hfirst
  have hword (k : Nat) (hk : k ≤ 20) : ∃ n, rd32 p (off + k) = some n :=
    rd32_isSome (by omega)
  obtain ⟨n₁, h₁⟩ := hword 4 (by decide)
  obtain ⟨n₂, h₂⟩ := hword 8 (by decide)
  obtain ⟨n₃, h₃⟩ := hword 12 (by decide)
  obtain ⟨n₄, h₄⟩ := hword 16 (by decide)
  obtain ⟨n₅, h₅⟩ := hword 20 (by decide)
  rw [rdAbi, h₀, h₁, h₂, h₃, h₄, h₅]
  exact ⟨_, rfl⟩

theorem mapM_isSome {f : α → Option β} {l : List α} (h : ∀ a ∈ l, ∃ b, f a = some b) :
    ∃ bs, l.mapM f = some bs := by
  induction l with
  | nil => exact ⟨[], rfl⟩
  | cons a l ih =>
    obtain ⟨b, hb⟩ := h a List.mem_cons_self
    obtain ⟨bs, hbs⟩ := ih fun x hx => h x (List.mem_cons_of_mem a hx)
    exact ⟨b :: bs, by rw [List.mapM_cons, hb, hbs]; rfl⟩

/-- The dump reads whole words only, so it stops inside the bitmap. -/
theorem dumpBitmap_isSome (h : bmap + bmapLen ≤ p.length) (hlen : bmapLen &&& 3 = 0) :
    ∃ words, dumpBitmap p bmap bmapLen = some words := by
  apply mapM_isSome
  intro i hi
  have hlt := of_decide_eq_true (List.all_eq_true.1 List.all_takeWhile i hi)
  obtain ⟨k, -, rfl⟩ := List.mem_map.1 (List.takeWhile_subset _ hi)
  have hmod : bmapLen % 4 = 0 := (Nat.and_two_pow_sub_one_eq_mod bmapLen 2).symm.trans hlen
  apply rd32_isSome
  omega

theorem parseServiceReady_isSome (w : Wmi) (p : List UInt8) :
    ∃ r, w.parseServiceReady p = some r := by
  have hin := tlvParse_inside p kTlvMaxTag
  unfold Wmi.parseServiceReady
  generalize tlvParse p kTlvMaxTag = t at hin
  obtain ⟨ok, tb⟩ := t
  dsimp only at hin ⊢
  cases ok with
  | false => exact ⟨_, rfl⟩
  | true =>
    cases hev : (tb kTlvSvcReadyEvent).ptr with
    | none => exact ⟨_, rfl⟩
    | some ev =>
      have hroom := hin _ _ hev
      simp only [Bool.not_true, Bool.false_eq_true, if_false]
      split
      · exact ⟨_, rfl⟩
      · next hlen =>
        have hword (k : Nat) (hk : k ≤ 72) : ∃ n, rd32 p (ev + k) = some n :=
          rd32_isSome (by omega)
        have habi : ∃ abi, rdAbi p (ev + 4) = some abi := rdAbi_isSome (by omega)
        obtain ⟨build, h₀⟩ := hword 0 (by decide)
        obtain ⟨abi, h₁⟩ := habi
        obtain ⟨phy, h₂⟩ := hword 28 (by decide)
        obtain ⟨chains, h₃⟩ := hword 36 (by decide)
        obtain ⟨reqs, h₄⟩ := hword 72 (by decide)
        rw [Nat.add_zero] at h₀
        simp only [Option.bind_eq_bind, h₀, h₁, h₂, h₃, h₄, Option.bind_some]
        cases hbmap : (tb kTlvArrayUInt32).ptr with
        | none => exact ⟨_, rfl⟩
        | some bmap =>
          dsimp only
          split
          · exact ⟨_, rfl⟩
          · next hbad =>
            obtain ⟨-, hwords⟩ := not_or.1 hbad
            obtain ⟨words, hdump⟩ := dumpBitmap_isSome (hin _ _ hbmap) (not_not.1 hwords)
            rw [hdump]
            exact ⟨_, rfl⟩

theorem parseReady_isSome (w : Wmi) (p : List UInt8) : ∃ r, w.parseReady p = some r := by
  have hin := tlvParse_inside p kTlvMaxTag
  unfold Wmi.parseReady
  generalize tlvParse p kTlvMaxTag = t at hin
  obtain ⟨ok, tb⟩ := t
  dsimp only at hin ⊢
  cases ok with
  | false => exact ⟨_, rfl⟩
  | true =>
    cases hev : (tb kTlvReadyEvent).ptr with
    | none => exact ⟨_, rfl⟩
    | some ev =>
      have hroom := hin _ _ hev
      simp only [Bool.not_true, Bool.false_eq_true, if_false]
      split
      · exact ⟨_, rfl⟩
      · next hlen =>
        have habi : ∃ abi, rdAbi p ev = some abi := rdAbi_isSome (by omega)
        have hmac : ev + 24 + 6 ≤ p.length := by omega
        have hstatus : ∃ n, rd32 p (ev + 32) = some n := rd32_isSome (by omega)
        obtain ⟨abi, h₀⟩ := habi
        obtain ⟨mac, h₁⟩ := Option.isSome_iff_exists.1 (slice_isSome hmac)
        obtain ⟨status, h₂⟩ := hstatus
        simp only [Option.bind_eq_bind, h₀, h₁, h₂, Option.bind_some]
        exact ⟨_, rfl⟩

/-- The parser accepts exactly the concatenations of records and tabulates the last record of each
tag; whatever the stream, its slices and the reads of both event decoders lie inside. -/
theorem tlvParse_grammar (p : List UInt8) (tbLen : Nat) :
    ((tlvParse p tbLen).1 = true ↔ ∃ rs, p = encodeRecords rs) ∧
      (∀ rs, p = encodeRecords rs → TableOf rs tbLen (tlvParse p tbLen).2) ∧
      TableInside p.length (tlvParse p tbLen).2 ∧
      (∀ w : Wmi, ∃ r, w.parseServiceReady p = some r) ∧
      ∀ w : Wmi, ∃ r, w.parseReady p = some r := by
  refine ⟨tlvParse_accepts p tbLen, ?_, tlvParse_inside p tbLen,
    fun w => parseServiceReady_isSome w p, fun w => parseReady_isSome w p⟩
  rintro rs rfl
  exact (tlvParse_records rs tbLen).2

end Qca9377
