import Qca9377.Bytes

namespace Qca9377
open Bytes
set_option autoImplicit true

/-- The source's `(uint16_t)(p[0] | (p[1] << 8))`. -/
def rd16 (p₀ p₁ : UInt8) : Nat := p₀.toNat ||| p₁.toNat <<< 8

theorem rd16_eq (p₀ p₁ : UInt8) : rd16 p₀ p₁ = decodeLE [p₀, p₁] := by
  have h₀ : p₀.toNat < 2 ^ 8 := p₀.toNat_lt
  rw [rd16, Nat.or_comm, ← Nat.shiftLeft_add_eq_or_of_lt h₀, Nat.shiftLeft_eq]
  simp only [decodeLE]
  omega

/-- One record the iterator visits, with the offset of its payload. -/
structure TlvRec where
  tag : Nat
  off : Nat
  payload : List UInt8
  deriving DecidableEq, Repr

/-- The iteration of `tlvParse`, with what is done at each record as a parameter. -/
def tlvIter (visit : σ → TlvRec → σ) (off : Nat) (p : List UInt8) (s : σ) : Bool × σ :=
  match p with
  | [] => (true, s)
  | p₀ :: p₁ :: p₂ :: p₃ :: rest =>
    let tlvLen := rd16 p₀ p₁
    let tlvTag := rd16 p₂ p₃
    if rest.length < tlvLen then (false, s)
    else tlvIter visit (off + 4 + tlvLen) (rest.drop tlvLen)
      (visit s ⟨tlvTag, off + 4, rest.take tlvLen⟩)
  | _ => (false, s)
termination_by p.length
decreasing_by simp only [List.length_drop, List.length_cons]; omega

/-- `tlvParse`: the table entry of a tag is the last record that carries it. -/
def tlvParse (p : List UInt8) (tbLen : Nat) : Bool × (Nat → View) :=
  tlvIter (fun tb r => if r.tag < tbLen then Function.update tb r.tag ⟨some r.off, r.payload.length⟩
    else tb) 0 p fun _ => ⟨none, 0⟩

/-- The records visited, in order. -/
def tlvWalk (p : List UInt8) : Bool × List TlvRec :=
  tlvIter (fun recs r => recs ++ [r]) 0 p []

/-- One record as `wrTlvHdr` and the payload behind it lay it out. -/
def tlvHdr (len tag : Nat) : List UInt8 := encodeLE 2 len ++ encodeLE 2 tag

theorem tlvIter_record (visit : σ → TlvRec → σ) (off : Nat) (s : σ) (payload rest : List UInt8)
    (hlen : payload.length < 2 ^ 16) (htag : tag < 2 ^ 16) :
    tlvIter visit off (tlvHdr payload.length tag ++ (payload ++ rest)) s =
      tlvIter visit (off + 4 + payload.length) rest (visit s ⟨tag, off + 4, payload⟩) := by
  have hl := decodeLE_encodeLE_of_lt (w := 2) hlen
  have ht := decodeLE_encodeLE_of_lt (w := 2) htag
  simp only [encodeLE, ← rd16_eq] at hl ht
  simp only [tlvHdr, encodeLE, List.cons_append, List.nil_append]
  rw [tlvIter]
  simp only [hl, ht]
  rw [if_neg (by rw [List.length_append]; omega), List.drop_left, List.take_left]

def kTlvArrayStruct : Nat := 18
def kTlvInitCmd : Nat := 74
def kTlvResourceConfig : Nat := 75
def kWmiTlvCmdInit : Nat := 0x1
def kWmiCmdIdMask : Nat := 0x00FFFFFF

def wrLe32 (buf : List UInt8) (p v : Nat) : List UInt8 := poke buf p (encodeLE 4 v)

def wrTlvHdr (buf : List UInt8) (p len tag : Nat) : List UInt8 := poke buf p (tlvHdr len tag)

/-- There are six ABI words, so one has index 0. -/
instance abiWords_neZero : NeZero 6 := ⟨Nat.succ_ne_zero 5⟩

/-- The buffer `sendInit` fills and its final write position, for given ABI words and
resource-config words. -/
def initFrame (abi : Fin 6 → UInt32) (rsrcCfg : Fin 44 → UInt32) : List UInt8 × Nat :=
  let buf := List.replicate (4 + 8 + 28 + 8 + 176 + 8) 0
  let buf := wrLe32 buf 0 (kWmiTlvCmdInit &&& kWmiCmdIdMask)
  let p := 4
  let buf := wrTlvHdr buf p 28 kTlvInitCmd
  let buf := wrLe32 buf (p + 4) (abi 0).toNat
  let buf := wrLe32 buf (p + 8) (abi 1).toNat
  let buf := wrLe32 buf (p + 12) (abi 2).toNat
  let buf := wrLe32 buf (p + 16) (abi 3).toNat
  let buf := wrLe32 buf (p + 20) (abi 4).toNat
  let buf := wrLe32 buf (p + 24) (abi 5).toNat
  let buf := wrLe32 buf (p + 28) 0
  let p := p + 8 + 28
  let buf := wrTlvHdr buf p 176 kTlvResourceConfig
  let buf := pokeWords 4 buf (p + 4) (List.ofFn fun i => (rsrcCfg i).toNat)
  let p := p + 8 + 176
  let buf := wrTlvHdr buf p 0 kTlvArrayStruct
  (buf, p + 8)

def initWords (abi : Fin 6 → UInt32) : List Nat := (List.ofFn fun i => (abi i).toNat) ++ [0]

def cfgWords (rsrcCfg : Fin 44 → UInt32) : List Nat := List.ofFn fun i => (rsrcCfg i).toNat

theorem tlvHdr_length (len tag : Nat) : (tlvHdr len tag).length = 4 := by
  simp only [tlvHdr, List.length_append, encodeLE_length]

theorem wrTlvHdr_zeros (pre : List UInt8) (off k len tag : Nat) (hoff : off = pre.length) :
    wrTlvHdr (pre ++ List.replicate (k + 4) 0) off len tag =
      (pre ++ tlvHdr len tag) ++ List.replicate k 0 := by
  rw [wrTlvHdr, poke_zeros pre _ _ hoff, tlvHdr_length, Nat.add_sub_cancel]

/-- A header written four bytes past the last record leaves an empty record of tag zero. -/
theorem wrTlvHdr_gap (pre : List UInt8) (off k len tag : Nat) (hoff : off = pre.length + 4) :
    wrTlvHdr (pre ++ List.replicate (k + 8) 0) off len tag =
      (pre ++ tlvHdr 0 0 ++ tlvHdr len tag) ++ List.replicate k 0 := by
  have hsplit : List.replicate (k + 8) (0 : UInt8) = tlvHdr 0 0 ++ List.replicate (k + 4) 0 := by
    rw [show k + 8 = 4 + (k + 4) by omega, List.replicate_add]
    rfl
  rw [hsplit, ← List.append_assoc]
  apply wrTlvHdr_zeros
  rw [List.length_append, tlvHdr_length, hoff]

theorem pokeWords_zeros (pre : List UInt8) (off k : Nat) (ns : List Nat) (hoff : off = pre.length)
    (hk : m = k + 4 * ns.length) : pokeWords 4 (pre ++ List.replicate m 0) off ns =
      (pre ++ encodeWords 4 ns) ++ List.replicate k 0 := by
  rw [pokeWords_append pre _ ns hoff, List.drop_replicate, hk, Nat.add_sub_cancel]

theorem initWords_length (abi : Fin 6 → UInt32) : (initWords abi).length = 7 := by
  simp only [initWords, List.length_append, List.length_ofFn, List.length_cons, List.length_nil]

theorem cfgWords_length (rsrcCfg : Fin 44 → UInt32) : (cfgWords rsrcCfg).length = 44 :=
  List.length_ofFn

/-- The writer leaves four zero bytes behind each record it writes. -/
theorem initFrame_bytes (abi : Fin 6 → UInt32) (rsrcCfg : Fin 44 → UInt32) :
    (initFrame abi rsrcCfg).1 = encodeLE 4 kWmiTlvCmdInit ++
      (tlvHdr 28 kTlvInitCmd ++ (encodeWords 4 (initWords abi) ++ (tlvHdr 0 0 ++
        (tlvHdr 176 kTlvResourceConfig ++ (encodeWords 4 (cfgWords rsrcCfg) ++ (tlvHdr 0 0 ++
          (tlvHdr 0 kTlvArrayStruct ++ tlvHdr 0 0))))))) := by
  have habi (buf : List UInt8) : wrLe32 (wrLe32 (wrLe32 (wrLe32 (wrLe32 (wrLe32 (wrLe32 buf
      8 (abi 0).toNat) 12 (abi 1).toNat) 16 (abi 2).toNat) 20 (abi 3).toNat) 24 (abi 4).toNat)
      28 (abi 5).toNat) 32 0 = pokeWords 4 buf 8 (initWords abi) := rfl
  have hn := initWords_length abi
  have hm := cfgWords_length rsrcCfg
  have hcmd : wrLe32 (List.replicate 232 0) 0 (kWmiTlvCmdInit &&& kWmiCmdIdMask) =
      encodeLE 4 kWmiTlvCmdInit ++ List.replicate 228 0 :=
    poke_zeros [] (encodeLE 4 kWmiTlvCmdInit) 232 rfl
  simp only [initFrame, Nat.reduceAdd, habi, hcmd]
  rw [wrTlvHdr_zeros _ 4 224 28 _ (by simp only [encodeLE_length]),
    pokeWords_zeros _ 8 196 _ (by simp only [List.length_append, encodeLE_length, tlvHdr_length])
      (by rw [hn]),
    wrTlvHdr_gap _ 40 188 176 _ (by
      simp only [List.length_append, encodeLE_length, tlvHdr_length, encodeWords_length, hn]),
    ← cfgWords, pokeWords_zeros _ 44 12 _ (by
      simp only [List.length_append, encodeLE_length, tlvHdr_length, encodeWords_length, hn])
      (by rw [hm]),
    wrTlvHdr_gap _ 224 4 0 _ (by
      simp only [List.length_append, encodeLE_length, tlvHdr_length, encodeWords_length, hn, hm])]
  simp only [List.append_assoc]
  rfl

/-- What the reader walks: an empty record of tag zero follows each of the three records. -/
theorem tlvWalk_initFrame (abi : Fin 6 → UInt32) (rsrcCfg : Fin 44 → UInt32) :
    tlvWalk ((initFrame abi rsrcCfg).1.drop 4) = (true,
      [⟨kTlvInitCmd, 4, encodeWords 4 (initWords abi)⟩, ⟨0, 36, []⟩,
        ⟨kTlvResourceConfig, 40, encodeWords 4 (cfgWords rsrcCfg)⟩, ⟨0, 220, []⟩,
        ⟨kTlvArrayStruct, 224, []⟩, ⟨0, 228, []⟩]) := by
  have hn : (encodeWords 4 (initWords abi)).length = 28 := by
    rw [encodeWords_length, initWords_length]
  have hm : (encodeWords 4 (cfgWords rsrcCfg)).length = 176 := by
    rw [encodeWords_length, cfgWords_length]
  have hempty (visit : List TlvRec → TlvRec → List TlvRec) (off tag : Nat) (rest : List UInt8)
      (recs : List TlvRec) (htag : tag < 2 ^ 16) :
      tlvIter visit off (tlvHdr 0 tag ++ rest) recs =
        tlvIter visit (off + 4) rest (visit recs ⟨tag, off + 4, []⟩) :=
    tlvIter_record visit off recs [] rest (by decide) htag
  rw [initFrame_bytes, List.drop_left' (encodeLE_length 4 _), tlvWalk, ← hn,
    tlvIter_record _ _ _ _ _ (by rw [hn]; decide) (by decide), hempty _ _ _ _ _ (by decide), ← hm,
    tlvIter_record _ _ _ _ _ (by rw [hm]; decide) (by decide), hempty _ _ _ _ _ (by decide),
    hempty _ _ _ _ _ (by decide), ← List.append_nil (tlvHdr 0 0), hempty _ _ _ _ _ (by decide),
    tlvIter, hn, hm]
  rfl

/-- The layout both sides are meant to agree on. -/
def InitLayout (abi : Fin 6 → UInt32) (rsrcCfg : Fin 44 → UInt32) : Prop :=
  ∃ initCmd resourceConfig : List UInt8,
    (tlvWalk ((initFrame abi rsrcCfg).1.drop 4)).1 = true ∧
    (tlvWalk ((initFrame abi rsrcCfg).1.drop 4)).2.map (fun r => (r.tag, r.payload)) =
      [(kTlvInitCmd, initCmd), (kTlvResourceConfig, resourceConfig), (kTlvArrayStruct, [])] ∧
    initCmd.length = 28 ∧ resourceConfig.length = 176 ∧
    decodeWords 4 7 initCmd = initWords abi ∧
    decodeWords 4 44 resourceConfig = cfgWords rsrcCfg

/-- No choice of words gives the three records alone. -/
theorem not_initLayout (abi : Fin 6 → UInt32) (rsrcCfg : Fin 44 → UInt32) :
    ¬ InitLayout abi rsrcCfg := by
  rintro ⟨initCmd, resourceConfig, -, hrecs, -⟩
  have hlen := congrArg List.length hrecs
  rw [tlvWalk_initFrame] at hlen
  simp only [List.map_cons, List.map_nil, List.length_cons, List.length_nil, Nat.reduceAdd,
    Nat.reduceEqDiff] at hlen

def kAbiWords : Fin 6 → UInt32 :=
  ![0x01000000, 53, 0x5F414351, 0x00004C4D, 0x00000000, 0x00000000]

def kRsrcCfg : Fin 44 → UInt32 :=
  ![4, 33, 0, 0, 2, 66, 0x10, 0x7, 0x7, 0x64, 0x64, 0x64, 0x28, 1, 4, 4, 4, 8, 0, 0, 0, 0x400,
    0x20, 0, 0, 0, 0, 2, 1056, 2, 1, 0x20, 2, 5, 22, 6, 0, 1, 1, 0, 0, 0, 0, 0x200]

theorem not_initLayout_constants : ¬ InitLayout kAbiWords kRsrcCfg := by
  rintro ⟨initCmd, resourceConfig, -, hrecs, -⟩
  rw [tlvWalk_initFrame] at hrecs
  cases hrecs

end Qca9377
