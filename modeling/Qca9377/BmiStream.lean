import Qca9377.BmiMemory

namespace Qca9377
open Bytes Interleaving
set_option autoImplicit true

/-- The payloads of data commands that carry an image: all of its bytes in order, then the fewest
zeros that complete a word, each command a positive number of words. -/
structure LzImage (buf : List UInt8) (data : List (List UInt8)) : Prop where
  bytes : ∃ k, IsLeast {k | 4 ∣ buf.length + k} k ∧ data.flatten = buf ++ List.replicate k 0
  words : ∀ x ∈ data, 0 < x.length ∧ 4 ∣ x.length ∧
    decodeLE (((Bmi.lzData x).drop 4).take 4) = x.length
  fits : ∀ addr, ∀ f ∈ Bmi.lzStream addr data, f.length ≤ kBmiMaxDataSize

structure LzDone (addr : Nat) (buf : List UInt8) (calls : List (List UInt8 × Bool))
    (ok : Bool) : Prop where
  image : LzImage buf (Bmi.lzPayloads buf)
  sent : ok = true → calls = (Bmi.lzStream addr (Bmi.lzPayloads buf)).map (·, true)
  failed : ok = false → acknowledged calls <+: Bmi.lzStream addr (Bmi.lzPayloads buf) ∧
    acknowledged calls ≠ Bmi.lzStream addr (Bmi.lzPayloads buf)

theorem wordPad_least (n : Nat) : IsLeast {k | 4 ∣ n + k} (Bmi.wordPad n) := by
  constructor
  · have hword : n + Bmi.wordPad n = (n + 3) / 4 * 4 := by
      rw [Bmi.wordPad]
      omega
    rw [Set.mem_ofPred_eq, hword]
    exact Nat.dvd_mul_left 4 _
  · intro k hk
    have hmod := Nat.mod_eq_zero_of_dvd hk
    rw [Bmi.wordPad]
    omega

theorem lzData_len (hx : x.length < 2 ^ 32) :
    decodeLE (((Bmi.lzData x).drop 4).take 4) = x.length ∧
      (Bmi.lzData x).length = 8 + x.length := by
  have hcmd : Bmi.lzData x = encodeLE 4 kBmiLzData ++ (encodeLE 4 x.length ++ x) := by
    simp only [Bmi.lzData, bmiCmd, encodeWords, List.flatMap_cons, List.flatMap_nil,
      List.append_nil, List.append_assoc]
  constructor
  · rw [hcmd, List.drop_left' (encodeLE_length 4 _), List.take_left' (encodeLE_length 4 _),
      decodeLE_encodeLE_of_lt hx]
  · rw [hcmd, List.length_append, List.length_append, encodeLE_length, encodeLE_length,
      ← Nat.add_assoc]

theorem lzPayloads_flatten (buf : List UInt8) :
    (Bmi.lzPayloads buf).flatten = buf ++ List.replicate (Bmi.wordPad buf.length) 0 := by
  have hcap : 0 < kBmiMaxDataSize - 8 := by decide
  rw [Bmi.lzPayloads, List.flatten_append, flatten_pieces hcap]
  split
  · next hword =>
    have hzero : Bmi.wordPad buf.length = 0 := by rw [Bmi.wordPad, hword]
    rw [hword, hzero, Nat.sub_zero, List.take_length]
    rfl
  · next hword =>
    have hpad : Bmi.wordPad buf.length = 4 - buf.length % 4 := by
      rw [Bmi.wordPad]
      omega
    rw [hpad, List.flatten_singleton, ← List.append_assoc, List.take_append_drop]

theorem mem_lzPayloads (hx : x ∈ Bmi.lzPayloads buf) :
    0 < x.length ∧ 4 ∣ x.length ∧ x.length ≤ kBmiMaxDataSize - 8 := by
  have hmod := Nat.mod_le buf.length 4
  rcases List.mem_append.1 hx with hx | hx
  · obtain ⟨hne, hle, hw⟩ := mem_pieces hx
    refine ⟨List.length_pos_iff.2 hne, hw 4 (by decide) ?_, hle⟩
    rw [List.length_take_of_le (Nat.sub_le _ _)]
    exact Nat.dvd_sub_mod buf.length
  · split at hx
    · exact absurd hx List.not_mem_nil
    · obtain rfl := List.mem_singleton.1 hx
      have hfour : (buf.drop (buf.length - buf.length % 4) ++
          List.replicate (4 - buf.length % 4) (0 : UInt8)).length = 4 := by
        rw [List.length_append, List.length_drop, List.length_replicate]
        omega
      rw [hfour]
      exact ⟨by decide, Nat.dvd_refl 4, by decide⟩

theorem lzPayloads_image (buf : List UInt8) : LzImage buf (Bmi.lzPayloads buf) := by
  refine ⟨⟨_, wordPad_least buf.length, lzPayloads_flatten buf⟩, ?_, ?_⟩
  · intro x hx
    obtain ⟨hpos, hw, hle⟩ := mem_lzPayloads hx
    exact ⟨hpos, hw, (lzData_len (hle.trans_lt (by decide))).1⟩
  · intro addr f hf
    rcases List.mem_cons.1 hf with rfl | hf
    · exact Nat.le_of_lt (by decide : 8 < kBmiMaxDataSize)
    rcases List.mem_append.1 hf with hf | hf
    · obtain ⟨x, hx, rfl⟩ := List.mem_map.1 hf
      obtain ⟨-, -, hle⟩ := mem_lzPayloads hx
      rw [(lzData_len (hle.trans_lt (by decide))).2]
      exact Nat.add_le_of_le_sub' (by decide) hle
    · obtain rfl := List.mem_singleton.1 hf
      decide

end Qca9377
