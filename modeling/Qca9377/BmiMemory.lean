import Qca9377.BmiSends
import Qca9377.Posting

namespace Qca9377
open Bytes Interleaving
set_option autoImplicit true

def cmdLen (f : List UInt8) : Nat := decodeLE ((f.drop 8).take 4)

/-- The target applies a write command to its memory. -/
def applyFrame (mem : Nat → UInt8) (f : List UInt8) : Nat → UInt8 :=
  if cmdId f = kBmiWriteMemory then
    store mem (decodeLE ((f.drop 4).take 4)) ((f.drop 12).take (cmdLen f))
  else mem

/-- The frames for which `send` returned true. -/
def acknowledged (calls : List (List UInt8 × Bool)) : List (List UInt8) :=
  (calls.filter Prod.snd).map Prod.fst

def applied (mem : Nat → UInt8) (calls : List (List UInt8 × Bool)) : Nat → UInt8 :=
  (acknowledged calls).foldl applyFrame mem

/-- What the sends of `writeMemory` do to the memory of the target. -/
structure WriteDone (addr : Nat) (buf : List UInt8) (calls : List (List UInt8 × Bool))
    (ok : Bool) : Prop where
  frames : ∀ c ∈ calls, c.1.length ≤ kBmiMaxDataSize ∧ 4 ∣ cmdLen c.1
  stored : ok = true → ∀ mem i (h : i < buf.length), applied mem calls (addr + i) = buf[i]
  untouched : ok = true → ∀ mem a, a < addr ∨ addr + (buf.length + 3) / 4 * 4 ≤ a →
    applied mem calls a = mem a
  failed : ok = false → ∃ k, 244 * k < buf.length ∧
    calls.map Prod.snd = List.replicate k true ++ [false] ∧
    ∀ mem, applied mem calls = store mem addr (buf.take (244 * k))

theorem drop_write (addr : Nat) (x : List UInt8) :
    (bmiCmd kBmiWriteMemory [addr, x.length] ++ x).drop 4 =
        encodeLE 4 addr ++ (encodeLE 4 x.length ++ x) ∧
      (bmiCmd kBmiWriteMemory [addr, x.length] ++ x).drop 8 = encodeLE 4 x.length ++ x ∧
      (bmiCmd kBmiWriteMemory [addr, x.length] ++ x).drop 12 = x := by
  have hcmd : bmiCmd kBmiWriteMemory [addr, x.length] ++ x =
      encodeLE 4 kBmiWriteMemory ++ (encodeLE 4 addr ++ (encodeLE 4 x.length ++ x)) := by
    simp only [bmiCmd, encodeWords, List.flatMap_cons, List.flatMap_nil, List.append_nil,
      List.append_assoc]
  have h4 : (bmiCmd kBmiWriteMemory [addr, x.length] ++ x).drop 4 =
      encodeLE 4 addr ++ (encodeLE 4 x.length ++ x) := by
    rw [hcmd]
    exact List.drop_left' (encodeLE_length 4 _)
  have h8 : (bmiCmd kBmiWriteMemory [addr, x.length] ++ x).drop 8 = encodeLE 4 x.length ++ x := by
    rw [← List.drop_drop (i := 4) (j := 4), h4]
    exact List.drop_left' (encodeLE_length 4 _)
  refine ⟨h4, h8, ?_⟩
  rw [← List.drop_drop (i := 4) (j := 8), h8]
  exact List.drop_left' (encodeLE_length 4 _)

theorem cmdLen_write (addr : Nat) (hx : x.length < 2 ^ 32) :
    cmdLen (bmiCmd kBmiWriteMemory [addr, x.length] ++ x) = x.length := by
  rw [cmdLen, (drop_write addr x).2.1, List.take_left' (encodeLE_length 4 _),
    decodeLE_encodeLE_of_lt hx]

theorem applyFrame_write (mem : Nat → UInt8) (haddr : addr < 2 ^ 32) (hx : x.length < 2 ^ 32) :
    applyFrame mem (bmiCmd kBmiWriteMemory [addr, x.length] ++ x) = store mem addr x := by
  obtain ⟨h4, -, h12⟩ := drop_write addr x
  have hid : cmdId (bmiCmd kBmiWriteMemory [addr, x.length] ++ x) = kBmiWriteMemory := by
    rw [cmdId_bmiCmd]
    rfl
  rw [applyFrame, if_pos hid, cmdLen_write addr hx, h4, h12, List.take_left' (encodeLE_length 4 _),
    decodeLE_encodeLE_of_lt haddr, List.take_length]

/-- Commands for pieces at consecutive addresses store the pieces as one. -/
theorem foldl_writeFrames (mem : Nat → UInt8) (xs : List (List UInt8)) (hne : ∀ x ∈ xs, x ≠ [])
    (haddr : addr + xs.flatten.length < 2 ^ 32) :
    (Bmi.writeFrames addr xs).foldl applyFrame mem = store mem addr xs.flatten := by
  induction xs generalizing mem addr with
  | nil => exact (store_nil mem addr).symm
  | cons x xs ih =>
    rw [List.flatten_cons, List.length_append] at haddr
    have hnext : addr + x.length + xs.flatten.length < 2 ^ 32 := by omega
    have hrest := ih (store mem addr x) (fun y hy => hne y (List.mem_cons_of_mem x hy)) hnext
    rw [Bmi.writeFrames, List.foldl_cons, applyFrame_write mem (by omega) (by omega), hrest,
      store_store, List.flatten_cons]

theorem take_writeFrames (addr : Nat) (xs : List (List UInt8)) (k : Nat) :
    (Bmi.writeFrames addr xs).take k = Bmi.writeFrames addr (xs.take k) := by
  induction xs generalizing addr k with
  | nil => rw [Bmi.writeFrames, List.take_nil, Bmi.writeFrames]
  | cons x xs ih =>
    cases k with
    | zero => rfl
    | succ k => rw [Bmi.writeFrames, List.take_succ_cons, ih, List.take_succ_cons, Bmi.writeFrames]

theorem length_writeFrames (addr : Nat) (xs : List (List UInt8)) :
    (Bmi.writeFrames addr xs).length = xs.length := by
  induction xs generalizing addr with
  | nil => rfl
  | cons x xs ih => rw [Bmi.writeFrames, List.length_cons, List.length_cons, ih]

theorem acknowledged_all (fs : List (List UInt8)) : acknowledged (fs.map (·, true)) = fs := by
  induction fs with
  | nil => rfl
  | cons f fs ih => exact congrArg (f :: ·) ih

theorem acknowledged_failed (fs : List (List UInt8)) (f : List UInt8) :
    acknowledged (fs.map (·, true) ++ [(f, false)]) = fs := by
  have hfs : acknowledged (fs.map (·, true) ++ [(f, false)]) =
      acknowledged (fs.map (·, true)) ++ acknowledged [(f, false)] := by
    rw [acknowledged, List.filter_append, List.map_append]
    rfl
  rw [hfs, acknowledged_all]
  exact List.append_nil fs

theorem mem_writeFrames (h : f ∈ Bmi.writeFrames addr xs) :
    ∃ a, ∃ x ∈ xs, f = bmiCmd kBmiWriteMemory [a, x.length] ++ x := by
  induction xs generalizing addr with
  | nil => exact absurd h List.not_mem_nil
  | cons x xs ih =>
    rcases List.mem_cons.1 h with rfl | h
    · exact ⟨addr, x, List.mem_cons_self, rfl⟩
    · obtain ⟨a, y, hy, hf⟩ := ih h
      exact ⟨a, y, List.mem_cons_of_mem x hy, hf⟩

section Padded

variable {pad : List UInt8}

theorem padded_length (hpad : pad.length = Bmi.wordPad buf.length) :
    (buf ++ pad).length = (buf.length + 3) / 4 * 4 := by
  rw [List.length_append, hpad, Bmi.wordPad]
  omega

theorem padded_le (hpad : pad.length = Bmi.wordPad buf.length) :
    (buf ++ pad).length ≤ buf.length + 3 := by
  rw [padded_length hpad]
  omega

theorem padded_piece (hpad : pad.length = Bmi.wordPad buf.length)
    (hx : x ∈ pieces 244 (buf ++ pad)) : x ≠ [] ∧ x.length ≤ 244 ∧ 4 ∣ x.length := by
  obtain ⟨hne, hle, hw⟩ := mem_pieces hx
  refine ⟨hne, hle, hw 4 (by decide) ?_⟩
  rw [padded_length hpad]
  exact Nat.dvd_mul_left 4 _

theorem padded_frame (hpad : pad.length = Bmi.wordPad buf.length)
    (hf : f ∈ Bmi.writeFrames addr (pieces 244 (buf ++ pad))) :
    f.length ≤ kBmiMaxDataSize ∧ 4 ∣ cmdLen f := by
  obtain ⟨a, x, hx, rfl⟩ := mem_writeFrames hf
  obtain ⟨-, hle, hw⟩ := padded_piece hpad hx
  have hhdr : (bmiCmd kBmiWriteMemory [a, x.length]).length = 12 := encodeWords_length 4 _
  rw [cmdLen_write a (by omega), List.length_append, hhdr, kBmiMaxDataSize]
  exact ⟨by omega, hw⟩

/-- The first commands store as much of the buffer as they carry. -/
theorem padded_stored (hpad : pad.length = Bmi.wordPad buf.length)
    (haddr : addr + buf.length + 3 < 2 ^ 32) (mem : Nat → UInt8) (k : Nat) :
    ((Bmi.writeFrames addr (pieces 244 (buf ++ pad))).take k).foldl applyFrame mem =
      store mem addr ((buf ++ pad).take (244 * k)) := by
  have hbytes := flatten_take_pieces (by decide : 0 < 244) (buf ++ pad) k
  have hle := padded_le hpad
  have htotal : ((buf ++ pad).take (244 * k)).length ≤ (buf ++ pad).length :=
    List.length_take_le' _ _
  rw [take_writeFrames, foldl_writeFrames mem, hbytes]
  · intro x hx
    exact (padded_piece hpad (List.mem_of_mem_take hx)).1
  · rw [hbytes]
    omega

/-- When every send has succeeded, all of the padded buffer is stored. -/
theorem applied_all (hpad : pad.length = Bmi.wordPad buf.length)
    (haddr : addr + buf.length + 3 < 2 ^ 32) (mem : Nat → UInt8) :
    applied mem ((Bmi.writeFrames addr (pieces 244 (buf ++ pad))).map (·, true)) =
      store mem addr (buf ++ pad) := by
  have hbytes := flatten_pieces (by decide : 0 < 244) (buf ++ pad)
  have hle := padded_le hpad
  rw [applied, acknowledged_all, foldl_writeFrames mem, hbytes]
  · intro x hx
    exact (padded_piece hpad hx).1
  · rw [hbytes]
    omega

/-- When a send has failed, the commands before it carry a proper part of the buffer. -/
theorem applied_failed (hpad : pad.length = Bmi.wordPad buf.length)
    (haddr : addr + buf.length + 3 < 2 ^ 32)
    (hsplit : Bmi.writeFrames addr (pieces 244 (buf ++ pad)) = pre ++ c :: post) :
    244 * pre.length < buf.length ∧ ∀ mem, applied mem (pre.map (·, true) ++ [(c, false)]) =
      store mem addr (buf.take (244 * pre.length)) := by
  have hin : pre.length < (pieces 244 (buf ++ pad)).length := by
    rw [← length_writeFrames addr (pieces 244 (buf ++ pad)), hsplit, List.length_append,
      List.length_cons]
    omega
  have hlt := mul_lt_of_lt_pieces hin
  rw [padded_length hpad] at hlt
  have hk : 244 * pre.length < buf.length := by omega
  refine ⟨hk, fun mem => ?_⟩
  have hbytes := padded_stored hpad haddr mem pre.length
  rw [hsplit, List.take_left' rfl, List.take_append_of_le_length hk.le] at hbytes
  rw [applied, acknowledged_failed]
  exact hbytes

theorem writeDone_all (o : Nat → List UInt8 → Bool)
    (haddr : addr + buf.length + 3 < 2 ^ 32) (hpad : pad.length = Bmi.wordPad buf.length) :
    WriteDone addr buf
      ((Calls.all (Bmi.writeFrames addr (pieces (kBmiMaxDataSize - 12) (buf ++ pad)))).made o)
      ((Calls.all (Bmi.writeFrames addr
        (pieces (kBmiMaxDataSize - 12) (buf ++ pad)))).result o) := by
  have hcap : kBmiMaxDataSize - 12 = 244 := rfl
  rw [hcap]
  rcases Calls.made_all o (Bmi.writeFrames addr (pieces 244 (buf ++ pad))) with
    ⟨hres, hmade⟩ | ⟨pre, c, post, hsplit, hres, hmade⟩
  · rw [hres, hmade]
    refine ⟨?_, ?_, ?_, nofun⟩
    · intro f hf
      obtain ⟨g, hg, rfl⟩ := List.mem_map.1 hf
      exact padded_frame hpad hg
    · intro _ mem i hi
      have hi' : i < (buf ++ pad).length := hi.trans_le (List.length_append ▸ Nat.le_add_right _ _)
      rw [applied_all hpad haddr, store_inside mem addr hi', List.getElem_append_left hi]
    · intro _ mem a ha
      rw [applied_all hpad haddr]
      apply store_outside
      rwa [padded_length hpad]
  · obtain ⟨hk, happlied⟩ := applied_failed hpad haddr hsplit
    rw [hres, hmade]
    refine ⟨?_, nofun, nofun, fun _ => ⟨pre.length, hk, ?_, happlied⟩⟩
    · intro f hf
      rcases List.mem_append.1 hf with hf | hf
      · obtain ⟨g, hg, rfl⟩ := List.mem_map.1 hf
        exact padded_frame hpad (hsplit ▸ List.mem_append_left _ hg)
      · obtain rfl := List.mem_singleton.1 hf
        exact padded_frame hpad (hsplit ▸ List.mem_append_right _ List.mem_cons_self)
    · rw [List.map_append, List.map_map]
      congr 1
      exact List.map_const

end Padded

end Qca9377
