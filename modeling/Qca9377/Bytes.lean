import Mathlib.Tactic

namespace Bytes
set_option autoImplicit true

/-- A pointer into a buffer, as an offset, with the length of what it names. -/
structure View where
  ptr : Option Nat
  len : Nat
  deriving DecidableEq, Repr

/-- A view that is null or lies inside a buffer of `n` bytes. -/
def View.Inside (n : Nat) (v : View) : Prop := ∀ off, v.ptr = some off → off + v.len ≤ n

/-- The low `w` bytes of a number, least significant first. -/
def encodeLE : Nat → Nat → List UInt8
  | 0, _ => []
  | w + 1, n => UInt8.ofNat n :: encodeLE w (n / 256)

/-- The number a little-endian byte string stands for. -/
def decodeLE : List UInt8 → Nat
  | [] => 0
  | b :: bs => b.toNat + decodeLE bs * 256

@[simp] theorem encodeLE_length (w n : Nat) : (encodeLE w n).length = w := by
  induction w generalizing n with
  | zero => rfl
  | succ w ih => simp only [encodeLE, List.length_cons, ih]

theorem decodeLE_encodeLE (w n : Nat) : decodeLE (encodeLE w n) = n % 256 ^ w := by
  induction w generalizing n with
  | zero => simp only [encodeLE, decodeLE, pow_zero, Nat.mod_one]
  | succ w ih =>
    have hb : (UInt8.ofNat n).toNat = n % 256 := UInt8.toNat_ofNat'
    rw [encodeLE, decodeLE, ih, hb, pow_succ', Nat.mod_mul, Nat.mul_comm 256]

theorem decodeLE_encodeLE_of_lt (h : n < 256 ^ w) : decodeLE (encodeLE w n) = n :=
  (decodeLE_encodeLE w n).trans (Nat.mod_eq_of_lt h)

theorem encodeLE_decodeLE (b : List UInt8) : encodeLE b.length (decodeLE b) = b := by
  induction b with
  | nil => rfl
  | cons x b ih =>
    have hx : x.toNat < 256 := x.toNat_lt
    have hdiv : (x.toNat + decodeLE b * 256) / 256 = decodeLE b := by omega
    have hbyte : UInt8.ofNat (x.toNat + decodeLE b * 256) = x := by
      apply UInt8.toNat.inj
      rw [UInt8.toNat_ofNat']
      omega
    rw [List.length_cons, encodeLE, decodeLE, hdiv, hbyte, ih]

theorem decodeLE_lt (b : List UInt8) : decodeLE b < 256 ^ b.length := by
  have h := decodeLE_encodeLE b.length (decodeLE b)
  rw [encodeLE_decodeLE] at h
  rw [h]
  exact Nat.mod_lt _ (Nat.pow_pos (by decide))

/-- The `len` bytes at offset `off`, or nothing when they do not all lie in the buffer. -/
def slice (b : List UInt8) (off len : Nat) : Option (List UInt8) :=
  if off + len ≤ b.length then some ((b.drop off).take len) else none

theorem slice_append (pre x post : List UInt8) :
    slice (pre ++ (x ++ post)) pre.length x.length = some x := by
  have h : pre.length + x.length ≤ (pre ++ (x ++ post)).length := by
    simp only [List.length_append]
    omega
  simp only [slice, if_pos h, List.drop_left, List.take_left]

/-- A slice can be located by the lengths of its surroundings. -/
theorem slice_eq_of_append (pre x post : List UInt8) (hb : b = pre ++ (x ++ post))
    (hoff : off = pre.length) (hlen : len = x.length) : slice b off len = some x := by
  subst hb hoff hlen
  exact slice_append pre x post

theorem slice_length (h : slice b off len = some x) : x.length = len := by
  simp only [slice] at h
  split at h
  · obtain rfl := Option.some.inj h
    rw [List.length_take, List.length_drop]
    omega
  · cases h

theorem slice_isSome (h : off + len ≤ b.length) : (slice b off len).isSome := by
  simp only [slice, if_pos h, Option.isSome_some]

/-- Overwrite a buffer from offset `off` on. -/
def poke (b : List UInt8) (off : Nat) (x : List UInt8) : List UInt8 :=
  b.take off ++ x ++ b.drop (off + x.length)

theorem poke_append (pre x post : List UInt8) (hoff : off = pre.length) :
    poke (pre ++ post) off x = (pre ++ x) ++ post.drop x.length := by
  subst hoff
  simp only [poke, List.take_left, List.drop_append, List.drop_of_length_le (Nat.le_add_right _ _),
    Nat.add_sub_cancel_left, List.nil_append]

theorem poke_zeros (pre x : List UInt8) (k : Nat) (hoff : off = pre.length) :
    poke (pre ++ List.replicate k 0) off x = (pre ++ x) ++ List.replicate (k - x.length) 0 := by
  rw [poke_append pre x _ hoff, List.drop_replicate]

/-- The bytes of a sequence of words of `w` bytes each. -/
def encodeWords (w : Nat) (ns : List Nat) : List UInt8 := ns.flatMap (encodeLE w)

/-- Read a byte string back as words of `w` bytes. -/
def decodeWords (w : Nat) : Nat → List UInt8 → List Nat
  | 0, _ => []
  | k + 1, b => decodeLE (b.take w) :: decodeWords w k (b.drop w)

@[simp] theorem encodeWords_length (w : Nat) (ns : List Nat) :
    (encodeWords w ns).length = w * ns.length := by
  induction ns with
  | nil => rfl
  | cons n ns ih =>
    simp only [encodeWords, List.flatMap_cons, List.length_append, encodeLE_length,
      List.length_cons] at ih ⊢
    rw [ih, Nat.mul_add, Nat.mul_one, Nat.add_comm]

/-- Store words one after another from offset `off` on. -/
def pokeWords (w : Nat) : List UInt8 → Nat → List Nat → List UInt8
  | b, _, [] => b
  | b, off, n :: ns => pokeWords w (poke b off (encodeLE w n)) (off + w) ns

theorem pokeWords_append (pre post : List UInt8) (ns : List Nat) (hoff : off = pre.length) :
    pokeWords w (pre ++ post) off ns =
      (pre ++ encodeWords w ns) ++ post.drop (w * ns.length) := by
  induction ns generalizing off pre post with
  | nil => simp only [pokeWords, encodeWords, List.flatMap_nil, List.append_nil,
      List.length_nil, Nat.mul_zero, List.drop_zero]
  | cons n ns ih =>
    have hpre : off + w = (pre ++ encodeLE w n).length := by
      rw [List.length_append, encodeLE_length, hoff]
    rw [pokeWords, poke_append pre _ post hoff, ih _ _ hpre, encodeLE_length, List.drop_drop,
      List.length_cons, Nat.mul_add, Nat.mul_one, Nat.add_comm w, encodeWords, encodeWords,
      List.flatMap_cons, List.append_assoc pre]

/-- A list cut into pieces of `n` elements, the last one what is left. -/
def pieces (n : Nat) (l : List α) : List (List α) :=
  if l = [] ∨ n = 0 then [] else l.take n :: pieces n (l.drop n)
termination_by l.length
decreasing_by
  have := List.length_pos_iff.2 (not_or.1 ‹¬ (l = [] ∨ n = 0)›).1
  simp only [List.length_drop]
  omega

@[simp] theorem pieces_nil (n : Nat) : pieces n ([] : List α) = [] := by
  rw [pieces, if_pos (.inl rfl)]

theorem pieces_cons (hn : 0 < n) (hl : l ≠ []) :
    pieces n l = l.take n :: pieces n (l.drop n) := by
  rw [pieces, if_neg (not_or.2 ⟨hl, Nat.ne_of_gt hn⟩)]

theorem flatten_take_pieces (hn : 0 < n) (l : List α) (k : Nat) :
    ((pieces n l).take k).flatten = l.take (n * k) := by
  induction k generalizing l with
  | zero => rfl
  | succ k ih =>
    by_cases hl : l = []
    · rw [hl, pieces_nil, List.take_nil, List.take_nil, List.flatten_nil]
    · rw [pieces_cons hn hl, List.take_succ_cons, List.flatten_cons, ih, Nat.mul_succ,
        Nat.add_comm (n * k), List.take_add]

theorem flatten_pieces (hn : 0 < n) (l : List α) : (pieces n l).flatten = l := by
  induction l using pieces.induct n with
  | case1 l h =>
    rw [pieces, if_pos h, h.resolve_right (Nat.ne_of_gt hn), List.flatten_nil]
  | case2 l h ih => rw [pieces, if_neg h, List.flatten_cons, ih, List.take_append_drop]

theorem mul_lt_of_lt_pieces (hk : k < (pieces n l).length) : n * k < l.length := by
  induction l using pieces.induct n generalizing k with
  | case1 l h =>
    rw [pieces, if_pos h] at hk
    exact absurd hk (Nat.not_lt_zero k)
  | case2 l h ih =>
    have hl := List.length_pos_iff.2 (not_or.1 h).1
    rw [pieces, if_neg h, List.length_cons] at hk
    cases k with
    | zero => exact hl
    | succ k =>
      have hrest := ih (Nat.lt_of_succ_lt_succ hk)
      rw [List.length_drop] at hrest
      rw [Nat.mul_succ]
      omega

/-- The pieces are not empty, fit, and consist of whole words when the list does. -/
theorem mem_pieces {n : Nat} (hx : x ∈ pieces n l) :
    x ≠ [] ∧ x.length ≤ n ∧ ∀ w, w ∣ n → w ∣ l.length → w ∣ x.length := by
  induction l using pieces.induct n with
  | case1 l h =>
    rw [pieces, if_pos h] at hx
    exact absurd hx List.not_mem_nil
  | case2 l h ih =>
    have hl := List.length_pos_iff.2 (not_or.1 h).1
    rw [pieces, if_neg h, List.mem_cons] at hx
    rcases hx with rfl | hx
    · have hlen : (l.take n).length = min n l.length := List.length_take
      refine ⟨List.ne_nil_of_length_pos (by omega), by omega, fun w hwn hwl => ?_⟩
      rw [hlen]
      rcases min_choice n l.length with he | he
      · rwa [he]
      · rwa [he]
    · obtain ⟨hne, hle, hw⟩ := ih hx
      refine ⟨hne, hle, fun w hwn hwl => hw w hwn ?_⟩
      rw [List.length_drop]
      exact Nat.dvd_sub hwl hwn

/-- A memory with bytes stored from an address on. -/
def store (mem : Nat → α) (a : Nat) (x : List α) (b : Nat) : α :=
  if a ≤ b then (x[b - a]?).getD (mem b) else mem b

theorem store_inside (mem : Nat → α) (a : Nat) {x : List α} (hi : i < x.length) :
    store mem a x (a + i) = x[i] := by
  rw [store, if_pos (Nat.le_add_right a i), Nat.add_sub_cancel_left, List.getElem?_eq_getElem hi,
    Option.getD_some]

theorem store_outside (mem : Nat → α) (h : b < a ∨ a + x.length ≤ b) : store mem a x b = mem b := by
  rw [store]
  split
  · next hle =>
    have hout : x.length ≤ b - a := by omega
    rw [List.getElem?_eq_none hout, Option.getD_none]
  · rfl

@[simp] theorem store_nil (mem : Nat → α) (a : Nat) : store mem a [] = mem := by
  funext b
  apply store_outside
  simp only [List.length_nil, Nat.add_zero]
  exact Nat.lt_or_ge b a

theorem store_store (mem : Nat → α) (a : Nat) (x y : List α) :
    store (store mem a x) (a + x.length) y = store mem a (x ++ y) := by
  funext b
  by_cases hb : a + x.length ≤ b
  · have hx : store mem a x b = mem b := store_outside mem (.inr hb)
    have hsub : b - a - x.length = b - (a + x.length) := Nat.sub_sub _ _ _
    rw [store, if_pos hb, hx, store, if_pos (Nat.le_of_add_right_le hb),
      List.getElem?_append_right (by omega), hsub]
  · rw [store, if_neg hb]
    by_cases ha : a ≤ b
    · rw [store, if_pos ha, store, if_pos ha, List.getElem?_append_left (by omega)]
    · rw [store, if_neg ha, store, if_neg ha]

/-- Unsigned subtraction, and nothing where it would wrap. -/
def unsignedSub (a b : Nat) : Option Nat := if b ≤ a then some (a - b) else none

/-- Copy into a buffer, and nothing where the bytes would not all lie inside it. -/
def bcopyInto (b : List UInt8) (off : Nat) (x : List UInt8) : Option (List UInt8) :=
  if off + x.length ≤ b.length then some (poke b off x) else none

theorem unsignedSub_of_le (h : b ≤ a) : unsignedSub a b = some (a - b) := if_pos h

theorem bcopyInto_append (pre x post : List UInt8) (hoff : off = pre.length)
    (hx : x.length ≤ post.length) :
    bcopyInto (pre ++ post) off x = some ((pre ++ x) ++ post.drop x.length) := by
  have hin : off + x.length ≤ (pre ++ post).length := by
    rw [List.length_append, hoff]
    exact Nat.add_le_add_left hx _
  rw [bcopyInto, if_pos hin, poke_append pre x post hoff]

theorem bcopyInto_length (h : bcopyInto b off x = some b') : b'.length = b.length := by
  simp only [bcopyInto] at h
  split at h
  · obtain rfl := Option.some.inj h
    simp only [poke, List.length_append, List.length_take, List.length_drop]
    omega
  · cases h

/-- `tail` is what is left of the text of `lines` after its front, and the front ends at a line's
end or at a break. -/
def CleanTail (br : α) (lines : List (List α)) (tail : List α) : Prop :=
  ∃ front : List α, lines.flatten = front ++ tail ∧
    ((∃ k, k ≤ lines.length ∧ front = (lines.take k).flatten) ∨ front.getLast? = some br)

theorem CleanTail.nil (br : α) : CleanTail br [] [] :=
  ⟨[], rfl, .inl ⟨0, Nat.le_refl 0, rfl⟩⟩

theorem CleanTail.append {lines : List (List α)} {tail : List α} (h : CleanTail br lines tail)
    (line : List α) :
    CleanTail br (lines ++ [line]) (tail ++ line) := by
  obtain ⟨front, hf, hb⟩ := h
  refine ⟨front, ?_, hb.imp_left ?_⟩
  · rw [List.flatten_append, List.flatten_singleton, hf, List.append_assoc]
  · intro ⟨k, hk, hfk⟩
    refine ⟨k, ?_, ?_⟩
    · rw [List.length_append]
      exact Nat.le_add_right_of_le hk
    · rw [hfk, List.take_append_of_le_length hk]

theorem CleanTail.drop_all (br : α) (lines : List (List α)) : CleanTail br lines [] := by
  refine ⟨lines.flatten, (List.append_nil _).symm, .inl ⟨lines.length, Nat.le_refl _, ?_⟩⟩
  rw [List.take_length]

theorem CleanTail.drop_break (h : CleanTail br lines tail) (hp : tail[p]? = some br) :
    CleanTail br lines (tail.drop (p + 1)) := by
  obtain ⟨front, hf, -⟩ := h
  obtain ⟨hlt, hget⟩ := List.getElem?_eq_some_iff.1 hp
  refine ⟨front ++ tail.take (p + 1), ?_, .inr ?_⟩
  · rw [List.append_assoc, List.take_append_drop, hf]
  · rw [List.take_succ_eq_append_getElem hlt, hget, ← List.append_assoc, List.getLast?_concat]

end Bytes
