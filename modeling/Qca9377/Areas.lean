import Qca9377.Bytes

namespace Bytes
set_option autoImplicit true

/-- What a memory holds from an address on. -/
def load (mem : Nat → α) (a n : Nat) : List α := (List.range n).map fun i => mem (a + i)

/-- Two areas of a memory that have nothing in common. -/
def Apart (a n b m : Nat) : Prop := a + n ≤ b ∨ b + m ≤ a

instance (a n b m : Nat) : Decidable (Apart a n b m) := inferInstanceAs (Decidable (_ ∨ _))

/-- A memory after a list of stores. -/
def storeAll (mem : Nat → α) (ws : List (Nat × List α)) : Nat → α :=
  ws.foldl (fun m w => store m w.1 w.2) mem

variable {mem : Nat → α} {a n : Nat} {x : List α} {ws : List (Nat × List α)}

@[simp] theorem load_length (mem : Nat → α) (a n : Nat) : (load mem a n).length = n := by
  rw [load, List.length_map, List.length_range]

theorem load_congr {mem' : Nat → α} (h : ∀ i < n, mem (a + i) = mem' (a + i)) :
    load mem a n = load mem' a n := by
  apply List.map_congr_left
  intro i hi
  exact h i (List.mem_range.1 hi)

/-- A part of what is held is held from further on. -/
theorem load_part (mem : Nat → α) (a : Nat) {i j n : Nat} (h : i + j ≤ n) :
    ((load mem a n).drop i).take j = load mem (a + i) j := by
  apply List.ext_getElem
  · rw [List.length_take, List.length_drop, load_length, load_length]
    omega
  · intro k hk hk'
    simp only [load, List.getElem_take, List.getElem_drop, List.getElem_map, List.getElem_range,
      Nat.add_assoc]

theorem load_store (mem : Nat → α) (a : Nat) (x : List α) :
    load (store mem a x) a x.length = x := by
  apply List.ext_getElem
  · rw [load_length]
  · intro i hi hi'
    simp only [load, List.getElem_map, List.getElem_range, store_inside mem a hi']

theorem load_store_apart (mem : Nat → α) (h : Apart a n b x.length) :
    load (store mem b x) a n = load mem a n := by
  apply load_congr
  intro i hi
  apply store_outside
  cases h with
  | inl h => exact .inl (by omega)
  | inr h => exact .inr (by omega)

@[simp] theorem storeAll_nil (mem : Nat → α) : storeAll mem [] = mem := rfl

@[simp] theorem storeAll_cons (mem : Nat → α) (w : Nat × List α) (ws : List (Nat × List α)) :
    storeAll mem (w :: ws) = storeAll (store mem w.1 w.2) ws := rfl

theorem storeAll_append (mem : Nat → α) (ws vs : List (Nat × List α)) :
    storeAll mem (ws ++ vs) = storeAll (storeAll mem ws) vs := List.foldl_append

/-- Stores change nothing outside their areas. -/
theorem storeAll_outside (mem : Nat → α) (h : ∀ w ∈ ws, b < w.1 ∨ w.1 + w.2.length ≤ b) :
    storeAll mem ws b = mem b := by
  induction ws generalizing mem with
  | nil => rfl
  | cons w ws ih =>
    rw [storeAll_cons, ih _ fun v hv => h v (List.mem_cons_of_mem w hv)]
    exact store_outside mem (h w List.mem_cons_self)

theorem load_storeAll_apart (mem : Nat → α) (h : ∀ w ∈ ws, Apart a n w.1 w.2.length) :
    load (storeAll mem ws) a n = load mem a n := by
  induction ws generalizing mem with
  | nil => rfl
  | cons w ws ih =>
    rw [storeAll_cons, ih _ fun v hv => h v (List.mem_cons_of_mem w hv)]
    exact load_store_apart mem (h w List.mem_cons_self)

/-- The areas of two stores. -/
def ApartStores (v w : Nat × List α) : Prop := Apart v.1 v.2.length w.1 w.2.length

instance (v w : Nat × List α) : Decidable (ApartStores v w) :=
  inferInstanceAs (Decidable (Apart _ _ _ _))

/-- Stores into areas that have nothing in common all stay. -/
theorem load_storeAll (mem : Nat → α) (h : ws.Pairwise ApartStores) (hw : w ∈ ws) :
    load (storeAll mem ws) w.1 w.2.length = w.2 := by
  induction ws generalizing mem with
  | nil => exact absurd hw List.not_mem_nil
  | cons v ws ih =>
    cases h with
    | cons hv hws =>
      rw [storeAll_cons]
      rcases List.mem_cons.1 hw with rfl | hw
      · rw [load_storeAll_apart _ fun u hu => hv u hu]
        exact load_store mem _ _
      · exact ih _ hws hw

theorem Apart.symm (h : Apart a n b m) : Apart b m a n := Or.symm h

/-- The first stores leave the areas of those to come alone. -/
theorem load_storeAll_take (mem : Nat → α) (h : ws.Pairwise ApartStores) (hw : w ∈ ws.drop k) :
    load (storeAll mem (ws.take k)) w.1 w.2.length = load mem w.1 w.2.length := by
  rw [← List.take_append_drop k ws] at h
  apply load_storeAll_apart
  intro v hv
  exact ((List.pairwise_append.1 h).2.2 v hv w hw).symm

end Bytes
