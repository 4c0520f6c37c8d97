import Qca9377.Interleaving

namespace Interleaving
set_option autoImplicit true

/-- The result and the state of a program when `e k` happens before its `k`-th access. -/
def along (e : Nat → σ → σ) : Prog σ α → σ → α × σ
  | .ret a, s => (a, s)
  | .op u n, s => along (fun k => e (k + 1)) (n (e 0 s)) (u (e 0 s))

/-- The states that the accesses of a program find. -/
def found (e : Nat → σ → σ) : Prog σ α → σ → List σ
  | .ret _, _ => []
  | .op u n, s => e 0 s :: found (fun k => e (k + 1)) (n (e 0 s)) (u (e 0 s))

/-- What happens after the first `n` accesses. -/
def later (n : Nat) (e : Nat → σ → σ) (k : Nat) : σ → σ := e (k + n)

@[simp] theorem along_ret (e : Nat → σ → σ) (a : α) (s : σ) : along e (.ret a) s = (a, s) := rfl

@[simp] theorem along_op (e : Nat → σ → σ) (u : σ → σ) (n : σ → Prog σ α) (s : σ) :
    along e (.op u n) s = along (later 1 e) (n (e 0 s)) (u (e 0 s)) := rfl

@[simp] theorem found_ret (e : Nat → σ → σ) (a : α) (s : σ) : found e (.ret a) s = [] := rfl

@[simp] theorem found_op (e : Nat → σ → σ) (u : σ → σ) (n : σ → Prog σ α) (s : σ) :
    found e (.op u n) s = e 0 s :: found (later 1 e) (n (e 0 s)) (u (e 0 s)) := rfl

@[simp] theorem later_later (m n : Nat) (e : Nat → σ → σ) :
    later m (later n e) = later (m + n) e := by
  funext k
  exact congrArg e (Nat.add_assoc k m n)

theorem along_bind (e : Nat → σ → σ) (p : Prog σ α) (k : α → Prog σ β) (s : σ) :
    along e (p.bind k) s =
      along (later (found e p s).length e) (k (along e p s).1) (along e p s).2 := by
  induction p generalizing e s with
  | ret a => rfl
  | op u n ih =>
    simp only [Prog.op_bind, along_op, found_op, List.length_cons]
    rw [ih, later_later]

theorem found_bind (e : Nat → σ → σ) (p : Prog σ α) (k : α → Prog σ β) (s : σ) :
    found e (p.bind k) s = found e p s ++
      found (later (found e p s).length e) (k (along e p s).1) (along e p s).2 := by
  induction p generalizing e s with
  | ret a => rfl
  | op u n ih =>
    simp only [Prog.op_bind, along_op, found_op, List.length_cons, List.cons_append]
    rw [ih, later_later]

/-- Make the access `u` until `look` decides on what it found, `n` times at most. -/
def pollFor (u : σ → σ) (look : σ → Option α) : Nat → Prog σ (Option α)
  | 0 => .ret none
  | n + 1 => .op u fun s =>
    match look s with
    | some a => .ret (some a)
    | none => pollFor u look n

/-- What the `k`-th access finds when all accesses before it are `u`. -/
def foundAt (e : Nat → σ → σ) (u : σ → σ) (s : σ) : Nat → σ
  | 0 => e 0 s
  | k + 1 => e (k + 1) (u (foundAt e u s k))

theorem foundAt_later (e : Nat → σ → σ) (u : σ → σ) (s : σ) (k : Nat) :
    foundAt (later 1 e) u (u (e 0 s)) k = foundAt e u s (k + 1) := by
  induction k with
  | zero => rfl
  | succ k ih => exact congrArg (fun t => e (k + 2) (u t)) ih

theorem foundAt_induct {P : Nat → σ → Prop} (hzero : P 0 (e 0 s))
    (hstep : ∀ k t, P k t → P (k + 1) (e (k + 1) (u t))) (k : Nat) : P k (foundAt e u s k) := by
  induction k with
  | zero => exact hzero
  | succ k ih => exact hstep k _ ih

theorem foundAt_range (e : Nat → σ → σ) (u : σ → σ) (s : σ) (n : Nat) :
    (List.range (n + 1)).map (foundAt e u s) =
      e 0 s :: (List.range n).map (foundAt (later 1 e) u (u (e 0 s))) := by
  rw [List.range_succ_eq_map, List.map_cons, List.map_map]
  exact congrArg _ (List.map_congr_left fun k _ => (foundAt_later e u s k).symm)

variable {e : Nat → σ → σ} {u : σ → σ} {look : σ → Option α} {s : σ}

/-- A loop that finds nothing makes all its accesses. -/
theorem pollFor_none (h : ∀ k < n, look (foundAt e u s k) = none) :
    (along e (pollFor u look n) s).1 = none ∧
      e n (along e (pollFor u look n) s).2 = foundAt e u s n ∧
      found e (pollFor u look n) s = (List.range n).map (foundAt e u s) := by
  induction n generalizing e s with
  | zero => exact ⟨rfl, rfl, rfl⟩
  | succ n ih =>
    have hnow : look (e 0 s) = none := h 0 (Nat.succ_pos n)
    have hrest : ∀ k < n, look (foundAt (later 1 e) u (u (e 0 s)) k) = none := by
      intro k hk
      rw [foundAt_later]
      exact h (k + 1) (Nat.succ_lt_succ hk)
    obtain ⟨hret, hnext, hfound⟩ := ih hrest
    simp only [pollFor, along_op, found_op, hnow]
    rw [foundAt_range, hfound]
    exact ⟨hret, hnext.trans (foundAt_later e u s n), rfl⟩

/-- A loop ends with the first access that finds what it looks for. -/
theorem pollFor_some (hi : i < n) (hbefore : ∀ k < i, look (foundAt e u s k) = none)
    (hat : look (foundAt e u s i) = some a) :
    along e (pollFor u look n) s = (some a, u (foundAt e u s i)) ∧
      found e (pollFor u look n) s = (List.range (i + 1)).map (foundAt e u s) := by
  induction i generalizing e s n with
  | zero =>
    cases n with
    | zero => cases hi
    | succ n =>
      have hnow : look (e 0 s) = some a := hat
      simp only [pollFor, along_op, found_op, hnow]
      exact ⟨rfl, rfl⟩
  | succ i ih =>
    cases n with
    | zero => cases hi
    | succ n =>
      have hnow : look (e 0 s) = none := hbefore 0 (Nat.succ_pos i)
      have hrest : ∀ k < i, look (foundAt (later 1 e) u (u (e 0 s)) k) = none := by
        intro k hk
        rw [foundAt_later]
        exact hbefore (k + 1) (Nat.succ_lt_succ hk)
      obtain ⟨hret, hfound⟩ := ih (Nat.lt_of_succ_lt_succ hi) hrest
        ((congrArg look (foundAt_later e u s i)).trans hat)
      simp only [pollFor, along_op, found_op, hnow]
      rw [hret, foundAt_range, hfound, foundAt_later]
      exact ⟨rfl, rfl⟩

/-- Of two first places there is only one. -/
def FirstAt (p : Nat → Prop) (i : Nat) : Prop := p i ∧ ∀ k < i, ¬ p k

theorem FirstAt.unique (h : FirstAt p i) (h' : FirstAt p j) : i = j := by
  rcases Nat.lt_trichotomy i j with hlt | he | hlt
  · exact absurd h.1 (h'.2 i hlt)
  · exact he
  · exact absurd h'.1 (h.2 j hlt)

/-- A chain that comes to `p` does so within as many places as it has values to go through: a
value met twice before would bring it there earlier. -/
theorem FirstAt.iterate_lt_card {p : α → Prop} {f : α → α} (S : Finset α)
    (h : FirstAt (fun k => p (f^[k] x)) i) (hS : ∀ k ≤ i, f^[k] x ∈ S) : i < S.card := by
  have hno (j k : Nat) (hjk : j < k) (hki : k ≤ i) : f^[j] x ≠ f^[k] x := by
    intro he
    have hback : f^[i - (k - j)] x = f^[i] x :=
      calc f^[i - (k - j)] x = f^[i - k] (f^[j] x) := by
            rw [← Function.iterate_add_apply]
            congr 2
            omega
        _ = f^[i - k] (f^[k] x) := by rw [he]
        _ = f^[i] x := by rw [← Function.iterate_add_apply, Nat.sub_add_cancel hki]
    have hp : p (f^[i - (k - j)] x) := by
      rw [hback]
      exact h.1
    exact h.2 (i - (k - j)) (by omega) hp
  have hinj : Set.InjOn (fun k => f^[k] x) (Finset.range (i + 1)) := by
    intro j hj k hk he
    simp only [Finset.coe_range, Set.mem_Iio] at hj hk
    rcases Nat.lt_trichotomy j k with hlt | heq | hlt
    · exact absurd he (hno j k hlt (Nat.le_of_lt_succ hk))
    · exact heq
    · exact absurd he.symm (hno k j hlt (Nat.le_of_lt_succ hj))
  have hmaps : ∀ k ∈ Finset.range (i + 1), f^[k] x ∈ S :=
    fun k hk => hS k (Nat.le_of_lt_succ (Finset.mem_range.1 hk))
  have hcard := Finset.card_le_card_of_injOn (fun k => f^[k] x) hmaps hinj
  rw [Finset.card_range] at hcard
  exact hcard

/-- Among the first `n` places there is a first one, or there is none. -/
theorem firstAt_or (p : Nat → Prop) (n : Nat) : (∃ i < n, FirstAt p i) ∨ ∀ k < n, ¬ p k := by
  induction n with
  | zero => exact .inr nofun
  | succ n ih =>
    rcases ih with ⟨i, hi, hfirst⟩ | hnone
    · exact .inl ⟨i, Nat.lt_succ_of_lt hi, hfirst⟩
    · by_cases hn : p n
      · exact .inl ⟨n, Nat.lt_succ_self n, hn, hnone⟩
      · refine .inr fun k hk => ?_
        rcases Nat.lt_succ_iff_lt_or_eq.1 hk with hk | rfl
        · exact hnone k hk
        · exact hn

end Interleaving
