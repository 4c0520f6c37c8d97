import Qca9377.Interleaving

namespace Interleaving
set_option autoImplicit true

/-- The environment moves from one state to another; the list holds the states in between and the
last one. -/
inductive Moves (R : σ → σ → Prop) (s : σ) : List σ → σ → Prop
  | refl : Moves R s [] s
  | tail (h : Moves R s L t) (hs : R t u) : Moves R s (L ++ [u]) u

theorem Moves.star (h : Moves R s L t) : Relation.ReflTransGen R s t := by
  induction h with
  | refl => exact .refl
  | tail _ hs ih => exact ih.tail hs

/-- A stretch of a run: the program `p` in the state `s` has become `q` in `t`, the environment
moving in between; the list holds the states that were visited, in order. -/
inductive Stretch (R : σ → σ → Prop) (p : Prog σ α) (s : σ) : List σ → Prog σ α → σ → Prop
  | refl : Stretch R p s [] p s
  | env (h : Stretch R p s L q t) (he : R t u) : Stretch R p s (L ++ [u]) q u
  | op (h : Stretch R p s L (.op u n) t) : Stretch R p s (L ++ [u t]) (n t) (u t)

variable {R : σ → σ → Prop} {p : Prog σ α}

theorem Stretch.last (h : Stretch R p s L q t) : L.getLastD s = t := by
  cases h with
  | refl => rfl
  | env => exact List.getLastD_concat
  | op => exact List.getLastD_concat

/-- A visited state is where a shorter stretch ends. -/
theorem Stretch.visited (h : Stretch R p s L q t) (hx : x ∈ L) :
    ∃ L' q', Stretch R p s L' q' x := by
  induction h with
  | refl => cases hx
  | env h he ih =>
    rcases List.mem_append.1 hx with hx | hx
    · exact ih hx
    · obtain rfl := List.mem_singleton.1 hx
      exact ⟨_, _, h.env he⟩
  | op h ih =>
    rcases List.mem_append.1 hx with hx | hx
    · exact ih hx
    · obtain rfl := List.mem_singleton.1 hx
      exact ⟨_, _, h.op⟩

/-- What holds of all runs of a program holds of what a stretch leaves of it. -/
theorem Safe.stretch (h : Safe R J G Q p s) (hr : Stretch R p s L q t) : Safe R J G Q q t := by
  induction hr with
  | refl => exact h
  | env _ he ih => exact ih.moved he
  | op _ ih => exact (ih _ .refl).2.2

theorem Safe.returned (h : Safe R J G Q p s) (hr : Stretch R p s L (.ret a) t) : Q a t :=
  (h.stretch hr t .refl).2

/-- A stretch of a sequence has not finished the first part, or is one of the second part after
the first has returned. -/
theorem Stretch.bind {k : α → Prog σ β} (h : Stretch R (p.bind k) s L q t) :
    (∃ u n, q = (Prog.op u n).bind k ∧ Stretch R p s L (.op u n) t) ∨
      ∃ a u L₁ L₂, L = L₁ ++ L₂ ∧ Stretch R p s L₁ (.ret a) u ∧ Stretch R (k a) u L₂ q t := by
  have hat (p' : Prog σ α) (L : List σ) (t : σ) (hp : Stretch R p s L p' t) :
      (∃ u n, p'.bind k = (Prog.op u n).bind k ∧ Stretch R p s L (.op u n) t) ∨
        ∃ a u L₁ L₂, L = L₁ ++ L₂ ∧ Stretch R p s L₁ (.ret a) u ∧
          Stretch R (k a) u L₂ (p'.bind k) t := by
    cases p' with
    | ret a => exact .inr ⟨a, t, L, [], (List.append_nil L).symm, hp, .refl⟩
    | op u n => exact .inl ⟨u, n, rfl, hp⟩
  induction h with
  | refl => exact hat p [] s .refl
  | env _ he ih =>
    rcases ih with ⟨u, n, hq, hp⟩ | ⟨a, u, L₁, L₂, rfl, hp, hk⟩
    · exact .inl ⟨u, n, hq, hp.env he⟩
    · exact .inr ⟨a, u, L₁, _, List.append_assoc _ _ _, hp, hk.env he⟩
  | op _ ih =>
    rcases ih with ⟨u, n, hq, hp⟩ | ⟨a, u, L₁, L₂, rfl, hp, hk⟩
    · obtain ⟨rfl, rfl⟩ := Prog.op.inj hq
      exact hat _ _ _ hp.op
    · exact .inr ⟨a, u, L₁, _, List.append_assoc _ _ _, hp, hk.op⟩

theorem Stretch.bind_ret {k : α → Prog σ β} (h : Stretch R (p.bind k) s L (.ret b) t) :
    ∃ a u L₁ L₂, L = L₁ ++ L₂ ∧ Stretch R p s L₁ (.ret a) u ∧
      Stretch R (k a) u L₂ (.ret b) t := by
  rcases h.bind with ⟨u, n, hq, -⟩ | hboth
  · cases hq
  · exact hboth

theorem Stretch.of_ret (h : Stretch R (.ret a) s L q t) : q = .ret a ∧ Moves R s L t := by
  induction h with
  | refl => exact ⟨rfl, .refl⟩
  | env _ he ih => exact ⟨ih.1, ih.2.tail he⟩
  | op _ ih => cases ih.1

/-- A stretch from an access on has not made it yet or goes on after it. -/
theorem Stretch.of_op (h : Stretch R (.op u n) s L q t) :
    (q = .op u n ∧ Moves R s L t) ∨
      ∃ s' L₁ L₂, L = L₁ ++ (u s' :: L₂) ∧ Moves R s L₁ s' ∧ Stretch R (n s') (u s') L₂ q t := by
  induction h with
  | refl => exact .inl ⟨rfl, .refl⟩
  | env _ he ih =>
    rcases ih with ⟨hq, hst⟩ | ⟨s', L₁, L₂, rfl, hst, hn⟩
    · exact .inl ⟨hq, hst.tail he⟩
    · exact .inr ⟨s', L₁, _, List.append_assoc _ _ _, hst, hn.env he⟩
  | op _ ih =>
    rcases ih with ⟨hq, hst⟩ | ⟨s', L₁, L₂, rfl, hst, hn⟩
    · obtain ⟨rfl, rfl⟩ := Prog.op.inj hq
      exact .inr ⟨_, _, [], rfl, hst, .refl⟩
    · exact .inr ⟨s', L₁, _, List.append_assoc _ _ _, hst, hn.op⟩

theorem Stretch.after_op {n : σ → Prog σ α} (h : Stretch R (.op u n) s L (.ret a) t) :
    ∃ s' L₁ L₂, L = L₁ ++ (u s' :: L₂) ∧ Moves R s L₁ s' ∧
      Stretch R (n s') (u s') L₂ (.ret a) t := by
  rcases h.of_op with ⟨hq, -⟩ | hrest
  · cases hq
  · exact hrest

/-- A sequence whose first part may end it has passed that part when it returns anything else. -/
theorem Stretch.passed {p : Prog σ Bool} {k : Prog σ α}
    (h : Stretch R (p.bind fun ok => if (!ok) = true then .ret fail else k) s L (.ret b) t)
    (hb : b ≠ fail) :
    ∃ u L₁ L₂, L = L₁ ++ L₂ ∧ Stretch R p s L₁ (.ret true) u ∧ Stretch R k u L₂ (.ret b) t := by
  obtain ⟨ok, u, L₁, L₂, hL, hp, hk⟩ := h.bind_ret
  cases ok with
  | true => exact ⟨u, L₁, L₂, hL, hp, hk⟩
  | false => exact absurd (Prog.ret.inj hk.of_ret.1) hb

/-- What the environment does to a component. -/
def Seen (R : τ → τ → Prop) (get : τ → σ) (s s' : σ) : Prop :=
  ∃ t t', R t t' ∧ get t = s ∧ get t' = s'

theorem Stretch.zoom {R : τ → τ → Prop} {get : τ → σ} {put : τ → σ → τ} {p : Prog σ α}
    {q : Prog τ α} (hget : ∀ t s, get (put t s) = s) (h : Stretch R (p.zoom get put) t L q t') :
    ∃ p', q = p'.zoom get put ∧ Stretch (Seen R get) p (get t) (L.map get) p' (get t') := by
  induction h with
  | refl => exact ⟨p, rfl, .refl⟩
  | env _ he ih =>
    obtain ⟨p', hq, hp⟩ := ih
    rw [List.map_append]
    exact ⟨p', hq, hp.env ⟨_, _, he, rfl, rfl⟩⟩
  | op _ ih =>
    obtain ⟨p', hq, hp⟩ := ih
    cases p' with
    | ret a => cases hq
    | op u n =>
      obtain ⟨rfl, rfl⟩ := Prog.op.inj hq
      refine ⟨_, rfl, ?_⟩
      rw [List.map_append, List.map_singleton, hget]
      exact hp.op

/-- Where a stretch leads when environment and program only move along a preorder. -/
theorem Stretch.along {r : σ → σ → Prop} [Std.Refl r] [IsTrans σ r] (hR : ∀ s t, R s t → r s t)
    (hp : p.Within r) (h : Stretch R p s L q t) : r s t := by
  have hall : q.Within r ∧ r s t := by
    induction h with
    | refl => exact ⟨hp, Std.Refl.refl _⟩
    | env _ he ih => exact ⟨ih.1, IsTrans.trans _ _ _ ih.2 (hR _ _ he)⟩
    | @op u n L t _ ih =>
      obtain ⟨hu, hn⟩ := ih.1 t
      exact ⟨hn, IsTrans.trans _ _ _ ih.2 hu⟩
  exact hall.2

/-- A run is one of a different environment that makes the same moves as long as `C` holds, when
`C` holds at its end and nothing ever makes it true. -/
theorem Stretch.restrict {C : σ → Prop} (henv : ∀ s t, R s t → C t → C s)
    (hop : p.Within fun s t => C t → C s) (hR : ∀ s t, R s t → C s → R' s t)
    (h : Stretch R p s L q t) (hC : C t) : Stretch R' p s L q t := by
  have hall : (q.Within fun s t => C t → C s) ∧ (C t → Stretch R' p s L q t) := by
    clear hC
    induction h with
    | refl => exact ⟨hop, fun _ => .refl⟩
    | env _ he ih =>
      refine ⟨ih.1, fun hu => ?_⟩
      have ht := henv _ _ he hu
      exact (ih.2 ht).env (hR _ _ he ht)
    | @op u n L t _ ih =>
      obtain ⟨hback, hn⟩ := ih.1 t
      exact ⟨hn, fun hu => (ih.2 (hback hu)).op⟩
  exact hall.2 hC

theorem Stretch.envs (h : Stretch R p s L q t) (hst : Relation.ReflTransGen R t u) :
    ∃ L', Stretch R p s L' q u := by
  induction hst with
  | refl => exact ⟨L, h⟩
  | tail _ hs ih =>
    obtain ⟨L', h'⟩ := ih
    exact ⟨_, h'.env hs⟩

/-- A program executed against an environment that `R` allows, in any number of moves. -/
theorem Stretch.exec_star (he : ∀ s, Relation.ReflTransGen R s (e s)) (p : Prog σ α) (s : σ) :
    ∃ L, Stretch R p s L (.ret (Interleaving.exec e p s).1) (Interleaving.exec e p s).2 := by
  have hall (q : Prog σ α) (L : List σ) (t : σ) (h : Stretch R p s L q t) :
      ∃ L, Stretch R p s L (.ret (Interleaving.exec e q t).1) (Interleaving.exec e q t).2 := by
    induction q generalizing L t with
    | ret a => exact h.envs .refl
    | op u n ih =>
      obtain ⟨L', h'⟩ := h.envs (he t)
      exact ih _ _ _ h'.op
  exact hall p [] s .refl

theorem Stretch.exec (he : ∀ s, R s (e s)) (p : Prog σ α) (s : σ) :
    ∃ L, Stretch R p s L (.ret (Interleaving.exec e p s).1) (Interleaving.exec e p s).2 :=
  Stretch.exec_star (fun t => .single (he t)) p s

/-- Executing a program on a component against an environment that acts on the component as `e'`
does; `F` is what the rest of the state keeps. -/
theorem exec_component (get : τ → σ) (put : τ → σ → τ) (e : τ → τ) (e' : σ → σ) (F : τ → Prop)
    (hget : ∀ t s, get (put t s) = s) (he : ∀ t, get (e t) = e' (get t)) (hFe : ∀ t, F t → F (e t))
    (hFp : ∀ t s, F t → F (put t s)) (p : Prog σ α) (hF : F t) :
    (Interleaving.exec e (p.zoom get put) t).1 = (Interleaving.exec e' p (get t)).1 ∧
      get (Interleaving.exec e (p.zoom get put) t).2 = (Interleaving.exec e' p (get t)).2 ∧
      F (Interleaving.exec e (p.zoom get put) t).2 := by
  induction p generalizing t with
  | ret a => exact ⟨rfl, rfl, hF⟩
  | op u n ih =>
    have hnext := ih (get (e t)) (hFp (e t) (u (get (e t))) (hFe t hF))
    rw [hget, he] at hnext
    simp only [Prog.zoom, Interleaving.exec]
    rw [he]
    exact hnext

end Interleaving
