import Qca9377.Interleaving

namespace Interleaving
set_option autoImplicit true

/-- Access for access, a program does to a component what another one does to it; what it does
beside may take accesses of its own. -/
inductive Covers (get : τ → σ) : Prog τ α → Prog σ α → Prop
  | ret (a : α) : Covers get (.ret a) (.ret a)
  | op (hu : ∀ t, get (u t) = v (get t)) (hn : ∀ t, Covers get (n t) (m (get t))) :
      Covers get (.op u n) (.op v m)
  | beside (hu : ∀ t, get (u t) = get t) (hn : ∀ t, Covers get (n t) q) :
      Covers get (.op u n) q

section Components

variable {get : τ → σ} {put : τ → σ → τ}

theorem Covers.bind {k : α → Prog τ β} {l : α → Prog σ β} (h : Covers get p q)
    (hk : ∀ a, Covers get (k a) (l a)) : Covers get (p.bind k) (q.bind l) := by
  induction h with
  | ret a => exact hk a
  | op hu _ ih => exact .op hu fun t => ih t hk
  | beside hu _ ih => exact .beside hu fun t => ih t hk

theorem covers_zoom (hget : ∀ t s, get (put t s) = s) (p : Prog σ α) :
    Covers get (p.zoom get put) p := by
  induction p with
  | ret a => exact .ret a
  | op u n ih => exact .op (fun t => hget t _) fun t => ih (get t)

/-- Left alone, both return the same and leave the same component. -/
theorem Covers.exec (h : Covers get p q) (t : τ) :
    (exec id p t).1 = (exec id q (get t)).1 ∧ get (exec id p t).2 = (exec id q (get t)).2 := by
  induction h generalizing t with
  | ret a => exact ⟨rfl, rfl⟩
  | op hu _ ih =>
    simp only [exec_op, id_eq, ← hu]
    exact ih t _
  | beside hu _ ih =>
    simp only [exec_op, id_eq]
    rw [← hu t]
    exact ih t _

/-- A program on a component keeps what its updates of the component keep. -/
theorem Safe.beside {R : τ → τ → Prop} {J F : τ → Prop} (hF : Assertion R J F)
    (hput : ∀ t s, F t → F (put t s)) (h : F t) (p : Prog σ α) :
    Safe R J (fun _ _ => True) (fun _ t => F t) (p.zoom get put) t := by
  induction p generalizing t with
  | ret a => exact .ret hF h fun _ hu => hu
  | op u n ih => exact .op hF h (fun _ _ => trivial) fun v hv => ih _ (hput v _ hv)

end Components

end Interleaving
