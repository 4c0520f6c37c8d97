import Mathlib.Logic.Relation
import Mathlib.Tactic

namespace Interleaving
set_option autoImplicit true

/-- A sequential program over a shared state. An `op` is one atomic access: it updates the
state, and what follows may depend on the state it found. -/
inductive Prog (σ : Type) (α : Type) where
  | ret (a : α)
  | op (update : σ → σ) (next : σ → Prog σ α)

def Prog.bind : Prog σ α → (α → Prog σ β) → Prog σ β
  | .ret a, k => k a
  | .op u n, k => .op u fun s => (n s).bind k

instance : Monad (Prog σ) where
  pure := .ret
  bind := .bind

def read (f : σ → α) : Prog σ α := .op id fun s => .ret (f s)

def modify (u : σ → σ) : Prog σ Unit := .op u fun _ => .ret ()

@[simp] theorem pure_eq_ret (a : α) : (pure a : Prog σ α) = .ret a := rfl

@[simp] theorem bind_eq_bind (p : Prog σ α) (k : α → Prog σ β) : p >>= k = p.bind k := rfl

@[simp] theorem Prog.ret_bind (a : α) (k : α → Prog σ β) : (Prog.ret a).bind k = k a := rfl

@[simp] theorem Prog.op_bind (u : σ → σ) (n : σ → Prog σ α) (k : α → Prog σ β) :
    (Prog.op u n).bind k = .op u fun s => (n s).bind k := rfl

theorem Prog.bind_assoc (p : Prog σ α) (k : α → Prog σ β) (l : β → Prog σ γ) :
    (p.bind k).bind l = p.bind fun a => (k a).bind l := by
  induction p with
  | ret a => rfl
  | op u n ih => simp only [Prog.op_bind, ih]

/-- What follows a program that returns true or false. -/
theorem Prog.bind_congr {k k' : Bool → Prog σ α} (p : Prog σ Bool) (hfalse : k false = k' false)
    (htrue : k true = k' true) : p.bind k = p.bind k' := by
  congr
  funext ok
  cases ok with
  | false => exact hfalse
  | true => exact htrue

@[simp] theorem read_bind (f : σ → α) (k : α → Prog σ β) :
    (read f).bind k = .op id fun s => k (f s) := rfl

@[simp] theorem modify_bind (u : σ → σ) (k : Unit → Prog σ β) :
    (modify u).bind k = .op u fun _ => k () := rfl

/-- Run a program on a component of a larger state. -/
def Prog.zoom (get : τ → σ) (put : τ → σ → τ) : Prog σ α → Prog τ α
  | .ret a => .ret a
  | .op u n => .op (fun t => put t (u (get t))) fun t => (n (get t)).zoom get put

theorem Prog.zoom_zoom (p : Prog σ α) (get : τ → σ) (put : τ → σ → τ) (get' : υ → τ)
    (put' : υ → τ → υ) : (p.zoom get put).zoom get' put' =
      p.zoom (fun u => get (get' u)) fun u s => put' u (put (get' u) s) := by
  induction p with
  | ret a => rfl
  | op u n ih => simp only [Prog.zoom, ih]

/-- Clients that issue one call at a time, next to an environment that moves on its own. -/
structure System (σ κ ρ : Type) where
  init : σ → Prop
  body : κ → Prog σ ρ
  env : σ → σ → Prop

/-- A call in progress remembers the state it was made in. -/
inductive Config (σ κ ρ : Type) where
  | idle (s : σ)
  | busy (c : κ) (s₀ : σ) (p : Prog σ ρ) (s : σ)

def Config.state : Config σ κ ρ → σ
  | .idle s => s
  | .busy _ _ _ s => s

/-- One step of the environment or of the client; a call may only begin where `guard` allows. -/
inductive Step (S : System σ κ ρ) (guard : κ → σ → Prop) :
    Config σ κ ρ → Config σ κ ρ → Prop
  | envIdle (h : S.env s t) : Step S guard (.idle s) (.idle t)
  | envBusy (h : S.env s t) : Step S guard (.busy c s₀ p s) (.busy c s₀ p t)
  | call (h : guard c s) : Step S guard (.idle s) (.busy c s (S.body c) s)
  | host : Step S guard (.busy c s₀ (.op u n) s) (.busy c s₀ (n s) (u s))
  | finish : Step S guard (.busy c s₀ (.ret r) s) (.idle s)

inductive Reachable (S : System σ κ ρ) (guard : κ → σ → Prop) : Config σ κ ρ → Prop
  | init (h : S.init s) : Reachable S guard (.idle s)
  | step (hr : Reachable S guard a) (h : Step S guard a b) : Reachable S guard b

/-- The guard that allows every call everywhere. -/
def anyCall (_ : κ) (_ : σ) : Prop := True

section Safety

variable {R : σ → σ → Prop} {J : σ → Prop} {G : σ → σ → Prop}

/-- Whatever the environment does in between, `J` holds in every state, every access of the
program respects `G`, and `Q` holds when the program has returned. -/
def Safe (R : σ → σ → Prop) (J : σ → Prop) (G : σ → σ → Prop) (Q : α → σ → Prop) :
    Prog σ α → σ → Prop
  | .ret a, s => ∀ t, Relation.ReflTransGen R s t → J t ∧ Q a t
  | .op u n, s => ∀ t, Relation.ReflTransGen R s t →
      J t ∧ G t (u t) ∧ Safe R J G Q (n t) (u t)

/-- An assertion the environment cannot falsify and that implies the invariant. -/
structure Assertion (R : σ → σ → Prop) (J : σ → Prop) (P : σ → Prop) : Prop where
  step : ∀ ⦃s t⦄, P s → R s t → P t
  inv : ∀ ⦃s⦄, P s → J s

theorem Assertion.star (hP : Assertion R J P) (h : P s) (hst : Relation.ReflTransGen R s t) :
    P t := by
  induction hst with
  | refl => exact h
  | tail _ hs ih => exact hP.step ih hs

theorem Safe.ret (hP : Assertion R J P) (h : P s) (hQ : ∀ t, P t → Q a t) :
    Safe R J G Q (.ret a) s :=
  fun t hst => ⟨hP.inv (hP.star h hst), hQ t (hP.star h hst)⟩

theorem Safe.op (hP : Assertion R J P) (h : P s) (hG : ∀ t, P t → G t (u t))
    (hn : ∀ t, P t → Safe R J G Q (n t) (u t)) : Safe R J G Q (.op u n) s :=
  fun t hst => ⟨hP.inv (hP.star h hst), hG t (hP.star h hst), hn t (hP.star h hst)⟩

theorem Safe.moved (h : Safe R J G Q p s) (hst : R s t) : Safe R J G Q p t := by
  cases p with
  | ret a => exact fun u hu => h u (.head hst hu)
  | op u n => exact fun u hu => h u (.head hst hu)

theorem Safe.inv (h : Safe R J G Q p s) : J s := by
  cases p with
  | ret a => exact (h s .refl).1
  | op u n => exact (h s .refl).1

/-- A program about which nothing is asked. -/
theorem Safe.any (p : Prog σ α) (s : σ) :
    Safe R (fun _ => True) (fun _ _ => True) (fun _ _ => True) p s := by
  induction p generalizing s with
  | ret a => exact fun _ _ => ⟨trivial, trivial⟩
  | op u n ih => exact fun t _ => ⟨trivial, trivial, ih t _⟩

theorem Safe.mono {Q Q' : α → σ → Prop} (h : Safe R J G Q p s) (hJ : ∀ t, J t → J' t)
    (hG : ∀ t u, G t u → G' t u) (hQ : ∀ a t, Q a t → Q' a t) : Safe R J' G' Q' p s := by
  induction p generalizing s with
  | ret a => exact fun t ht => ⟨hJ t (h t ht).1, hQ a t (h t ht).2⟩
  | op u n ih =>
    exact fun t ht => ⟨hJ t (h t ht).1, hG t _ (h t ht).2.1, ih t (h t ht).2.2⟩

/-- An environment that can do less. -/
theorem Safe.antitone (h : Safe R J G Q p s) (hR : ∀ s t, R' s t → R s t) :
    Safe R' J G Q p s := by
  induction p generalizing s with
  | ret a => exact fun t ht => h t (Relation.ReflTransGen.mono hR _ _ ht)
  | op u n ih =>
    intro t ht
    obtain ⟨hJ, hG, hn⟩ := h t (Relation.ReflTransGen.mono hR _ _ ht)
    exact ⟨hJ, hG, ih t hn⟩

theorem Safe.inv_post (h : Safe R J G Q p s) : Safe R J G (fun a t => J t ∧ Q a t) p s := by
  induction p generalizing s with
  | ret a => exact fun t ht => ⟨(h t ht).1, h t ht⟩
  | op u n ih => exact fun t ht => ⟨(h t ht).1, (h t ht).2.1, ih t (h t ht).2.2⟩

theorem Safe.bind {k : α → Prog σ β} (h : Safe R J G (fun a => Safe R J G Q (k a)) p s) :
    Safe R J G Q (p.bind k) s := by
  induction p generalizing s with
  | ret a => exact (h s .refl).2
  | op u n ih => exact fun t ht => ⟨(h t ht).1, (h t ht).2.1, ih t (h t ht).2.2⟩

theorem Safe.map {f : α → β} (h : Safe R J G (fun a => Q (f a)) p s) :
    Safe R J G Q (p.bind fun a => .ret (f a)) s := by
  induction p generalizing s with
  | ret a => exact h
  | op u n ih => exact fun t ht => ⟨(h t ht).1, (h t ht).2.1, ih t (h t ht).2.2⟩

/-- A program on a component keeps whatever the rest of the state satisfies. -/
theorem Safe.zoom (get : τ → σ) (put : τ → σ → τ) (envT : τ → τ → Prop) (F : τ → Prop)
    (hget : ∀ t s, get (put t s) = s)
    (henv : ∀ t t', F t → envT t t' → F t' ∧ Relation.ReflTransGen R (get t) (get t'))
    (hput : ∀ t s, F t → F (put t s)) (hF : F t) (h : Safe R J G Q p (get t)) :
    Safe envT (fun t => J (get t) ∧ F t) (fun t t' => G (get t) (get t') ∧ ∃ s, t' = put t s)
      (fun a t => Q a (get t) ∧ F t) (p.zoom get put) t := by
  have hstar {t t'} (hF : F t) (hst : Relation.ReflTransGen envT t t') :
      F t' ∧ Relation.ReflTransGen R (get t) (get t') := by
    induction hst with
    | refl => exact ⟨hF, .refl⟩
    | tail _ hs ih =>
      obtain ⟨hF', hs'⟩ := henv _ _ ih.1 hs
      exact ⟨hF', ih.2.trans hs'⟩
  induction p generalizing t with
  | ret a =>
    intro t' ht
    obtain ⟨hF', hs⟩ := hstar hF ht
    exact ⟨⟨(h _ hs).1, hF'⟩, (h _ hs).2, hF'⟩
  | op u n ih =>
    intro t' ht
    obtain ⟨hF', hs⟩ := hstar hF ht
    obtain ⟨hJ, hG, hn⟩ := h _ hs
    have he := hget t' (u (get t'))
    exact ⟨⟨hJ, hF'⟩, ⟨by simpa only [he] using hG, _, rfl⟩, ih _ (hput _ _ hF') (he.symm ▸ hn)⟩

/-- A fact that the environment and the program's own accesses keep holds throughout. -/
theorem Safe.keep {I : σ → Prop} (hR : ∀ s t, J s → I s → R s t → I t)
    (hG : ∀ s t, J s → I s → G s t → I t) (hI : I s) (h : Safe R J G Q p s) :
    Safe R (fun t => J t ∧ I t) G (fun a t => Q a t ∧ I t) p s := by
  have hstar {s t} (hJ : ∀ u, Relation.ReflTransGen R s u → J u) (hI : I s)
      (hst : Relation.ReflTransGen R s t) : I t := by
    induction hst with
    | refl => exact hI
    | tail hsu hs ih => exact hR _ _ (hJ _ hsu) ih hs
  induction p generalizing s with
  | ret a =>
    intro t ht
    have hIt := hstar (fun u hu => (h u hu).1) hI ht
    exact ⟨⟨(h t ht).1, hIt⟩, (h t ht).2, hIt⟩
  | op u n ih =>
    intro t ht
    have hIt := hstar (fun u hu => (h u hu).1) hI ht
    obtain ⟨hJ, hG', hn⟩ := h t ht
    exact ⟨⟨hJ, hIt⟩, hG', ih t (hG _ _ hJ hIt hG') hn⟩

/-- Every access of the program takes the state to one that `r` relates it to. -/
def Prog.Within (r : σ → σ → Prop) : Prog σ α → Prop
  | .ret _ => True
  | .op u n => ∀ s, r s (u s) ∧ (n s).Within r

theorem Prog.Within.bind {r : σ → σ → Prop} {p : Prog σ α} {k : α → Prog σ β} (h : p.Within r)
    (hk : ∀ a, (k a).Within r) : (p.bind k).Within r := by
  induction p with
  | ret a => exact hk a
  | op u n ih => exact fun s => ⟨(h s).1, ih s (h s).2⟩

theorem Prog.Within.mono {r r' : σ → σ → Prop} {p : Prog σ α} (h : p.Within r)
    (hr : ∀ s t, r s t → r' s t) : p.Within r' := by
  induction p with
  | ret a => trivial
  | op u n ih => exact fun s => ⟨hr _ _ (h s).1, ih s (h s).2⟩

theorem Prog.Within.zoom {r : σ → σ → Prop} {r' : τ → τ → Prop} {p : Prog σ α}
    {get : τ → σ} {put : τ → σ → τ} (h : p.Within r)
    (hr : ∀ t s, r (get t) s → r' t (put t s)) : (p.zoom get put).Within r' := by
  induction p with
  | ret a => trivial
  | op u n ih => exact fun t => ⟨hr t _ (h _).1, ih _ (h _).2⟩

theorem Prog.within_any (p : Prog σ α) : p.Within fun _ _ => True := by
  induction p with
  | ret a => trivial
  | op u n ih => exact fun s => ⟨trivial, ih s⟩

/-- What environment and program only ever move along a preorder has moved along it by the end. -/
theorem Safe.within {r : σ → σ → Prop} [Std.Refl r] [IsTrans σ r] (hR : ∀ s t, R s t → r s t)
    (hp : p.Within r) (h : Safe R J G Q p s) : Safe R J G (fun a t => Q a t ∧ r s t) p s := by
  have hstar {s t} (hst : Relation.ReflTransGen R s t) : r s t := by
    induction hst with
    | refl => exact refl _
    | tail _ hs ih => exact IsTrans.trans _ _ _ ih (hR _ _ hs)
  induction p generalizing s with
  | ret a => exact fun t ht => ⟨(h t ht).1, (h t ht).2, hstar ht⟩
  | op u n ih =>
    intro t ht
    obtain ⟨hJ, hG, hn⟩ := h t ht
    have hu : r s (u t) := IsTrans.trans _ _ _ (hstar ht) (hp t).1
    exact ⟨hJ, hG, (ih t (hp t).2 hn).mono (fun _ => id) (fun _ _ => id)
      fun a v hv => ⟨hv.1, IsTrans.trans _ _ _ hu hv.2⟩⟩

theorem Safe.and (h : Safe R J G Q p s) (h' : Safe R J' G' Q' p s) :
    Safe R (fun t => J t ∧ J' t) (fun t u => G t u ∧ G' t u) (fun a t => Q a t ∧ Q' a t) p s := by
  induction p generalizing s with
  | ret a =>
    intro t ht
    obtain ⟨hJ, hQ⟩ := h t ht
    obtain ⟨hJ', hQ'⟩ := h' t ht
    exact ⟨⟨hJ, hJ'⟩, hQ, hQ'⟩
  | op u n ih =>
    intro t ht
    obtain ⟨hJ, hG, hn⟩ := h t ht
    obtain ⟨hJ', hG', hn'⟩ := h' t ht
    exact ⟨⟨hJ, hJ'⟩, ⟨hG, hG'⟩, ih t hn hn'⟩

/-- What holds when a program has returned goes on to hold whatever the environment does. -/
theorem Safe.always (h : Safe R J G Q p s) :
    Safe R J G (fun a t => ∀ u, Relation.ReflTransGen R t u → Q a u) p s := by
  induction p generalizing s with
  | ret a => exact fun t ht => ⟨(h t ht).1, fun u hu => (h u (ht.trans hu)).2⟩
  | op u n ih => exact fun t ht => ⟨(h t ht).1, (h t ht).2.1, ih t (h t ht).2.2⟩

end Safety

section Runs

variable {S : System σ κ ρ} {guard : κ → σ → Prop} {I : σ → Prop} {J : κ → σ → σ → Prop}
  {G : σ → σ → Prop} {Post : κ → σ → ρ → σ → Prop}

/-- What an invariant and a contract for each call say about a configuration. -/
def Sound (S : System σ κ ρ) (I : σ → Prop) (J : κ → σ → σ → Prop) (G : σ → σ → Prop)
    (Post : κ → σ → ρ → σ → Prop) : Config σ κ ρ → Prop
  | .idle s => I s
  | .busy c s₀ p s => Safe S.env (J c s₀) G (fun r t => I t ∧ Post c s₀ r t) p s

theorem Reachable.sound (hinit : ∀ s, S.init s → I s) (henv : ∀ s t, I s → S.env s t → I t)
    (hcall : ∀ c s, guard c s → I s →
      Safe S.env (J c s) G (fun r t => I t ∧ Post c s r t) (S.body c) s)
    (h : Reachable S guard a) : Sound S I J G Post a := by
  induction h with
  | init h => exact hinit _ h
  | step _ h ih =>
    cases h with
    | envIdle h => exact henv _ _ ih h
    | envBusy h => exact Safe.moved ih h
    | call h => exact hcall _ _ h ih
    | host => exact (ih _ .refl).2.2
    | finish => exact (ih _ .refl).2.1

theorem Sound.post (h : Sound S I J G Post (.busy c s₀ (.ret r) s)) : Post c s₀ r s :=
  (h s .refl).2.2

/-- Every step of a sound configuration is the environment's, respects `G`, or leaves the
shared state alone. -/
theorem Sound.step (h : Sound S I J G Post a) (hs : Step S guard a b) :
    S.env a.state b.state ∨ G a.state b.state ∨ a.state = b.state := by
  cases hs with
  | envIdle hs => exact .inl hs
  | envBusy hs => exact .inl hs
  | call => exact .inr (.inr rfl)
  | host => exact .inr (.inl (h _ .refl).2.1)
  | finish => exact .inr (.inr rfl)

/-- The state and result of a program when `e` runs before each of its accesses. -/
def exec (e : σ → σ) : Prog σ α → σ → α × σ
  | .ret a, s => (a, s)
  | .op u n, s => exec e (n (e s)) (u (e s))

@[simp] theorem exec_ret (e : σ → σ) (a : α) (s : σ) : exec e (.ret a) s = (a, s) := rfl

@[simp] theorem exec_op (e : σ → σ) (u : σ → σ) (n : σ → Prog σ α) (s : σ) :
    exec e (.op u n) s = exec e (n (e s)) (u (e s)) := rfl

theorem exec_bind (e : σ → σ) (p : Prog σ α) (k : α → Prog σ β) (s : σ) :
    exec e (p.bind k) s = exec e (k (exec e p s).1) (exec e p s).2 := by
  induction p generalizing s with
  | ret a => rfl
  | op u n ih => exact ih _ _

theorem exec_zoom (get : τ → σ) (put : τ → σ → τ) (hgp : ∀ t s, get (put t s) = s)
    (hpp : ∀ t s s', put (put t s) s' = put t s') (hpg : ∀ t, put t (get t) = t) (p : Prog σ α)
    (t : τ) : exec id (p.zoom get put) t =
      ((exec id p (get t)).1, put t (exec id p (get t)).2) := by
  induction p generalizing t with
  | ret a => exact congrArg (a, ·) (hpg t).symm
  | op u n ih =>
    simp only [Prog.zoom, exec_op, id_eq]
    rw [ih, hgp, hpp]

theorem Reachable.envs (h : Reachable S guard (.idle s))
    (hst : Relation.ReflTransGen S.env s t) : Reachable S guard (.idle t) := by
  induction hst with
  | refl => exact h
  | tail _ hs ih => exact ih.step (.envIdle hs)

theorem Reachable.envsBusy (h : Reachable S guard (.busy c s₀ p s))
    (hst : Relation.ReflTransGen S.env s t) : Reachable S guard (.busy c s₀ p t) := by
  induction hst with
  | refl => exact h
  | tail _ hs ih => exact ih.step (.envBusy hs)

theorem Prog.Within.exec {r : σ → σ → Prop} [Std.Refl r] [IsTrans σ r] {p : Prog σ α}
    (h : p.Within r) (s : σ) : r s (Interleaving.exec id p s).2 := by
  induction p generalizing s with
  | ret a => exact refl _
  | op u n ih => exact IsTrans.trans _ _ _ (h s).1 (ih s (h s).2 (u s))

/-- What is left of a call only ever moves the way the call does. -/
theorem Reachable.within {r : σ → σ → Prop} (hbody : ∀ c, (S.body c).Within r)
    (h : Reachable S guard (.busy c s₀ p s)) : p.Within r := by
  generalize ha : Config.busy c s₀ p s = a at h
  induction h generalizing c s₀ p s with
  | init => cases ha
  | step _ hs ih =>
    cases hs with
    | envIdle => cases ha
    | envBusy =>
      cases ha
      exact ih rfl
    | call =>
      cases ha
      exact hbody c
    | host =>
      cases ha
      exact (ih rfl _).2
    | finish => cases ha

/-- Where a call has come from the state it was made in. -/
theorem Reachable.along {r : σ → σ → Prop} [Std.Refl r] [IsTrans σ r]
    (henv : ∀ s t, S.env s t → r s t) (hbody : ∀ c, (S.body c).Within r)
    (h : Reachable S guard (.busy c s₀ p s)) : r s₀ s := by
  generalize ha : Config.busy c s₀ p s = a at h
  induction h generalizing c s₀ p s with
  | init => cases ha
  | step hr hs ih =>
    cases hs with
    | envIdle => cases ha
    | envBusy hs =>
      cases ha
      exact IsTrans.trans _ _ _ (ih rfl) (henv _ _ hs)
    | call =>
      cases ha
      exact refl _
    | host =>
      cases ha
      exact IsTrans.trans _ _ _ (ih rfl) (hr.within hbody _).1
    | finish => cases ha

/-- A run in which the current call is executed against `e` to its end. -/
theorem Reachable.exec (he : ∀ s, Relation.ReflTransGen S.env s (e s))
    (h : Reachable S guard (.busy c s₀ p s)) :
    Reachable S guard (.busy c s₀ (.ret (exec e p s).1) (exec e p s).2) := by
  induction p generalizing s with
  | ret a => exact h
  | op u n ih => exact ih _ ((h.envsBusy (he s)).step .host)

theorem Reachable.alone (h : Reachable S guard (.busy c s₀ p s)) :
    Reachable S guard
      (.busy c s₀ (.ret (Interleaving.exec id p s).1) (Interleaving.exec id p s).2) :=
  h.exec fun _ => .refl

end Runs

end Interleaving
