import Qca9377.Stretches

namespace Interleaving
set_option autoImplicit true

/-- A computation that makes calls and goes on with their answers. -/
inductive Calls (κ ρ α : Type) where
  | ret (a : α)
  | call (c : κ) (k : ρ → Calls κ ρ α)

namespace Calls

def bind : Calls κ ρ α → (α → Calls κ ρ β) → Calls κ ρ β
  | .ret a, k => k a
  | .call c n, k => .call c fun r => (n r).bind k

instance : Monad (Calls κ ρ) where
  pure := .ret
  bind := .bind

def make (c : κ) : Calls κ ρ ρ := .call c .ret

@[simp] theorem pure_eq_ret (a : α) : (pure a : Calls κ ρ α) = .ret a := rfl

@[simp] theorem bind_eq_bind (t : Calls κ ρ α) (k : α → Calls κ ρ β) : t >>= k = t.bind k := rfl

@[simp] theorem ret_bind (a : α) (k : α → Calls κ ρ β) : (Calls.ret a).bind k = k a := rfl

@[simp] theorem make_bind (c : κ) (k : ρ → Calls κ ρ β) : (make c).bind k = .call c k := rfl

theorem bind_assoc (t : Calls κ ρ α) (k : α → Calls κ ρ β) (k' : β → Calls κ ρ γ) :
    (t.bind k).bind k' = t.bind fun a => (k a).bind k' := by
  induction t with
  | ret a => rfl
  | call c n ih => simp only [bind, ih]

/-- What follows a call that is answered with true or false. -/
theorem call_congr {k k' : Bool → Calls κ Bool α} (hfalse : k false = k' false)
    (htrue : k true = k' true) : call c k = call c k' := by
  congr
  funext ok
  cases ok with
  | false => exact hfalse
  | true => exact htrue

/-- The calls that are made, each with its answer, when `o` answers them one after the other. -/
def made (o : Nat → κ → ρ) : Calls κ ρ α → List (κ × ρ)
  | .ret _ => []
  | .call c k => (c, o 0 c) :: (k (o 0 c)).made fun n => o (n + 1)

def result (o : Nat → κ → ρ) : Calls κ ρ α → α
  | .ret a => a
  | .call c k => (k (o 0 c)).result fun n => o (n + 1)

@[simp] theorem made_ret (o : Nat → κ → ρ) (a : α) : (Calls.ret a).made o = [] := rfl

@[simp] theorem result_ret (o : Nat → κ → ρ) (a : α) : (Calls.ret a).result o = a := rfl

theorem result_bind (o : Nat → κ → ρ) (t : Calls κ ρ α) (k : α → Calls κ ρ β) :
    (t.bind k).result o = (k (t.result o)).result fun n => o (n + (t.made o).length) := by
  induction t generalizing o with
  | ret a => rfl
  | call c n ih =>
    simp only [bind, result, made, ih, List.length_cons]
    congr

theorem made_bind (o : Nat → κ → ρ) (t : Calls κ ρ α) (k : α → Calls κ ρ β) :
    (t.bind k).made o =
      t.made o ++ (k (t.result o)).made fun n => o (n + (t.made o).length) := by
  induction t generalizing o with
  | ret a => rfl
  | call c n ih =>
    simp only [bind, result, made, ih, List.length_cons, List.cons_append]
    congr

section Memory

variable (mem : κ → ρ)

/-- What is asked for when the answers only depend on the question, as with a memory. -/
def asked (t : Calls κ ρ α) : List κ := (t.made fun _ => mem).map Prod.fst

def answer (t : Calls κ ρ α) : α := t.result fun _ => mem

@[simp] theorem asked_ret (a : α) : (Calls.ret a : Calls κ ρ α).asked mem = [] := rfl

@[simp] theorem answer_ret (a : α) : (Calls.ret a : Calls κ ρ α).answer mem = a := rfl

@[simp] theorem asked_call (c : κ) (k : ρ → Calls κ ρ α) :
    (call c k).asked mem = c :: (k (mem c)).asked mem := rfl

@[simp] theorem answer_call (c : κ) (k : ρ → Calls κ ρ α) :
    (call c k).answer mem = (k (mem c)).answer mem := rfl

theorem answer_bind (t : Calls κ ρ α) (k : α → Calls κ ρ β) :
    (t.bind k).answer mem = (k (t.answer mem)).answer mem :=
  result_bind _ t k

theorem asked_bind (t : Calls κ ρ α) (k : α → Calls κ ρ β) :
    (t.bind k).asked mem = t.asked mem ++ (k (t.answer mem)).asked mem := by
  rw [asked, made_bind, List.map_append]
  rfl

end Memory

/-- The computation as a program, its calls made with `send`. -/
def run (send : κ → Prog σ ρ) : Calls κ ρ α → Prog σ α
  | .ret a => .ret a
  | .call c k => (send c).bind fun r => (k r).run send

theorem run_bind (send : κ → Prog σ ρ) (t : Calls κ ρ α) (k : α → Calls κ ρ β) :
    (t.bind k).run send = (t.run send).bind fun a => (k a).run send := by
  induction t with
  | ret a => rfl
  | call c n ih => simp only [bind, run, Prog.bind_assoc, ih]

theorem run_within {r : σ → σ → Prop} {send : κ → Prog σ ρ} (hsend : ∀ c, (send c).Within r)
    (t : Calls κ ρ α) : (t.run send).Within r := by
  induction t with
  | ret a => trivial
  | call c k ih => exact (hsend c).bind ih

/-- These calls have been made in this order and have returned these answers, one after the other
along the visited states. -/
inductive MadeIn (R : σ → σ → Prop) (send : κ → Prog σ ρ) :
    σ → List σ → List (κ × ρ) → σ → Prop
  | nil (h : Moves R s L t) : MadeIn R send s L [] t
  | cons (h : Stretch R (send c) s L (.ret r) t) (hrest : MadeIn R send t L' cs u) :
      MadeIn R send s (L ++ L') ((c, r) :: cs) u

/-- The answers `o`, behind a first one. -/
def firstAnswer (r : ρ) (o : Nat → ρ) : Nat → ρ
  | 0 => r
  | n + 1 => o n

/-- A run of the program makes the calls of the computation, for some answers. -/
theorem run_made [Inhabited ρ] {R : σ → σ → Prop} {send : κ → Prog σ ρ} {t : Calls κ ρ α}
    (h : Stretch R (t.run send) s L (.ret a) u) :
    ∃ o : Nat → ρ, a = t.result (fun n _ => o n) ∧ MadeIn R send s L (t.made fun n _ => o n) u := by
  induction t generalizing s L with
  | ret b => exact ⟨fun _ => default, Prog.ret.inj h.of_ret.1, .nil h.of_ret.2⟩
  | call c k ih =>
    obtain ⟨r, s', L₁, L₂, rfl, hsend, hrest⟩ := h.bind_ret
    obtain ⟨o, ha, hmade⟩ := ih r hrest
    exact ⟨firstAnswer r o, ha, .cons hsend hmade⟩

/-- The computation has made these calls with these answers, and has come to this result. -/
inductive Ran : Calls κ ρ α → List (κ × ρ) → α → Prop
  | ret : Ran (.ret a) [] a
  | call (h : Ran (k r) l a) : Ran (.call c k) ((c, r) :: l) a

theorem ran_made (o : Nat → κ → ρ) (t : Calls κ ρ α) : Ran t (t.made o) (t.result o) := by
  induction t generalizing o with
  | ret a => exact .ret
  | call c k ih => exact .call (ih _ _)

theorem Ran.of_ret (h : Ran (.ret a : Calls κ ρ α) l b) : l = [] ∧ b = a := by
  cases h
  exact ⟨rfl, rfl⟩

theorem Ran.of_call {k : ρ → Calls κ ρ α} (h : Ran (.call c k) l b) :
    ∃ r l', l = (c, r) :: l' ∧ Ran (k r) l' b := by
  cases h with
  | call h => exact ⟨_, _, rfl, h⟩

theorem Ran.of_bind {t : Calls κ ρ α} {k : α → Calls κ ρ β} (h : Ran (t.bind k) l b) :
    ∃ l₁ a l₂, l = l₁ ++ l₂ ∧ Ran t l₁ a ∧ Ran (k a) l₂ b := by
  induction t generalizing l with
  | ret a => exact ⟨[], a, l, rfl, .ret, h⟩
  | call c n ih =>
    obtain ⟨r, l', rfl, h'⟩ := Ran.of_call h
    obtain ⟨l₁, a, l₂, rfl, h₁, h₂⟩ := ih r h'
    exact ⟨(c, r) :: l₁, a, l₂, rfl, .call h₁, h₂⟩

theorem Ran.bind {t : Calls κ ρ α} {k : α → Calls κ ρ β} (ht : Ran t l₁ a) (hk : Ran (k a) l₂ b) :
    Ran (t.bind k) (l₁ ++ l₂) b := by
  induction ht with
  | ret => exact hk
  | call _ ih => exact .call (ih hk)

/-- Each call of the computation made by a computation of its own. -/
def subst (impl : κ → Calls κ' ρ' ρ) : Calls κ ρ α → Calls κ' ρ' α
  | .ret a => .ret a
  | .call c k => (impl c).bind fun r => (k r).subst impl

theorem subst_bind (impl : κ → Calls κ' ρ' ρ) (t : Calls κ ρ α) (k : α → Calls κ ρ β) :
    (t.bind k).subst impl = (t.subst impl).bind fun a => (k a).subst impl := by
  induction t with
  | ret a => rfl
  | call c n ih => simp only [bind, subst, ih, bind_assoc]

/-- The calls `l` are those of `steps`, each made by its implementation. -/
inductive Expands (impl : κ → Calls κ' ρ' ρ) : List (κ × ρ) → List (κ' × ρ') → Prop
  | nil : Expands impl [] []
  | cons (h : Ran (impl c) l₁ r) (hrest : Expands impl steps l₂) :
      Expands impl ((c, r) :: steps) (l₁ ++ l₂)

/-- Each call that is expanded has a run of its own. -/
theorem Expands.ran {impl : κ → Calls κ' ρ' ρ} (h : Expands impl steps l) (hc : (c, r) ∈ steps) :
    ∃ l', Ran (impl c) l' r := by
  induction h with
  | nil => cases hc
  | cons h₁ _ ih =>
    cases hc with
    | head => exact ⟨_, h₁⟩
    | tail _ hc => exact ih hc

theorem exists_expands {impl : κ → Calls κ' ρ' ρ} {steps : List (κ × ρ)}
    (h : ∀ s ∈ steps, ∃ l, Ran (impl s.1) l s.2) : ∃ l, Expands impl steps l := by
  induction steps with
  | nil => exact ⟨[], .nil⟩
  | cons s steps ih =>
    obtain ⟨l₁, h₁⟩ := h s List.mem_cons_self
    obtain ⟨l₂, h₂⟩ := ih fun s' hs => h s' (List.mem_cons_of_mem _ hs)
    exact ⟨l₁ ++ l₂, .cons h₁ h₂⟩

/-- The substituted computation runs as the computation does, with each call expanded. -/
theorem ran_subst {impl : κ → Calls κ' ρ' ρ} {t : Calls κ ρ α} :
    Ran (t.subst impl) l a ↔ ∃ steps, Ran t steps a ∧ Expands impl steps l := by
  constructor
  · intro h
    induction t generalizing l with
    | ret b =>
      obtain ⟨rfl, rfl⟩ := h.of_ret
      exact ⟨[], .ret, .nil⟩
    | call c k ih =>
      obtain ⟨l₁, r, l₂, rfl, h₁, h₂⟩ := Ran.of_bind h
      obtain ⟨steps, hrun, hexp⟩ := ih r h₂
      exact ⟨_, .call hrun, .cons h₁ hexp⟩
  · intro h
    obtain ⟨steps, hrun, hexp⟩ := h
    induction hrun generalizing l with
    | ret =>
      cases hexp
      exact .ret
    | call _ ih =>
      cases hexp with
      | cons h₁ h₂ => exact h₁.bind (ih h₂)

/-- Calls that are made in order up to the first that is answered with false. -/
def all : List κ → Calls κ Bool Bool
  | [] => .ret true
  | c :: cs => .call c fun ok => if ok then all cs else .ret false

theorem all_append_bind (cs ds : List κ) (k : Bool → Calls κ Bool α) :
    (all (cs ++ ds)).bind k =
      (all cs).bind fun ok => if ok then (all ds).bind k else k false := by
  induction cs with
  | nil => rfl
  | cons c cs ih =>
    rw [List.cons_append, all, all, bind, bind]
    congr
    funext ok
    cases ok with
    | false => rfl
    | true => exact ih

theorem run_all_append (send : κ → Prog σ Bool) (cs ds : List κ) :
    (all (cs ++ ds)).run send =
      ((all cs).run send).bind fun ok => if ok then (all ds).run send else .ret false := by
  induction cs with
  | nil => rfl
  | cons c cs ih =>
    rw [List.cons_append, all, all, run, run, Prog.bind_assoc]
    congr
    funext ok
    cases ok with
    | false => rfl
    | true => exact ih

/-- All of the calls have been answered with true, or those before the last one made. -/
theorem made_all (o : Nat → κ → Bool) (cs : List κ) :
    ((all cs).result o = true ∧ (all cs).made o = cs.map (·, true)) ∨
      ∃ pre c post, cs = pre ++ c :: post ∧ (all cs).result o = false ∧
        (all cs).made o = pre.map (·, true) ++ [(c, false)] := by
  induction cs generalizing o with
  | nil => exact .inl ⟨rfl, rfl⟩
  | cons c cs ih =>
    simp only [all, result, made]
    cases o 0 c with
    | false => exact .inr ⟨[], c, cs, rfl, rfl, rfl⟩
    | true =>
      rcases ih fun n => o (n + 1) with ⟨hres, hmade⟩ | ⟨pre, d, post, rfl, hres, hmade⟩
      · exact .inl ⟨hres, congrArg ((c, true) :: ·) hmade⟩
      · exact .inr ⟨c :: pre, d, post, rfl, hres, congrArg ((c, true) :: ·) hmade⟩

end Calls

end Interleaving
