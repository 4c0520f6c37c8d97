import Qca9377.ResetRuns
import Qca9377.FailedProbe

namespace Qca9377
open Bytes Interleaving
set_option autoImplicit true

/-- The hardware operations of the reset of the chip. -/
inductive ResetOp where
  | wakeTarget
  | coldReset
  | waitForTargetInit
  | resetSi0
  | warmResetCpu
  | clearLfTimer
  | resetCe
  | ensureCE
  deriving DecidableEq, Repr

def ResetOp.hwOp : ResetOp → HwOp
  | .wakeTarget => .wakeTarget
  | .coldReset => .coldReset
  | .waitForTargetInit => .waitForTargetInit
  | .resetSi0 => .resetSi0
  | .warmResetCpu => .warmResetCpu
  | .clearLfTimer => .clearLfTimer
  | .resetCe => .resetCe
  | .ensureCE => .ensureCE

/-- A step of the reset: an operation with its verdict, or something for the outside. -/
inductive ResetStep where
  | run (op : ResetOp)
  | publishStage (text : String)
  | publishNum (key : String) (val : UInt32)
  | postReset
  | qlog (m : ResetLog)
  deriving DecidableEq, Repr

abbrev Steps := Calls ResetStep Bool

namespace Reset

/-- The registers that are published behind a failed first wait. -/
def postReset : Regs Unit := do
  publishNum "postreset-chip-id" (← read32 kSOC_ChipID_Offset)
  publishNum "postreset-bar-reg" (← read32 kPCIe_BARReg_Offset)
  publishNum "postreset-rtc-state" ((← read32 kPCIe_LocalBaseAddress) &&& kRTCStateMaskSt)

/-- An operation without a verdict counts as done. -/
def noVerdict (t : Regs Unit) : Regs Bool := t.bind fun _ => .ret true

def opBlock : ResetOp → Regs Bool
  | .wakeTarget => wakeTarget
  | .coldReset => coldReset
  | .waitForTargetInit => waitForTargetInit
  | .resetSi0 => noVerdict resetSi0
  | .warmResetCpu => noVerdict warmResetCpu
  | .clearLfTimer => noVerdict clearLfTimer
  | .resetCe => noVerdict resetCe
  | .ensureCE => ensureCE

/-- The register accesses of a step. -/
def block : ResetStep → Regs Bool
  | .run op => opBlock op
  | .publishStage text => noVerdict (publishStage text)
  | .publishNum key val => noVerdict (publishNum key val)
  | .postReset => noVerdict postReset
  | .qlog m => noVerdict (qlog m)

def run (op : ResetOp) : Steps Bool := Calls.make (.run op)

/-- Steps without a verdict that matters. -/
def plain : List ResetStep → Steps Unit
  | [] => .ret ()
  | s :: ss => .call s fun _ => plain ss

def warmSteps : Steps Bool := do
  plain [.run .resetSi0, .publishStage "warm-si0", .run .warmResetCpu, .publishStage "warm-cpu"]
  if !(← run .ensureCE) then
    plain [.publishNum "warm-fail" 1, .qlog (.ceInitFailed 1)]
    return false
  plain [.run .waitForTargetInit, .publishStage "warm-wait1", .run .clearLfTimer,
    .publishStage "warm-lf", .run .resetCe, .publishStage "warm-ce", .run .warmResetCpu,
    .publishStage "warm-cpu2"]
  if !(← run .ensureCE) then
    plain [.publishNum "warm-fail" 2, .qlog (.ceInitFailed 2)]
    return false
  if !(← run .waitForTargetInit) then
    plain [.publishNum "warm-fail" 3, .qlog .neverAnnounced]
    return false
  plain [.qlog .warmResetComplete]
  return true

def resetSteps : Steps Bool := do
  plain [.qlog .begin]
  if !(← run .wakeTarget) then
    plain [.publishNum "reset-fail" 1]
    return false
  if !(← run .coldReset) then
    plain [.publishNum "reset-fail" 2]
    return false
  if !(← run .wakeTarget) then
    plain [.publishNum "reset-fail" 3]
    return false
  if !(← run .waitForTargetInit) then
    plain [.qlog .announceFailed, .postReset]
    if ← warmSteps then
      plain [.publishStage "M2-reset"]
      return true
    plain [.publishNum "reset-fail" 4]
    return false
  plain [.publishStage "M2-reset"]
  return true

section Blocks

theorem subst_ret (a : α) : (Calls.ret a : Steps α).subst block = .ret a := rfl

theorem subst_run (op : ResetOp) : (run op).subst block = (opBlock op).bind .ret := rfl

theorem subst_plain_nil : (plain []).subst block = .ret () := rfl

theorem subst_plain_cons (s : ResetStep) (ss : List ResetStep) :
    (plain (s :: ss)).subst block = (block s).bind fun _ => (plain ss).subst block := rfl

theorem warmSteps_subst : warmSteps.subst block = warmReset := by
  simp only [warmSteps, warmReset, Calls.bind_eq_bind, Calls.pure_eq_ret, Calls.subst_bind,
    subst_plain_nil, subst_plain_cons, subst_run, subst_ret, apply_ite (Calls.subst block), block,
    opBlock, noVerdict, Calls.bind_assoc, Calls.ret_bind]

/-- The reset of the chip is its steps, each one carried out on the registers. -/
theorem resetSteps_subst : resetSteps.subst block = resetChip := by
  simp only [resetSteps, resetChip, Calls.bind_eq_bind, Calls.pure_eq_ret, Calls.subst_bind,
    subst_plain_nil, subst_plain_cons, subst_run, subst_ret, apply_ite (Calls.subst block), block,
    opBlock, noVerdict, Calls.bind_assoc, Calls.ret_bind, warmSteps_subst, postReset]

end Blocks

/-- What a step leaves in the log of `start`. -/
def event : ResetStep → Option StartEvent
  | .run op => some (.run 2 op.hwOp)
  | .publishStage text => some (.publishStage text)
  | _ => none

/-- The number that a step publishes of itself. -/
def code : ResetStep → Option (String × UInt32)
  | .publishNum key val => some (key, val)
  | _ => none

/-- What there is to see of the steps. -/
def view (f : ResetStep → Option β) (steps : List (ResetStep × Bool)) : List β :=
  steps.filterMap fun s => f s.1

section Plain

variable {steps l₁ l₂ : List (ResetStep × Bool)} {ss : List ResetStep}

theorem ran_plain (h : Calls.Ran (plain ss) steps u) : steps.map Prod.fst = ss := by
  induction ss generalizing steps with
  | nil =>
    cases h
    rfl
  | cons s ss ih =>
    obtain ⟨r, l, rfl, h'⟩ := Calls.Ran.of_call h
    rw [List.map_cons, ih h']

theorem plain_ran (ss : List ResetStep) : Calls.Ran (plain ss) (ss.map (·, true)) () := by
  induction ss with
  | nil => exact .ret
  | cons s ss ih => exact .call ih

theorem of_plain {k : Unit → Steps α} (h : Calls.Ran ((plain ss).bind k) steps a) :
    ∃ l₁ l₂, steps = l₁ ++ l₂ ∧ l₁.map Prod.fst = ss ∧ Calls.Ran (k ()) l₂ a := by
  obtain ⟨l₁, u, l₂, rfl, h₁, h₂⟩ := h.of_bind
  exact ⟨l₁, l₂, rfl, ran_plain h₁, h₂⟩

theorem of_exit (h : Calls.Ran ((plain ss).bind fun _ => .ret b) steps a) :
    steps.map Prod.fst = ss ∧ a = b := by
  obtain ⟨l₁, l₂, rfl, hss, h₂⟩ := of_plain h
  obtain ⟨rfl, rfl⟩ := h₂.of_ret
  rw [List.append_nil]
  exact ⟨hss, rfl⟩

theorem of_check {fail next : Steps α}
    (h : Calls.Ran ((run op).bind fun ok => if !ok then fail else next) steps a) :
    ∃ l, steps = (.run op, false) :: l ∧ Calls.Ran fail l a ∨
      steps = (.run op, true) :: l ∧ Calls.Ran next l a := by
  obtain ⟨ok, l, rfl, h'⟩ := Calls.Ran.of_call h
  cases ok with
  | false => exact ⟨l, .inl ⟨rfl, h'⟩⟩
  | true => exact ⟨l, .inr ⟨rfl, h'⟩⟩

variable {f : ResetStep → Option β}

theorem view_append : view f (l₁ ++ l₂) = view f l₁ ++ view f l₂ := List.filterMap_append

theorem view_plain (h : steps.map Prod.fst = ss) : view f steps = ss.filterMap f := by
  rw [← h, List.filterMap_map]
  rfl

theorem view_event : view event ((.run op, ok) :: steps) = .run 2 op.hwOp :: view event steps := rfl

theorem view_code : view code ((.run op, ok) :: steps) = view code steps := rfl

end Plain

end Reset

/-- How the operations of one reset turn out. -/
structure ResetVerdicts where
  awakeBefore : Bool
  awakeAfter : Bool
  announced : Bool
  warmCE1 : Bool
  warmCE2 : Bool
  warmAnnounced : Bool

/-- The numbers that are published of a reset that turns out so. -/
def ResetVerdicts.codes (v : ResetVerdicts) : List (String × UInt32) :=
  if !v.awakeBefore then [("reset-fail", 1)]
  else if !v.awakeAfter then [("reset-fail", 3)]
  else if v.announced then []
  else if !v.warmCE1 then [("warm-fail", 1), ("reset-fail", 4)]
  else if !v.warmCE2 then [("warm-fail", 2), ("reset-fail", 4)]
  else if !v.warmAnnounced then [("warm-fail", 3), ("reset-fail", 4)]
  else []

/-- Allocators and a probe that let `ensureCE` turn out so on every object. -/
def EnsureCE.ofVerdict (ok : Bool) : EnsureCE := ⟨⟨ok, ok, ok⟩, ok, ⟨ok, ok, ok⟩⟩

/-- The outcomes with another reset. -/
def Outcomes.withReset (o : Outcomes) (v : ResetVerdicts) : Outcomes :=
  { o with
    awakeBefore := v.awakeBefore
    awakeAfter := v.awakeAfter
    announced := v.announced
    warmCE1 := .ofVerdict v.warmCE1
    warmCE2 := .ofVerdict v.warmCE2
    warmAnnounced := v.warmAnnounced }

namespace QCA9377Driver

@[simp] theorem run_log (stage : Nat) (op : HwOp) (t : QCA9377Driver) :
    (t.run stage op).log = t.log ++ [.run stage op] := rfl

@[simp] theorem publishStage_log (text : String) (t : QCA9377Driver) :
    (t.publishStage text).log = t.log ++ [.publishStage text] := rfl

@[simp] theorem ensureCE_log (e : EnsureCE) (t : QCA9377Driver) :
    (t.ensureCE e).2.log = t.log ++ [.run 2 .ensureCE] := rfl

@[simp] theorem ensureCE_ofVerdict (ok : Bool) (t : QCA9377Driver) :
    (t.ensureCE (.ofVerdict ok)).1 = ok := by
  have hfst := Driver.ensureCE_fst ⟨ok, ok, ok⟩ ok ⟨ok, ok, ok⟩ t.ce
  cases ok with
  | false => exact hfst.trans (Bool.or_false _ ▸ Bool.and_false _)
  | true => exact hfst.trans (Bool.or_true _)

end QCA9377Driver

namespace Reset

/-- A run of the outcome model that ends with this verdict, and logs this. -/
structure Logs (run : Bool × QCA9377Driver) (t : QCA9377Driver) (l : List StartEvent) (ok : Bool) :
    Prop where
  verdict : run.1 = ok
  log : run.2.log = t.log ++ l

section Outcomes

variable {t : QCA9377Driver} {o : Outcomes} {steps : List (ResetStep × Bool)}

theorem warm_logs (h : Calls.Ran warmSteps steps ok) : ∃ ce₁ ce₂ announced,
    (∀ (t : QCA9377Driver) (o : Outcomes), Logs
      (t.warmReset (o.withReset ⟨true, true, false, ce₁, ce₂, announced⟩)) t (view event steps) ok) ∧
    view code steps ++ (if ok then [] else [("reset-fail", 4)]) =
      ResetVerdicts.codes ⟨true, true, false, ce₁, ce₂, announced⟩ := by
  obtain ⟨l₁, l₂, rfl, hss₁, h₂⟩ := of_plain h
  rw [view_append, view_append, view_plain hss₁, view_plain hss₁]
  obtain ⟨l₃, ⟨rfl, h₃⟩ | ⟨rfl, h₃⟩⟩ := of_check h₂
  · obtain ⟨hss₃, rfl⟩ := of_exit h₃
    rw [view_event, view_code, view_plain hss₃, view_plain hss₃]
    refine ⟨false, true, true, fun t o => ⟨?_, ?_⟩, rfl⟩
    · simp [QCA9377Driver.warmReset, Outcomes.withReset]
    · simp [QCA9377Driver.warmReset, Outcomes.withReset, event, ResetOp.hwOp]
  · obtain ⟨l₄, l₅, rfl, hss₄, h₅⟩ := of_plain h₃
    rw [view_event, view_code, view_append, view_append, view_plain hss₄, view_plain hss₄]
    obtain ⟨l₆, ⟨rfl, h₆⟩ | ⟨rfl, h₆⟩⟩ := of_check h₅
    · obtain ⟨hss₆, rfl⟩ := of_exit h₆
      rw [view_event, view_code, view_plain hss₆, view_plain hss₆]
      refine ⟨true, false, true, fun t o => ⟨?_, ?_⟩, rfl⟩
      · simp [QCA9377Driver.warmReset, Outcomes.withReset]
      · simp [QCA9377Driver.warmReset, Outcomes.withReset, event, ResetOp.hwOp]
    · rw [view_event, view_code]
      obtain ⟨l₇, ⟨rfl, h₇⟩ | ⟨rfl, h₇⟩⟩ := of_check h₆
      · obtain ⟨hss₇, rfl⟩ := of_exit h₇
        rw [view_event, view_code, view_plain hss₇, view_plain hss₇]
        refine ⟨true, true, false, fun t o => ⟨?_, ?_⟩, rfl⟩
        · simp [QCA9377Driver.warmReset, Outcomes.withReset]
        · simp [QCA9377Driver.warmReset, Outcomes.withReset, event, ResetOp.hwOp]
      · obtain ⟨hss₇, rfl⟩ := of_exit h₇
        rw [view_event, view_code, view_plain hss₇, view_plain hss₇]
        refine ⟨true, true, true, fun t o => ⟨?_, ?_⟩, rfl⟩
        · simp [QCA9377Driver.warmReset, Outcomes.withReset]
        · simp [QCA9377Driver.warmReset, Outcomes.withReset, event, ResetOp.hwOp]

theorem cold_true (h : Calls.Ran coldReset l ok) : ok = true := by
  obtain ⟨v, l₁, rfl, h₁⟩ := Calls.Ran.of_call h
  obtain ⟨_, l₂, rfl, h₂⟩ := Calls.Ran.of_call h₁
  obtain ⟨_, l₃, rfl, h₃⟩ := Calls.Ran.of_call h₂
  obtain ⟨_, l₄, rfl, h₄⟩ := Calls.Ran.of_call h₃
  obtain ⟨_, l₅, rfl, h₅⟩ := Calls.Ran.of_call h₄
  obtain ⟨_, l₆, rfl, h₆⟩ := Calls.Ran.of_call h₅
  obtain ⟨_, l₇, rfl, h₇⟩ := Calls.Ran.of_call h₆
  exact h₇.of_ret.2

/-- The reset of a chip that is awake and has not announced itself. -/
theorem resetChip_warm (t : QCA9377Driver) (o : Outcomes) (hbefore : o.awakeBefore = true)
    (hafter : o.awakeAfter = true) (hcold : o.announced = false) :
    t.resetChip o =
      let warm := QCA9377Driver.warmReset o ((((t.run 2 .wakeTarget).run 2 .coldReset).run 2
        .wakeTarget).run 2 .waitForTargetInit)
      if warm.1 then (true, warm.2.publishStage "M2-reset") else (false, warm.2) := by
  simp [QCA9377Driver.resetChip, hbefore, hafter, hcold]

theorem reset_logs (h : Calls.Ran resetSteps steps ok)
    (hcold : ∀ r, (.run .coldReset, r) ∈ steps → r = true) : ∃ v : ResetVerdicts,
    (∀ (t : QCA9377Driver) (o : Outcomes),
      Logs (t.resetChip (o.withReset v)) t (view event steps) ok) ∧
    view code steps = v.codes := by
  obtain ⟨l₁, l₂, rfl, hss₁, h₂⟩ := of_plain h
  rw [view_append, view_append, view_plain hss₁, view_plain hss₁]
  obtain ⟨l₃, ⟨rfl, h₃⟩ | ⟨rfl, h₃⟩⟩ := of_check h₂
  · obtain ⟨hss₃, rfl⟩ := of_exit h₃
    rw [view_event, view_code, view_plain hss₃, view_plain hss₃]
    refine ⟨⟨false, true, true, true, true, true⟩, fun t o => ⟨?_, ?_⟩, rfl⟩
    · simp [QCA9377Driver.resetChip, Outcomes.withReset]
    · simp [QCA9377Driver.resetChip, Outcomes.withReset, List.filterMap_cons, event,
        ResetOp.hwOp]
  · rw [view_event, view_code]
    obtain ⟨l₄, ⟨rfl, h₄⟩ | ⟨rfl, h₄⟩⟩ := of_check h₃
    · have hfalse := hcold false
        (List.mem_append_right _ (List.mem_cons_of_mem _ List.mem_cons_self))
      cases hfalse
    · rw [view_event, view_code]
      obtain ⟨l₅, ⟨rfl, h₅⟩ | ⟨rfl, h₅⟩⟩ := of_check h₄
      · obtain ⟨hss₅, rfl⟩ := of_exit h₅
        rw [view_event, view_code, view_plain hss₅, view_plain hss₅]
        refine ⟨⟨true, false, true, true, true, true⟩, fun t o => ⟨?_, ?_⟩, rfl⟩
        · simp [QCA9377Driver.resetChip, Outcomes.withReset]
        · simp [QCA9377Driver.resetChip, Outcomes.withReset, List.filterMap_cons, event,
            ResetOp.hwOp]
      · rw [view_event, view_code]
        obtain ⟨l₆, ⟨rfl, h₆⟩ | ⟨rfl, h₆⟩⟩ := of_check h₅
        · obtain ⟨l₇, l₈, rfl, hss₇, h₈⟩ := of_plain h₆
          obtain ⟨l₉, warm, l₁₀, rfl, h₉, h₁₀⟩ := Calls.Ran.of_bind h₈
          obtain ⟨ce₁, ce₂, announced, hwarm, hcodes⟩ := warm_logs h₉
          rw [view_event, view_code, view_append, view_append, view_append, view_append,
            view_plain hss₇, view_plain hss₇]
          refine ⟨⟨true, true, false, ce₁, ce₂, announced⟩, fun t o => ?_, ?_⟩
          · obtain ⟨hverdict, hlog⟩ := hwarm ((((t.run 2 .wakeTarget).run 2 .coldReset).run 2
              .wakeTarget).run 2 .waitForTargetInit) o
            rw [resetChip_warm t _ rfl rfl rfl]
            cases warm with
            | false =>
              obtain ⟨hss₁₀, rfl⟩ := of_exit h₁₀
              rw [view_plain hss₁₀]
              constructor
              · simp [hverdict]
              · simp [hverdict, hlog, List.filterMap_cons, event, ResetOp.hwOp]
            | true =>
              obtain ⟨hss₁₀, rfl⟩ := of_exit h₁₀
              rw [view_plain hss₁₀]
              constructor
              · simp [hverdict]
              · simp [hverdict, hlog, List.filterMap_cons, event, ResetOp.hwOp]
          · rw [← hcodes]
            cases warm with
            | false =>
              rw [view_plain (of_exit h₁₀).1]
              rfl
            | true =>
              rw [view_plain (of_exit h₁₀).1]
              rfl
        · obtain ⟨hss₆, rfl⟩ := of_exit h₆
          rw [view_event, view_code, view_plain hss₆, view_plain hss₆]
          refine ⟨⟨true, true, true, true, true, true⟩, fun t o => ⟨?_, ?_⟩, rfl⟩
          · simp [QCA9377Driver.resetChip, Outcomes.withReset]
          · simp [QCA9377Driver.resetChip, Outcomes.withReset, List.filterMap_cons, event,
              ResetOp.hwOp]

end Outcomes

end Reset

/-- Every run of the reset on the registers is one of the outcome model, whatever the object: the
same verdict, the same operations and stages in the same order, each operation carried out by its
own register accesses, and the published codes name the operation that has failed. -/
theorem resetChip_refines (h : Reset.resetChip.Ran l ok) : ∃ (v : ResetVerdicts) (steps : _),
    Calls.Expands Reset.block steps l ∧ Reset.view Reset.code steps = v.codes ∧
      ∀ (t : QCA9377Driver) (o : Outcomes), Reset.Logs (t.resetChip (o.withReset v)) t
        (Reset.view Reset.event steps) ok := by
  rw [← Reset.resetSteps_subst] at h
  obtain ⟨steps, hrun, hexp⟩ := Calls.ran_subst.1 h
  obtain ⟨v, hlogs, hcodes⟩ := Reset.reset_logs hrun fun r hr => by
    obtain ⟨l', hl'⟩ := hexp.ran hr
    exact Reset.cold_true hl'
  exact ⟨v, steps, hexp, hcodes, hlogs⟩

/-- A chip that answers every reading with 3. -/
theorem resetChip_refines_answered : ∃ (v : ResetVerdicts) (steps : _),
    Calls.Expands Reset.block steps (Reset.resetChip.made fun _ _ => 3) ∧
      Reset.view Reset.code steps = v.codes ∧
      ∀ (t : QCA9377Driver) (o : Outcomes), Reset.Logs (t.resetChip (o.withReset v)) t
        (Reset.view Reset.event steps) (Reset.resetChip.result fun _ _ => 3) :=
  resetChip_refines (Calls.ran_made _ _)

end Qca9377
