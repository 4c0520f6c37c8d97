import Qca9377.Reset

namespace Qca9377
open Bytes Interleaving
set_option autoImplicit true

/-- Calls that have been made, with their answers. -/
abbrev RegTrace := List (RegCall × UInt32)

def regSocGlobalReset : Nat := kPCIe_LocalBaseAddress + kSocGlobalResetOffset
def regSocResetControl : Nat := kRTC_SOC_BaseAddress + kSocResetControlOffset
def regSocLfTimer : Nat := kRTC_SOC_BaseAddress + kSocLfTimerControl0Offset
def regCoreCtrl : Nat := kSOC_CoreBaseAddress + kSocCoreCtrlOffset

/-- The value that a register has last been read as. -/
def lastRead (offset : Nat) (l : RegTrace) : Option UInt32 :=
  l.reverse.findSome? fun c => if c.1 = .read32 offset then some c.2 else none

/-- The bits of a register that the driver changes. -/
def ownBits (offset : Nat) : UInt32 :=
  if offset = regSocGlobalReset then 1
  else if offset = regSocResetControl then kSocResetCeRstMask ||| kSocResetCpuWarmRstMask
  else if offset = regSocLfTimer then kSocLfTimerEnableMask
  else if offset = regCoreCtrl then kCoreCtrlCpuIntrMask
  else 0

/-- A write to a register that has last been read as `last`: one of two constants, or the value read
with other bits of the driver's own. -/
inductive Allowed (last : Option UInt32) : Nat → UInt32 → Prop
  | wake : Allowed last kPCIe_SOCWake_Offset 1
  | indicator : Allowed last kFWIndicatorAddress 0
  | changed (h : last = some v) (hbits : value &&& ~~~ownBits offset = v &&& ~~~ownBits offset)
      (hown : ownBits offset ≠ 0) : Allowed last offset value

/-- Reset bits that the driver has to release, and how long it holds them. -/
inductive Held : Nat → UInt32 → Nat → Prop
  | global : Held regSocGlobalReset 1 kColdResetDelay_ms
  | ce : Held regSocResetControl kSocResetCeRstMask kWarmResetStep_ms

/-- One bit of a register at most is to be released. -/
theorem Held.unique (h : Held offset bit ms) (h' : Held offset bit' ms') : bit' = bit ∧ ms' = ms := by
  cases h with
  | global =>
    cases h' with
    | global => exact ⟨rfl, rfl⟩
  | ce =>
    cases h' with
    | ce => exact ⟨rfl, rfl⟩

theorem Held.own (h : Held offset bit ms) :
    bit &&& ~~~ownBits offset = 0 ∧ ~~~bit &&& ~~~ownBits offset = ~~~ownBits offset ∧
      ownBits offset ≠ 0 := by
  cases h with
  | global => decide
  | ce => decide

/-- A write that sets such a bit is followed at once by the delay and by the write that takes the
bit back. -/
def TakenBack (last : Option UInt32) (offset : Nat) (value : UInt32) (post : RegTrace) : Prop :=
  ∀ bit ms, Held offset bit ms → value &&& bit ≠ 0 → (∀ v, last = some v → v &&& bit = 0) →
    ∃ b c rest, post = (.IOSleep ms, b) :: (.write32 offset (value &&& ~~~bit), c) :: rest

/-- The driver changes its own bits only, each time in the value that it has just read, and leaves
no reset bit set. -/
structure Careful (l : RegTrace) : Prop where
  allowed : ∀ pre offset value a post, l = pre ++ (.write32 offset value, a) :: post →
    Allowed (lastRead offset pre) offset value
  released : ∀ pre offset value a post, l = pre ++ (.write32 offset value, a) :: post →
    TakenBack (lastRead offset pre) offset value post

/-- What has been read so far, by register. -/
abbrev Seen32 := Nat → Option UInt32

/-- The calls checked one after the other, behind these readings. -/
def Checked (seen : Seen32) : RegTrace → Prop
  | [] => True
  | (.read32 offset, v) :: l => Checked (Function.update seen offset (some v)) l
  | (.write32 offset value, _) :: l =>
    Allowed (seen offset) offset value ∧ TakenBack (seen offset) offset value l ∧ Checked seen l
  | _ :: l => Checked seen l

section Checked

variable {seen seen' : Seen32} {l l₁ l₂ : RegTrace}

/-- More that has been read does no harm. -/
theorem Checked.mono (hseen : ∀ o v, seen o = some v → seen' o = some v) (h : Checked seen l) :
    Checked seen' l := by
  induction l generalizing seen seen' with
  | nil => trivial
  | cons c l ih =>
    obtain ⟨c, a⟩ := c
    cases c with
    | read32 offset =>
      have hupdate (o : Nat) (v : UInt32) (ho : Function.update seen offset (some a) o = some v) :
          Function.update seen' offset (some a) o = some v := by
        by_cases he : o = offset
        · subst he
          rw [Function.update_self] at ho ⊢
          exact ho
        · rw [Function.update_of_ne he] at ho ⊢
          exact hseen o v ho
      exact ih hupdate h
    | write32 offset value =>
      obtain ⟨hallowed, htaken, hrest⟩ := h
      refine ⟨?_, ?_, ih hseen hrest⟩
      · cases hallowed with
        | wake => exact .wake
        | indicator => exact .indicator
        | changed hlast hbits hown => exact .changed (hseen _ _ hlast) hbits hown
      · exact fun bit ms hheld hset hlast => htaken bit ms hheld hset fun v hv =>
          hlast v (hseen _ _ hv)
    | IODelay us => exact ih hseen h
    | IOSleep ms => exact ih hseen h
    | ensureCE => exact ih hseen h
    | publishStage text => exact ih hseen h
    | publishNum key val => exact ih hseen h
    | qlog m => exact ih hseen h

theorem Checked.append (h₁ : Checked seen l₁) (h₂ : Checked (fun _ => none) l₂) :
    Checked seen (l₁ ++ l₂) := by
  induction l₁ generalizing seen with
  | nil =>
    apply h₂.mono
    intro o v hnone
    cases hnone
  | cons c l ih =>
    obtain ⟨c, a⟩ := c
    cases c with
    | read32 offset => exact ih h₁
    | write32 offset value =>
      obtain ⟨hallowed, htaken, hrest⟩ := h₁
      refine ⟨hallowed, fun bit ms hheld hset hlast => ?_, ih hrest⟩
      obtain ⟨b, c, rest, rfl⟩ := htaken bit ms hheld hset hlast
      exact ⟨b, c, rest ++ l₂, rfl⟩
    | IODelay us => exact ih h₁
    | IOSleep ms => exact ih h₁
    | ensureCE => exact ih h₁
    | publishStage text => exact ih h₁
    | publishNum key val => exact ih h₁
    | qlog m => exact ih h₁

theorem lastRead_cons (offset : Nat) (c : RegCall × UInt32) (l : RegTrace) :
    lastRead offset (c :: l) =
      (lastRead offset l).or (if c.1 = .read32 offset then some c.2 else none) := by
  rw [lastRead, List.reverse_cons, List.findSome?_append]
  congr 1
  rw [List.findSome?_singleton]

theorem Checked.at {pre post : RegTrace}
    (h : Checked seen (pre ++ (.write32 offset value, a) :: post)) :
    Allowed ((lastRead offset pre).or (seen offset)) offset value ∧
      TakenBack ((lastRead offset pre).or (seen offset)) offset value post := by
  induction pre generalizing seen with
  | nil => exact ⟨h.1, h.2.1⟩
  | cons c pre ih =>
    obtain ⟨c, b⟩ := c
    have hsame (hc : c ≠ .read32 offset) :
        (lastRead offset ((c, b) :: pre)).or (seen offset) =
          (lastRead offset pre).or (seen offset) := by
      rw [lastRead_cons, if_neg hc, Option.or_none]
    cases c with
    | read32 o =>
      have hread : (lastRead offset ((.read32 o, b) :: pre)).or (seen offset) =
          (lastRead offset pre).or (Function.update seen o (some b) offset) := by
        rw [lastRead_cons, Option.or_assoc]
        congr 1
        by_cases he : o = offset
        · subst he
          rw [if_pos rfl, Function.update_self]
          rfl
        · rw [if_neg (fun hc => he (RegCall.read32.inj hc)), Function.update_of_ne (Ne.symm he)]
          rfl
      rw [hread]
      exact ih h
    | write32 o v =>
      rw [hsame nofun]
      exact ih h.2.2
    | IODelay us =>
      rw [hsame nofun]
      exact ih h
    | IOSleep ms =>
      rw [hsame nofun]
      exact ih h
    | ensureCE =>
      rw [hsame nofun]
      exact ih h
    | publishStage text =>
      rw [hsame nofun]
      exact ih h
    | publishNum key val =>
      rw [hsame nofun]
      exact ih h
    | qlog m =>
      rw [hsame nofun]
      exact ih h

theorem Checked.careful (h : Checked (fun _ => none) l) : Careful l := by
  constructor
  · intro pre offset value a post hl
    subst hl
    have hat := h.at.1
    rwa [Option.or_none] at hat
  · intro pre offset value a post hl
    subst hl
    have hat := h.at.2
    rwa [Option.or_none] at hat

end Checked

/-- Every run passes the check, behind these readings. -/
def Tidy (seen : Seen32) (t : Regs α) : Prop := ∀ l a, t.Ran l a → Checked seen l

/-- Nothing read yet. -/
def unread : Seen32 := fun _ => none

section Tidy

variable {seen : Seen32} {k : UInt32 → Regs α}

theorem tidy_ret (a : α) : Tidy seen (.ret a) := by
  intro l b h
  cases h
  trivial

theorem tidy_read (hk : ∀ v, Tidy (Function.update seen offset (some v)) (k v)) :
    Tidy seen (.call (.read32 offset) k) := by
  intro l b h
  obtain ⟨v, l, rfl, h'⟩ := h.of_call
  exact hk v l b h'

theorem tidy_write (hallowed : Allowed (seen offset) offset value)
    (htaken : ∀ r l b, (k r).Ran l b → TakenBack (seen offset) offset value l)
    (hk : ∀ r, Tidy seen (k r)) : Tidy seen (.call (.write32 offset value) k) := by
  intro l b h
  obtain ⟨r, l, rfl, h'⟩ := h.of_call
  exact ⟨hallowed, htaken r l b h', hk r l b h'⟩

/-- A call that is no access. -/
def RegCall.isAccess : RegCall → Bool
  | .read32 _ => true
  | .write32 _ _ => true
  | _ => false

theorem tidy_call (hc : c.isAccess = false) (hk : ∀ r, Tidy seen (k r)) :
    Tidy seen (.call c k) := by
  intro l b h
  obtain ⟨r, l, rfl, h'⟩ := h.of_call
  have hrest := hk r l b h'
  cases c with
  | read32 => cases hc
  | write32 => cases hc
  | _ => exact hrest

theorem tidy_bind {t : Regs β} {k : β → Regs α} (ht : Tidy seen t) (hk : ∀ b, Tidy unread (k b)) :
    Tidy seen (t.bind k) := by
  intro l b h
  obtain ⟨l₁, a, l₂, rfl, h₁, h₂⟩ := h.of_bind
  exact (ht l₁ a h₁).append (hk a l₂ b h₂)

/-- What reads nothing of its own behind other code. -/
theorem Tidy.behind {t : Regs α} (ht : Tidy unread t) : Tidy seen t := by
  intro l a h
  apply (ht l a h).mono
  intro o v hnone
  cases hnone

theorem Tidy.careful {t : Regs α} (ht : Tidy unread t) (h : t.Ran l a) : Careful l :=
  (ht l a h).careful

end Tidy

namespace Reset

@[simp] theorem order_bind (c : RegCall) (k : Unit → Regs α) :
    (order c).bind k = .call c fun _ => k () := rfl

section Registers

/-- A write that leaves the reset bits as they have been read. -/
theorem takenBack_kept (hbits : ∀ bit ms, Held offset bit ms → value &&& bit = v &&& bit)
    (post : RegTrace) : TakenBack (some v) offset value post := by
  intro bit ms hheld hset hlast
  rw [hbits bit ms hheld, hlast v rfl] at hset
  exact absurd rfl hset

theorem takenBack_free (hfree : offset ≠ regSocGlobalReset ∧ offset ≠ regSocResetControl)
    (last : Option UInt32) (post : RegTrace) : TakenBack last offset value post := by
  intro bit ms hheld
  cases hheld with
  | global => exact absurd rfl hfree.1
  | ce => exact absurd rfl hfree.2

theorem mask_or (v m w : UInt32) (h : m &&& w = 0) : (v ||| m) &&& w = v &&& w := by
  have hdist : (v ||| m) &&& w = (v &&& w) ||| (m &&& w) := by
    apply UInt32.eq_of_toBitVec_eq
    ext i hi
    simp [Bool.and_or_distrib_right]
  rw [hdist, h, UInt32.or_zero]

theorem mask_and (v m w : UInt32) (h : m &&& w = w) : (v &&& m) &&& w = v &&& w := by
  rw [UInt32.and_assoc, h]

end Registers

section Blocks

/-- Orders that are no accesses may stand anywhere. -/
theorem tidy_order {k : Unit → Regs α} (hc : c.isAccess = false) (hk : Tidy unread (k ())) :
    Tidy unread ((order c).bind k) := tidy_call hc fun _ => hk

theorem tidy_ensureCE : Tidy unread ensureCE := tidy_call rfl fun _ => tidy_ret _

theorem tidy_get (offset : Nat) : Tidy unread (read32 offset) := tidy_read fun v => tidy_ret v

theorem tidy_isAwake : Tidy unread isAwake := tidy_read fun _ => tidy_ret _

theorem tidy_pollAwake (elapsed step : Nat) (hstep : 0 < step) :
    Tidy unread (pollAwake elapsed step hstep) := by
  induction elapsed, step, hstep using pollAwake.induct with
  | case1 elapsed step hstep hlt ih =>
    rw [pollAwake, dif_pos hlt]
    apply tidy_bind tidy_isAwake
    intro awake
    cases awake with
    | true => exact tidy_ret true
    | false => exact tidy_call rfl fun _ => ih
  | case2 elapsed step hstep hlt =>
    rw [pollAwake, dif_neg hlt]
    exact tidy_ret false

theorem tidy_wakeTarget : Tidy unread wakeTarget := by
  rw [wakeTarget, write32, Calls.bind_eq_bind, order_bind]
  apply tidy_write .wake
  · intro r l b h
    exact takenBack_free (by decide) _ _
  · intro r
    exact tidy_pollAwake 0 kWakeStepStart_us (by decide)

/-- A register read and written back with other bits of the driver's, none of them to be
released. -/
theorem tidy_modify32 (f : UInt32 → UInt32)
    (hbits : ∀ v, f v &&& ~~~ownBits offset = v &&& ~~~ownBits offset)
    (hown : ownBits offset ≠ 0)
    (hheld : ∀ bit ms, Held offset bit ms → ∀ v, f v &&& bit = v &&& bit) :
    Tidy unread (modify32 offset f) := by
  apply tidy_read
  intro v
  apply tidy_write
  · exact .changed (Function.update_self ..) (hbits v) hown
  · intro r l b h
    rw [Function.update_self]
    exact takenBack_kept (fun bit ms hb => hheld bit ms hb v) l
  · exact fun _ => tidy_ret ()

/-- A bit set, held and released. -/
theorem tidy_pulse {k : UInt32 → Regs α} (hheld : Held offset bit ms) (hlast : seen offset = some v)
    (hw : w = (v ||| bit) &&& ~~~bit) (hk : ∀ r, Tidy seen (k r)) :
    Tidy seen (.call (.write32 offset (v ||| bit)) fun _ => .call (.IOSleep ms) fun _ =>
      .call (.write32 offset w) k) := by
  obtain ⟨hor, hand, hown⟩ := hheld.own
  have hset : (v ||| bit) &&& ~~~ownBits offset = v &&& ~~~ownBits offset := mask_or v bit _ hor
  apply tidy_write
  · exact .changed hlast hset hown
  · intro r l b h bit' ms' hheld' _ _
    obtain ⟨r₁, l₁, rfl, h₁⟩ := Calls.Ran.of_call h
    obtain ⟨r₂, l₂, rfl, h₂⟩ := Calls.Ran.of_call h₁
    obtain ⟨rfl, rfl⟩ := hheld.unique hheld'
    rw [hw]
    exact ⟨_, _, _, rfl⟩
  intro _
  apply tidy_call rfl
  intro _
  apply tidy_write
  · apply Allowed.changed hlast _ hown
    rw [hw, mask_and _ _ _ hand, hset]
  · intro r l b h bit' ms' hheld' hset' _
    obtain ⟨rfl, rfl⟩ := hheld.unique hheld'
    rw [hw, UInt32.and_assoc, UInt32.not_and_self, UInt32.and_zero] at hset'
    exact absurd rfl hset'
  · exact hk

theorem tidy_coldReset : Tidy unread coldReset := by
  apply tidy_read
  intro v
  apply tidy_call rfl
  intro _
  apply tidy_pulse .global (Function.update_self ..) rfl
  intro _
  apply tidy_call rfl
  intro _
  apply tidy_call rfl
  intro _
  exact tidy_ret true

theorem tidy_initTimedOut (last : UInt32) : Tidy unread (initTimedOut last) := by
  apply tidy_order rfl
  apply tidy_order rfl
  exact tidy_ret false

theorem tidy_initSample (elapsed nextSample : Nat) (val : UInt32) :
    Tidy unread (initSample elapsed nextSample val) := by
  rw [initSample]
  split
  · exact tidy_ret nextSample
  · apply tidy_order rfl
    apply tidy_bind (tidy_get _)
    intro rtc
    apply tidy_order rfl
    exact tidy_ret _

theorem tidy_pollInit (n elapsed nextSample : Nat) (last : UInt32) :
    Tidy unread (pollInit n elapsed nextSample last) := by
  induction n generalizing elapsed nextSample last with
  | zero => exact tidy_initTimedOut last
  | succ n ih =>
    rw [pollInit]
    apply tidy_bind (tidy_get _)
    intro val
    split
    · apply tidy_order rfl
      apply tidy_order rfl
      exact tidy_ret true
    · split
      · exact tidy_initTimedOut val
      · apply tidy_bind (tidy_initSample _ _ _)
        intro next
        apply tidy_order rfl
        exact ih _ _ _

theorem tidy_waitForTargetInit : Tidy unread waitForTargetInit :=
  tidy_pollInit _ _ _ _

theorem tidy_resetSi0 : Tidy unread resetSi0 := by
  apply tidy_bind
  · exact tidy_modify32 id (fun v => rfl) (by decide) (fun _ _ _ _ => rfl)
  · exact fun _ => tidy_order rfl (tidy_ret ())

theorem tidy_warmResetCpu : Tidy unread warmResetCpu := by
  apply tidy_write .indicator
  · intro r l b h
    exact takenBack_free (by decide) _ _
  intro _
  apply tidy_modify32
  · exact fun v => mask_or v _ _ (by decide)
  · decide
  · intro bit ms hheld v
    obtain ⟨rfl, -⟩ := Held.ce.unique hheld
    exact mask_or v _ _ (by decide)

theorem tidy_clearLfTimer : Tidy unread clearLfTimer := by
  apply tidy_modify32
  · exact fun v => mask_and v _ _ (by decide)
  · decide
  · intro bit ms hheld
    cases hheld

theorem tidy_resetCe : Tidy unread resetCe := by
  apply tidy_read
  intro v
  apply tidy_pulse .ce (Function.update_self ..)
  · exact (mask_or v _ _ (by decide)).symm
  · exact fun _ => tidy_ret ()

theorem tidy_warmReset : Tidy unread warmReset := by
  apply tidy_bind tidy_resetSi0
  intro _
  apply tidy_order rfl
  apply tidy_bind tidy_warmResetCpu
  intro _
  apply tidy_order rfl
  apply tidy_bind tidy_ensureCE
  intro ok
  cases ok with
  | false =>
    apply tidy_order rfl
    apply tidy_order rfl
    exact tidy_ret false
  | true =>
    apply tidy_bind tidy_waitForTargetInit
    intro _
    apply tidy_order rfl
    apply tidy_bind tidy_clearLfTimer
    intro _
    apply tidy_order rfl
    apply tidy_bind tidy_resetCe
    intro _
    apply tidy_order rfl
    apply tidy_bind tidy_warmResetCpu
    intro _
    apply tidy_order rfl
    apply tidy_bind tidy_ensureCE
    intro ok
    cases ok with
    | false =>
      apply tidy_order rfl
      apply tidy_order rfl
      exact tidy_ret false
    | true =>
      apply tidy_bind tidy_waitForTargetInit
      intro ok
      cases ok with
      | false =>
        apply tidy_order rfl
        apply tidy_order rfl
        exact tidy_ret false
      | true =>
        apply tidy_order rfl
        exact tidy_ret true

theorem tidy_resetChip : Tidy unread resetChip := by
  apply tidy_order rfl
  apply tidy_bind tidy_wakeTarget
  intro awake
  cases awake with
  | false =>
    apply tidy_order rfl
    exact tidy_ret false
  | true =>
    apply tidy_bind tidy_coldReset
    intro cold
    cases cold with
    | false =>
      apply tidy_order rfl
      exact tidy_ret false
    | true =>
      apply tidy_bind tidy_wakeTarget
      intro awake
      cases awake with
      | false =>
        apply tidy_order rfl
        exact tidy_ret false
      | true =>
        apply tidy_bind tidy_waitForTargetInit
        intro announced
        cases announced with
        | true =>
          apply tidy_order rfl
          exact tidy_ret true
        | false =>
          apply tidy_order rfl
          apply tidy_bind (tidy_get _)
          intro chipId
          apply tidy_order rfl
          apply tidy_bind (tidy_get _)
          intro bar
          apply tidy_order rfl
          apply tidy_bind (tidy_get _)
          intro rtc
          apply tidy_order rfl
          apply tidy_bind tidy_warmReset
          intro warm
          cases warm with
          | true =>
            apply tidy_order rfl
            exact tidy_ret true
          | false =>
            apply tidy_order rfl
            exact tidy_ret false

theorem tidy_wakeTargetCpu : Tidy unread wakeTargetCpu := by
  apply tidy_read
  intro v
  apply tidy_write
  · exact .changed (Function.update_self ..) (mask_or v _ _ (by decide)) (by decide)
  · intro r l b h
    exact takenBack_free (by decide) _ _
  · intro _
    exact tidy_call rfl fun _ => tidy_ret ()

end Blocks

end Reset

end Qca9377
