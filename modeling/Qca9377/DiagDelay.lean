import Qca9377.Diag
import Qca9377.Polling

namespace Qca9377
open Bytes Interleaving
set_option autoImplicit true

variable {s t : CEDiag} {T : Transfer} {w x : Nat}

/-- No transfer is outstanding. -/
structure CEDiag.AtRest (s : CEDiag) : Prop extends s.Drained, s.Idle where
  drri : s.currentDRRI = s.fDstWrite
  bounce : s.mem.fBounce.length = kDiagMax
  dstWrite_lt : s.fDstWrite < kRingN

def CEDiag.filling (s : CEDiag) : CEDiag :=
  match s.flying with
  | [] => s
  | data :: rest => if s.fillIdx ≠ s.dstWrIndex then s.fill data rest else s

def CEDiag.advancing (s : CEDiag) : CEDiag :=
  if s.currentDRRI ≠ s.dstWrIndex then s.advance else s

def CEDiag.landing (s : CEDiag) : CEDiag :=
  match s.unlanded with
  | [] => s
  | n :: rest => s.land n rest

/-- The accesses of a call before which the engine takes its steps. -/
structure Delays where
  consumed : Nat
  filled : Nat
  advanced : Nat
  landed : Nat

def Delays.script (d : Delays) (n : Nat) (s : CEDiag) : CEDiag :=
  let s := if n = d.consumed then s.consuming else s
  let s := if n = d.filled then s.filling else s
  let s := if n = d.advanced then s.advancing else s
  if n = d.landed then s.landing else s

/-- The engine consumes the source entry while `xfer` polls SRRI, which it does from its seventh
access on, and then advances DRRI before the length has landed. The length lands by the last poll
of DRRI. -/
structure Delays.WithinBudget (d : Delays) : Prop where
  posted : 6 ≤ d.consumed
  sent : d.consumed < 6 + kWaitTimeout_us / kWaitStep_us
  filled : d.consumed ≤ d.filled
  advanced : d.consumed ≤ d.advanced
  data : d.filled ≤ d.landed
  landed : d.advanced ≤ d.landed
  received : d.landed ≤ d.consumed + kWaitTimeout_us / kWaitStep_us

section Script

theorem CEDiag.filling_star (s : CEDiag) :
    Relation.ReflTransGen CEDiag.Engine s s.filling := by
  unfold CEDiag.filling
  split
  · exact .refl
  · next hf =>
    split
    · next hw => exact .single (.fill hf hw)
    · exact .refl

theorem CEDiag.advancing_star (s : CEDiag) :
    Relation.ReflTransGen CEDiag.Engine s s.advancing := by
  unfold CEDiag.advancing
  split
  · next hw => exact .single (.advance hw)
  · exact .refl

theorem CEDiag.landing_star (s : CEDiag) :
    Relation.ReflTransGen CEDiag.Engine s s.landing := by
  unfold CEDiag.landing
  split
  · exact .refl
  · next hu => exact .single (.land hu)

/-- Whatever the delays, only the engine moves. -/
theorem Delays.script_star (d : Delays) (n : Nat) (s : CEDiag) :
    Relation.ReflTransGen CEDiag.Engine s (d.script n s) := by
  have hif {p : Prop} [Decidable p] {f : CEDiag → CEDiag} (s : CEDiag)
      (hf : Relation.ReflTransGen CEDiag.Engine s (f s)) :
      Relation.ReflTransGen CEDiag.Engine s (if p then f s else s) := by
    split
    · exact hf
    · exact .refl
  exact (hif s s.consuming_star).trans ((hif _ (CEDiag.filling_star _)).trans
    ((hif _ (CEDiag.advancing_star _)).trans (hif _ (CEDiag.landing_star _))))

/-- Before the first step of the engine. -/
theorem Delays.WithinBudget.quiet {d : Delays} (hd : d.WithinBudget) (hn : n < d.consumed) :
    d.script n s = s := by
  have hf := hd.filled
  have ha := hd.advanced
  have hl := hd.landed
  simp only [Delays.script]
  rw [if_neg (by omega), if_neg (by omega), if_neg (by omega), if_neg (by omega)]

end Script

/-- A transfer of which only the length matters. -/
def anyTransfer (post send : DiagAddr) (hlen : len ≤ kDiagMax) : Transfer where
  post := post
  send := send
  len := len
  ready := fun m => m.fBounce.length = kDiagMax
  good := fun data _ => data.length = len
  done := fun _ => True
  ready_kept := fun _ _ h => h
  good_kept := fun _ _ _ h => h
  done_kept := fun _ _ h => h
  fetch := by
    intro m hm
    cases send with
    | bounce => exact (List.length_take_of_le (hlen.trans_eq hm.symm))
    | target ceAddr =>
      simp only [DiagMem.dmaRead, bytesAt, List.length_map, List.length_range]
  length := fun _ _ h => h
  fill := fun _ _ _ => trivial

theorem Transfer.Outstanding.star (h : T.Outstanding w x s)
    (hst : Relation.ReflTransGen CEDiag.Engine s t) : T.Outstanding w x t :=
  (outstanding_assertion T w x).star h hst

/-- Data on its way has the length that was asked for. -/
theorem Transfer.Outstanding.flying_length (h : T.Outstanding w x s) (hf : s.flying = [data]) :
    data.length = T.len := by
  cases h.stage with
  | consumed hat hm =>
    obtain rfl := List.singleton_inj.1 (hat.flying.symm.trans hf)
    exact T.length _ _ hm
  | queued hat => exact absurd (hat.flying.symm.trans hf) nofun
  | fetched hat => exact absurd (hat.flying.symm.trans hf) nofun
  | filled hat => exact absurd (hat.flying.symm.trans hf) nofun
  | landed hat => exact absurd (hat.flying.symm.trans hf) nofun

/-- How many of its three steps with the data the engine has taken. -/
inductive CEDiag.Phase (w x len : Nat) (s : CEDiag) : Nat → Prop
  | queued (h : s.At w none x [] w [] w 0) : Phase w x len s 0
  | consumed (h : s.At w none ((x + 1) % kRingN) [data] w [] w 0) : Phase w x len s 1
  | filled (h : s.At w none ((x + 1) % kRingN) [] ((w + 1) % kRingN) [len] w 0) : Phase w x len s 2
  | landed (h : s.At w none ((x + 1) % kRingN) [] ((w + 1) % kRingN) [] ((w + 1) % kRingN) len) :
      Phase w x len s 3

theorem succ_mod_ne (x : Nat) : x ≠ (x + 1) % kRingN := by
  rw [kRingN]
  omega

theorem Transfer.Outstanding.consuming (h : T.Outstanding w x s)
    (hp : s.Phase w x T.len 0) : s.consuming.Phase w x T.len 1 := by
  cases hp with
  | queued hp =>
    have hne : s.currentSRRI ≠ s.srWrIndex := by
      rw [hp.srri, h.srWrIndex]
      exact succ_mod_ne x
    rw [CEDiag.consuming, if_pos ⟨hp.fetched, hne⟩]
    have hsrri : (s.currentSRRI + 1) % kRingN = (x + 1) % kRingN := by rw [hp.srri]
    have hflying : s.flying ++ [s.mem.dmaRead (s.fSrcDesc s.currentSRRI)] =
        [s.mem.dmaRead (s.fSrcDesc s.currentSRRI)] := by rw [hp.flying, List.nil_append]
    exact .consumed ⟨rfl, hsrri, hflying, hp.fill, hp.unlanded, hp.land, hp.nbytes⟩

theorem Transfer.Outstanding.filling (h : T.Outstanding w x s)
    (hp : s.Phase w x T.len 1) : s.filling.Phase w x T.len 2 := by
  cases hp with
  | consumed hp =>
    have hne : s.fillIdx ≠ s.dstWrIndex := by
      rw [hp.fill, h.dstWrIndex]
      exact succ_mod_ne w
    simp only [CEDiag.filling, hp.flying, if_pos hne]
    refine .filled ⟨hp.fetched, hp.srri, rfl, ?_, ?_, hp.land, hp.nbytes⟩
    · rw [CEDiag.fill, hp.fill]
    · rw [CEDiag.fill, hp.unlanded, h.flying_length hp.flying, List.nil_append]

theorem CEDiag.Phase.landing (hp : s.Phase w x len 2) : s.landing.Phase w x len 3 := by
  cases hp with
  | filled hp =>
    simp only [CEDiag.landing, hp.unlanded]
    refine .landed ⟨hp.fetched, hp.srri, hp.flying, hp.fill, rfl, ?_, ?_⟩
    · rw [CEDiag.land, hp.land]
    · simp only [CEDiag.land, hp.land, Function.update_self]

theorem CEDiag.Phase.advancing (hp : s.Phase w x len k) : s.advancing.Phase w x len k := by
  unfold CEDiag.advancing
  split
  · cases hp with
    | queued h => exact .queued ⟨h.1, h.2, h.3, h.4, h.5, h.6, h.7⟩
    | consumed h => exact .consumed ⟨h.1, h.2, h.3, h.4, h.5, h.6, h.7⟩
    | filled h => exact .filled ⟨h.1, h.2, h.3, h.4, h.5, h.6, h.7⟩
    | landed h => exact .landed ⟨h.1, h.2, h.3, h.4, h.5, h.6, h.7⟩
  · exact hp

theorem CEDiag.Phase.srri (hp : s.Phase w x len k) :
    s.currentSRRI = if k = 0 then x else (x + 1) % kRingN := by
  cases hp with
  | queued h => exact h.srri
  | consumed h => exact h.srri
  | filled h => exact h.srri
  | landed h => exact h.srri

theorem CEDiag.Phase.nbytes (hp : s.Phase w x len k) :
    (s.fDstDesc w).nbytes = if k = 3 then len else 0 := by
  cases hp with
  | queued h => exact h.nbytes
  | consumed h => exact h.nbytes
  | filled h => exact h.nbytes
  | landed h => exact h.nbytes

theorem CEDiag.consuming_drri (s : CEDiag) : s.consuming.currentDRRI = s.currentDRRI := by
  unfold CEDiag.consuming
  split
  · rfl
  · rfl

theorem CEDiag.filling_drri (s : CEDiag) : s.filling.currentDRRI = s.currentDRRI := by
  unfold CEDiag.filling
  split
  · rfl
  · split
    · rfl
    · rfl

theorem CEDiag.landing_drri (s : CEDiag) : s.landing.currentDRRI = s.currentDRRI := by
  unfold CEDiag.landing
  split
  · rfl
  · rfl

/-- A transfer is outstanding, the engine has taken `k` of its steps with the data, and DRRI shows
`i`. -/
structure Transfer.Located (T : Transfer) (w x k i : Nat) (s : CEDiag) : Prop where
  outstanding : T.Outstanding w x s
  phase : s.Phase w x T.len k
  drri : s.currentDRRI = i

theorem Transfer.Located.consuming (h : T.Located w x k i s) {p : Prop} [Decidable p]
    (hp : p → k = 0) :
    T.Located w x (if p then 1 else k) i (if p then s.consuming else s) := by
  split
  · next hyes =>
    obtain rfl := hp hyes
    exact ⟨h.outstanding.star s.consuming_star, h.outstanding.consuming h.phase,
      s.consuming_drri.trans h.drri⟩
  · exact h

theorem Transfer.Located.filling (h : T.Located w x k i s) {p : Prop} [Decidable p]
    (hp : p → k = 1) :
    T.Located w x (if p then 2 else k) i (if p then s.filling else s) := by
  split
  · next hyes =>
    obtain rfl := hp hyes
    exact ⟨h.outstanding.star s.filling_star, h.outstanding.filling h.phase,
      s.filling_drri.trans h.drri⟩
  · exact h

theorem Transfer.Located.landing (h : T.Located w x k i s) {p : Prop} [Decidable p]
    (hp : p → k = 2) :
    T.Located w x (if p then 3 else k) i (if p then s.landing else s) := by
  split
  · next hyes =>
    obtain rfl := hp hyes
    exact ⟨h.outstanding.star s.landing_star, h.phase.landing, s.landing_drri.trans h.drri⟩
  · exact h

theorem Transfer.Located.advancing (h : T.Located w x k i s) {p : Prop} [Decidable p]
    (hp : p → i = w) :
    T.Located w x k (if p then (w + 1) % kRingN else i) (if p then s.advancing else s) := by
  split
  · next hyes =>
    obtain rfl := hp hyes
    refine ⟨h.outstanding.star s.advancing_star, h.phase.advancing, ?_⟩
    have hne : s.currentDRRI ≠ s.dstWrIndex := by
      rw [h.drri, h.outstanding.dstWrIndex]
      exact succ_mod_ne i
    rw [CEDiag.advancing, if_pos hne, CEDiag.advance, h.drri]
  · exact h

/-- How many steps with the data come before the `n`-th access. -/
def Delays.taken (d : Delays) (n : Nat) : Nat :=
  if d.landed ≤ n then 3 else if d.filled ≤ n then 2 else if d.consumed ≤ n then 1 else 0

def Delays.drri (d : Delays) (w n : Nat) : Nat := if d.advanced ≤ n then (w + 1) % kRingN else w

/-- What the `n`-th access of a call finds. -/
def Delays.Finds (d : Delays) (T : Transfer) (w x n : Nat) (s : CEDiag) : Prop :=
  T.Located w x (d.taken n) (d.drri w n) s

theorem Delays.Finds.step {d : Delays} (hd : d.WithinBudget) (h : d.Finds T w x n s) :
    d.Finds T w x (n + 1) (d.script (n + 1) s) := by
  have hf := hd.filled
  have hl := hd.data
  have h₁ := h.consuming (p := n + 1 = d.consumed) fun hn => by
    simp only [Delays.taken]
    rw [if_neg (by omega), if_neg (by omega), if_neg (by omega)]
  have h₂ := h₁.filling (p := n + 1 = d.filled) fun hn => by
    simp only [Delays.taken]
    split_ifs
    all_goals omega
  have h₃ := h₂.advancing (p := n + 1 = d.advanced) fun hn => if_neg (by omega)
  have h₄ := h₃.landing (p := n + 1 = d.landed) fun hn => by
    simp only [Delays.taken]
    split_ifs
    all_goals omega
  have htaken : (if n + 1 = d.landed then 3 else if n + 1 = d.filled then 2 else
      if n + 1 = d.consumed then 1 else d.taken n) = d.taken (n + 1) := by
    simp only [Delays.taken]
    split_ifs
    all_goals omega
  have hdrri : (if n + 1 = d.advanced then (w + 1) % kRingN else d.drri w n) =
      d.drri w (n + 1) := by
    simp only [Delays.drri]
    split_ifs
    all_goals first | rfl | omega
  rw [htaken, hdrri] at h₄
  exact h₄

section Polls

/-- What `done` decides. -/
def lookFor (done : CEDiag → Bool) (s : CEDiag) : Option Unit := if done s then some () else none

theorem pollDiag_eq (done : CEDiag → Bool) (n : Nat) : pollDiag done n =
    (pollFor id (lookFor done) n).bind fun seen => .ret seen.isSome := by
  induction n with
  | zero => rfl
  | succ n ih =>
    simp only [pollDiag, pollFor, read_bind, bind_eq_bind, Prog.op_bind, pure_eq_ret]
    congr 1
    funext s
    by_cases hs : done s = true
    · simp only [lookFor, if_pos hs]
      rfl
    · simp only [lookFor, if_neg hs]
      exact ih

theorem pollDiag_along {e : Nat → CEDiag → CEDiag} (done : CEDiag → Bool) (hi : i < n)
    (h : FirstAt (fun k => done (foundAt e id s k) = true) i) :
    along e (pollDiag done n) s = (true, foundAt e id s i) ∧
      (found e (pollDiag done n) s).length = i + 1 := by
  have hbefore : ∀ k < i, lookFor done (foundAt e id s k) = none := fun k hk => if_neg (h.2 k hk)
  have hat : lookFor done (foundAt e id s i) = some () := if_pos h.1
  obtain ⟨hret, hseen⟩ := pollFor_some hi hbefore hat
  rw [pollDiag_eq, along_bind, found_bind, hret, hseen]
  refine ⟨rfl, ?_⟩
  rw [List.length_append, List.length_map, List.length_range]
  rfl

end Polls

/-- SRRI shows the write index. -/
def CEDiag.caughtUp (s : CEDiag) : Bool := s.currentSRRI % kRingN == s.fSrcWrite

/-- DRRI shows another entry than the one to be taken next. -/
def CEDiag.moved (s : CEDiag) : Bool := s.currentDRRI % kRingN != s.fDstSw

variable {d : Delays}

theorem Delays.Finds.after (hd : d.WithinBudget) (h : d.Finds T w x m s) (k : Nat) :
    d.Finds T w x (k + (m + 1)) (foundAt (later (m + 1) d.script) id s k) := by
  refine foundAt_induct (P := fun k t => d.Finds T w x (k + (m + 1)) t) ?_ ?_ k
  · rw [later, Nat.zero_add]
    exact h.step hd
  · intro k t ht
    rw [later, Nat.add_right_comm]
    exact ht.step hd

theorem Delays.Finds.caughtUp (h : d.Finds T w x n s) (hd : d.WithinBudget) :
    s.caughtUp = true ↔ d.consumed ≤ n := by
  have hf := hd.filled
  have hl := hd.data
  have hw : s.fSrcWrite = (x + 1) % kRingN :=
    h.outstanding.idle.src.symm.trans h.outstanding.srWrIndex
  have htaken : d.taken n = 0 ↔ n < d.consumed := by
    simp only [Delays.taken]
    constructor
    · intro h
      split_ifs at h
      omega
    · intro hn
      rw [if_neg (by omega), if_neg (by omega), if_neg (by omega)]
  rw [CEDiag.caughtUp, beq_iff_eq, hw, h.phase.srri]
  by_cases hn : n < d.consumed
  · rw [if_pos (htaken.2 hn)]
    refine ⟨fun hmod => absurd hmod ?_, fun hle => absurd hn (Nat.not_lt.2 hle)⟩
    rw [← Nat.mod_add_mod]
    exact succ_mod_ne (x % kRingN)
  · rw [if_neg (mt htaken.1 hn), Nat.mod_mod]
    exact ⟨fun _ => not_lt.1 hn, fun _ => rfl⟩

theorem Delays.Finds.moved (h : d.Finds T w x n s) (hw : w < kRingN) :
    s.moved = true ↔ d.advanced ≤ n := by
  rw [CEDiag.moved, bne_iff_ne, h.drri, h.outstanding.taken, Delays.drri]
  have hne := succ_mod_ne w
  split
  · next ha =>
    rw [Nat.mod_mod]
    exact ⟨fun _ => ha, fun _ => hne.symm⟩
  · next ha =>
    rw [Nat.mod_eq_of_lt hw]
    exact ⟨fun h => absurd rfl h, fun h => absurd h ha⟩

theorem Delays.Finds.nbytes (h : d.Finds T w x n s) :
    (s.fDstDesc s.fDstSw).nbytes = if d.landed ≤ n then T.len else 0 := by
  have htaken : d.taken n = 3 ↔ d.landed ≤ n := by
    simp only [Delays.taken]
    constructor
    · intro h
      by_contra hn
      rw [if_neg hn] at h
      split_ifs at h
      all_goals omega
    · exact fun hn => if_pos hn
  rw [h.outstanding.taken, h.phase.nbytes]
  exact if_congr htaken rfl rfl

/-- The end of `xfer`: it takes the entry that DRRI has passed. -/
def takeDone (len : Nat) : Prog CEDiag Bool :=
  .op id fun s => .op CEDiag.stepSw fun _ =>
    if (s.fDstDesc s.fDstSw).nbytes ≠ len % 2 ^ 16 then
      .op (CEDiag.log (.completedNbytes (s.fDstDesc s.fDstSw).nbytes len)) fun _ => .ret false
    else .ret true

/-- The part of `xfer` from the receive wait on. -/
def awaitMoved (len : Nat) : Prog CEDiag Bool :=
  (pollDiag CEDiag.moved (kWaitTimeout_us / kWaitStep_us)).bind fun completed =>
    if (!completed) = true then
      .op id fun s => .op (CEDiag.log (.recvCompletionTimeout (s.currentDRRI % kRingN) s.fDstSw))
        fun _ => .ret false
    else takeDone len

/-- The part of `xfer` from the send wait on. -/
def awaitCaughtUp (len : Nat) : Prog CEDiag Bool :=
  (pollDiag CEDiag.caughtUp (kWaitTimeout_us / kWaitStep_us)).bind fun sent =>
    if (!sent) = true then
      .op id fun s => .op (CEDiag.log (.sendCompletionTimeout (s.currentSRRI % kRingN) s.fSrcWrite))
        fun _ => .ret false
    else awaitMoved len

/-- The call has returned true and has taken the entry `w`. -/
def Took (w : Nat) (r : Bool × CEDiag) : Prop := r.1 = true ∧ r.2.fDstSw = (w + 1) % kRingN

theorem Delays.Finds.takes (h : d.Finds T w x n s) (hd : d.WithinBudget) (hlen : T.len ≤ kDiagMax)
    (hpos : 0 < T.len) :
    Took w (along (later (n + 1) d.script) (takeDone T.len) s) ↔ d.landed ≤ n + 1 := by
  have hread := h.step hd
  have hsmall : T.len % 2 ^ 16 = T.len := by
    rw [kDiagMax] at hlen
    omega
  simp only [takeDone, along_op, later_later, later, Nat.zero_add, hread.nbytes, hsmall, id_eq]
  by_cases hl : d.landed ≤ n + 1
  · rw [if_pos hl, if_neg (not_not.2 rfl)]
    have htaken := (hread.step hd).outstanding.taken
    rw [Nat.add_comm (n + 1)] at htaken
    refine ⟨fun _ => hl, fun _ => ⟨rfl, ?_⟩⟩
    exact congrArg (fun sw => (sw + 1) % kRingN) htaken
  · rw [if_neg hl, if_pos (Nat.ne_of_lt hpos)]
    exact ⟨fun h => absurd h.1 Bool.false_ne_true, fun h => absurd h hl⟩

/-- The access in which `xfer` sees that DRRI has moved; the next one reads the descriptor. -/
def Delays.seen (d : Delays) : Nat := max d.advanced (d.consumed + 1)

theorem Delays.Finds.receives (h : d.Finds T w x d.consumed s) (hd : d.WithinBudget)
    (hw : w < kRingN) (hlen : T.len ≤ kDiagMax) (hpos : 0 < T.len) :
    Took w (along (later (d.consumed + 1) d.script) (awaitMoved T.len) s) ↔
      d.landed ≤ d.seen + 1 := by
  have hseen : d.consumed + 1 ≤ d.seen := Nat.le_max_right _ _
  have hbudget : d.seen ≤ d.consumed + kWaitTimeout_us / kWaitStep_us := by
    refine max_le (hd.landed.trans hd.received) ?_
    exact Nat.add_le_add_left (by decide) _
  have hfirst : FirstAt (fun k => (foundAt (later (d.consumed + 1) d.script) id s k).moved = true)
      (d.seen - (d.consumed + 1)) := by
    refine ⟨((h.after hd _).moved hw).2 ?_, fun k hk hs => ?_⟩
    · rw [Nat.sub_add_cancel hseen]
      exact Nat.le_max_left _ _
    · have hle := ((h.after hd k).moved hw).1 hs
      rw [Delays.seen] at hk
      omega
  have hat := h.after hd (d.seen - (d.consumed + 1))
  rw [Nat.sub_add_cancel hseen] at hat
  have hearly : d.seen - (d.consumed + 1) < kWaitTimeout_us / kWaitStep_us := by omega
  obtain ⟨hret, hcount⟩ := pollDiag_along _ hearly hfirst
  rw [awaitMoved, along_bind, hret, hcount, later_later, Nat.add_right_comm,
    Nat.sub_add_cancel hseen]
  exact hat.takes hd hlen hpos

theorem Delays.Finds.sends (h : d.Finds T w x 5 s) (hd : d.WithinBudget) (hw : w < kRingN)
    (hlen : T.len ≤ kDiagMax) (hpos : 0 < T.len) :
    Took w (along (later 6 d.script) (awaitCaughtUp T.len) s) ↔ d.landed ≤ d.seen + 1 := by
  have hposted := hd.posted
  have hsent := hd.sent
  have hfirst : FirstAt (fun k => (foundAt (later 6 d.script) id s k).caughtUp = true)
      (d.consumed - 6) := by
    refine ⟨((h.after hd _).caughtUp hd).2 (by omega), fun k hk hs => ?_⟩
    have hle := ((h.after hd k).caughtUp hd).1 hs
    omega
  have hat := h.after hd (d.consumed - 6)
  rw [Nat.sub_add_cancel hposted] at hat
  have hearly : d.consumed - 6 < kWaitTimeout_us / kWaitStep_us := by omega
  obtain ⟨hret, hcount⟩ := pollDiag_along _ hearly hfirst
  rw [awaitCaughtUp, along_bind, hret, hcount, later_later, Nat.add_right_comm,
    Nat.sub_add_cancel hposted]
  exact hat.receives hd hw hlen hpos

/-- Before the engine takes its first step, a transfer is posted undisturbed. -/
theorem Delays.WithinBudget.posts (hd : d.WithinBudget) (s : CEDiag) (T : Transfer) :
    along d.script (CEDiag.xfer T.post T.send T.len) s =
      along (later 6 d.script) (awaitCaughtUp T.len) (s.posting T).ringSrc := by
  have hposted := hd.posted
  have hquiet (k : Nat) (hk : k < 6) (t : CEDiag) : later k d.script 0 t = t := by
    rw [later, Nat.zero_add]
    exact hd.quiet (hk.trans_le hposted)
  have hxfer : CEDiag.xfer T.post T.send T.len =
      .op (CEDiag.writeDst T.post) fun _ => .op CEDiag.stepDst fun _ => .op CEDiag.ringDst fun _ =>
        .op (CEDiag.writeSrc T.send T.len) fun _ => .op CEDiag.stepSrc fun _ =>
          .op CEDiag.ringSrc fun _ => awaitCaughtUp T.len := rfl
  have hfirst : d.script 0 s = s := hd.quiet (by omega)
  rw [hxfer, along_op, along_op, along_op, along_op, along_op, along_op, hfirst]
  simp only [later_later, Nat.reduceAdd]
  rw [hquiet 1 (by decide), hquiet 2 (by decide), hquiet 3 (by decide), hquiet 4 (by decide),
    hquiet 5 (by decide)]
  rfl

theorem CEDiag.AtRest.finds (h : s.AtRest) (hd : d.WithinBudget) (post send : DiagAddr)
    (hlen : len ≤ kDiagMax) :
    d.Finds (anyTransfer post send hlen) s.fDstWrite s.fSrcWrite 5
      (s.posting (anyTransfer post send hlen)).ringSrc := by
  have hposted := hd.posted
  have hf := hd.filled
  have ha := hd.advanced
  have hl := hd.landed
  have hout : (anyTransfer post send hlen).Outstanding s.fDstWrite s.fSrcWrite
      (s.posting (anyTransfer post send hlen)).ringSrc :=
    h.toDrained.outstanding h.toIdle hlen h.bounce
  have htaken : d.taken 5 = 0 := by
    rw [Delays.taken, if_neg (by omega), if_neg (by omega), if_neg (by omega)]
  have hdrri : d.drri s.fDstWrite 5 = s.fDstWrite := if_neg (by omega)
  rw [Delays.Finds, htaken, hdrri]
  refine ⟨hout, .queued ?_, h.drri⟩
  cases hout.stage with
  | queued hat => exact hat
  | fetched hat => exact absurd (h.fetched.symm.trans hat.fetched) nofun
  | consumed hat => exact absurd (h.flying.symm.trans hat.flying) nofun
  | filled hat => exact absurd (h.unlanded.symm.trans hat.unlanded) nofun
  | landed hat =>
    have hsrri : s.currentSRRI = s.fSrcWrite := h.srri.trans h.src
    exact absurd (hsrri.symm.trans hat.srri) (succ_mod_ne s.fSrcWrite)

/-- A transfer from a window at rest returns true, with exactly the posted entry taken, if and only
if the length has landed when the descriptor is read right after the poll that saw DRRI move. -/
theorem xfer_delayed_iff (post send : DiagAddr) (h : s.AtRest) (hpos : 0 < len)
    (hlen : len ≤ kDiagMax) (hd : d.WithinBudget) :
    Took s.fDstSw (along d.script (CEDiag.xfer post send len) s) ↔ d.landed ≤ d.seen + 1 := by
  have hrun := hd.posts s (anyTransfer post send hlen)
  rw [h.taken]
  exact hrun ▸ (h.finds hd post send hlen).sends hd h.dstWrite_lt hlen hpos

/-- The engine completes a transfer before the receive wait has begun. -/
def promptDelays : Delays := ⟨6, 6, 6, 7⟩

/-- DRRI has moved two polls before the length lands. -/
def lateDelays : Delays := ⟨6, 6, 7, 9⟩

theorem sampleDiag_atRest : sampleDiag.AtRest :=
  ⟨sampleDiag_fresh.toDrained, ⟨rfl, rfl⟩, rfl, List.length_replicate, by decide⟩

theorem xfer_prompt :
    Took 0 (along promptDelays.script (CEDiag.xfer .bounce (.target 0) 4) sampleDiag) :=
  (xfer_delayed_iff .bounce (.target 0) sampleDiag_atRest (by decide) (by decide)
    (by constructor <;> decide)).2 (by decide)

/-- The length lands while there is budget left, but not before the descriptor is read. -/
theorem late_landing_rejected :
    sampleDiag.AtRest ∧ lateDelays.WithinBudget ∧
      ¬ Took sampleDiag.fDstSw
        (along lateDelays.script (CEDiag.xfer .bounce (.target 0) 4) sampleDiag) := by
  have hfalse : (along lateDelays.script (CEDiag.xfer .bounce (.target 0) 4) sampleDiag).1 =
      false := by decide +kernel
  refine ⟨sampleDiag_atRest, by constructor <;> decide, fun h => ?_⟩
  exact absurd (hfalse.symm.trans h.1) nofun

/-- The entry to be taken next is completed. -/
def DstRing.Visible (d : DstRing) : Prop :=
  d.drri ≠ d.fDstSw ∧ (d.fDstDesc d.fDstSw).nbytes ≠ 0

/-- The receive wait of a pair keeps polling until the length has landed: it returns true whenever
the completion shows from some access within its budget on. -/
theorem recvWait_tolerates {d : DstRing} {e : Nat → DstRing → DstRing}
    (hl : l < pollDeadline timeoutMs) (h : ∀ k, l ≤ k → (foundAt e id d k).Visible) :
    (along e (DstRing.recvWait timeoutMs) d).1 = true := by
  rw [DstRing.recvWait]
  generalize pollDeadline timeoutMs = n at hl
  induction n generalizing e d l with
  | zero => cases hl
  | succ n ih =>
    -- an iteration makes one access or two
    have hone : (foundAt e id d 0).drri = (foundAt e id d 0).fDstSw →
        (along (later 1 e) (recvPoll n) (foundAt e id d 0)).1 = true := by
      intro he
      cases l with
      | zero => exact absurd he (h 0 (Nat.le_refl 0)).1
      | succ l =>
        refine ih (fun k hk => ?_) (Nat.lt_of_succ_lt_succ hl)
        have hlater := h (k + 1) (Nat.succ_le_succ hk)
        rw [← foundAt_later] at hlater
        exact hlater
    have htwo : ((foundAt e id d 1).fDstDesc (foundAt e id d 1).fDstSw).nbytes = 0 →
        (along (later 2 e) (recvPoll n) (foundAt e id d 1)).1 = true := by
      intro hz
      match l, hl, h with
      | 0, _, h => exact absurd hz (h 1 (Nat.zero_le 1)).2
      | 1, _, h => exact absurd hz (h 1 (Nat.le_refl 1)).2
      | l + 2, hl, h =>
        refine ih (fun k hk => ?_) (Nat.lt_of_succ_lt_succ (Nat.lt_of_succ_lt hl))
        have hlater := h (k + 2) (Nat.add_le_add_right hk 2)
        rw [← foundAt_later, ← foundAt_later, later_later] at hlater
        exact hlater
    simp only [recvPoll, read_bind, bind_eq_bind, modify_bind, along_op, id_eq]
    split
    · next he => exact hone he
    · simp only [along_op, later_later, id_eq]
      split
      · next hz => exact htwo hz
      · rfl

end Qca9377
