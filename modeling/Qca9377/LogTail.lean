import Mathlib.Tactic
import Qca9377.Bytes

namespace Qca9377
open Bytes
set_option autoImplicit true

def kLogTailSize : Nat := 1536

def kLogLineSize : Nat := 256

def newline : UInt8 := 10

structure LogTail where
  fLogTail : List UInt8
  fLogTailUsed : Nat

namespace LogTail

def fresh : LogTail := ⟨List.replicate kLogTailSize 0, 0⟩

def contents (s : LogTail) : List UInt8 := s.fLogTail.take s.fLogTailUsed

end LogTail

/-- What the format call returns and leaves in a buffer of `size` bytes, for a format that prints
`text` or fails. -/
def vsnprintf (size : Nat) : Option (List UInt8) → Int × List UInt8
  | some text => (if text.length < 0x80000000 then text.length else -1, text.take (size - 1))
  | none => (-1, [])

namespace LogTail

def seekNewline (s : LogTail) (cut : Nat) : Option Nat :=
  if cut < s.fLogTailUsed then
    match s.fLogTail[cut]? with
    | none => none
    | some b => if b ≠ newline then seekNewline s (cut + 1) else some cut
  else some cut
termination_by s.fLogTailUsed - cut

def dropOldest (s : LogTail) : Option LogTail := do
  let cut ← seekNewline s (s.fLogTailUsed / 2)
  let cut := if cut < s.fLogTailUsed then cut + 1 else cut
  let used ← unsignedSub s.fLogTailUsed cut
  let moved ← slice s.fLogTail cut used
  let buf ← bcopyInto s.fLogTail 0 moved
  return ⟨buf, used⟩

def makeRoom (s : LogTail) (len : Nat) : Option LogTail := do
  let space ← unsignedSub (kLogTailSize - 1) s.fLogTailUsed
  if len + 1 > space then dropOldest s else return s

def appendLine (s : LogTail) (len : Nat) (line : List UInt8) : Option LogTail := do
  let present := if len < kLogLineSize then len else kLogLineSize - 1
  let space2 ← unsignedSub (kLogTailSize - 1) s.fLogTailUsed
  let n := if present < space2 then present else space2
  let bytes ← slice line 0 n
  let buf ← bcopyInto s.fLogTail s.fLogTailUsed bytes
  let used := s.fLogTailUsed + n
  let buf ← bcopyInto buf used [0]
  return ⟨buf, used⟩

def qlog (s : LogTail) (printed : Option (List UInt8)) : Option LogTail := do
  let (ret, line) := vsnprintf kLogLineSize printed
  if ret ≤ 0 then return s
  let len := ret.toNat
  let s ← makeRoom s len
  appendLine s len line

/-- The cut line that a call logs, if it logs one. -/
def logged (printed : Option (List UInt8)) : Option (List UInt8) :=
  let (ret, line) := vsnprintf kLogLineSize printed
  if ret ≤ 0 then none else some line

structure TailState (lines : List (List UInt8)) (s : LogTail) : Prop where
  size : s.fLogTail.length = kLogTailSize
  used : s.fLogTailUsed ≤ kLogTailSize - 1
  clean : CleanTail newline lines s.contents

theorem TailState.contents_length (h : TailState lines s) : s.contents.length = s.fLogTailUsed := by
  have hu := h.used
  rw [contents, List.length_take, h.size]
  exact Nat.min_eq_left (hu.trans (by decide))

theorem TailState.buf (h : TailState lines s) :
    ∃ rest, s.fLogTail = s.contents ++ rest ∧ s.fLogTailUsed + rest.length = kLogTailSize := by
  refine ⟨s.fLogTail.drop s.fLogTailUsed, (List.take_append_drop _ _).symm, ?_⟩
  rw [List.length_drop, h.size]
  exact Nat.add_sub_of_le (h.used.trans (by decide))

/-- The search ends at a newline of what the buffer holds, or at its end. -/
theorem seekNewline_spec (s : LogTail) (cut : Nat) (hbuf : s.fLogTailUsed ≤ s.fLogTail.length)
    (hcut : cut ≤ s.fLogTailUsed) :
    ∃ p, seekNewline s cut = some p ∧ cut ≤ p ∧ p ≤ s.fLogTailUsed ∧
      (p < s.fLogTailUsed → s.fLogTail[p]? = some newline) := by
  fun_induction seekNewline s cut with
  | case1 cut hlt hnone =>
    rw [List.getElem?_eq_none_iff] at hnone
    omega
  | case2 cut hlt b hb hne ih =>
    obtain ⟨p, hp, hle, hused, hnl⟩ := ih (Nat.succ_le_of_lt hlt)
    exact ⟨p, hp, Nat.le_of_succ_le hle, hused, hnl⟩
  | case3 cut hlt b hb heq =>
    refine ⟨cut, rfl, Nat.le_refl cut, hcut, ?_⟩
    intro _
    rw [hb, not_not.1 heq]
  | case4 cut hge => exact ⟨cut, rfl, Nat.le_refl cut, hcut, fun h => absurd h hge⟩

/-- Moving the buffer's text down by `cut` bytes leaves its text from there on. -/
theorem TailState.moveDown (h : TailState lines s) (hcut : cut ≤ s.fLogTailUsed)
    (hclean : CleanTail newline lines (s.contents.drop cut)) :
    slice s.fLogTail cut (s.fLogTailUsed - cut) = some (s.contents.drop cut) ∧
      ∃ buf, bcopyInto s.fLogTail 0 (s.contents.drop cut) = some buf ∧
        TailState lines ⟨buf, s.fLogTailUsed - cut⟩ := by
  have hlen := h.contents_length
  obtain ⟨rest, hbuf, hrest⟩ := h.buf
  have hmoved : (s.contents.drop cut).length = s.fLogTailUsed - cut := by
    rw [List.length_drop, hlen]
  have hle : (s.contents.drop cut).length ≤ s.fLogTail.length := by
    rw [hmoved, hbuf, List.length_append, hlen]
    exact (Nat.sub_le _ _).trans (Nat.le_add_right _ _)
  constructor
  · apply slice_eq_of_append (s.contents.take cut) _ rest _ _ hmoved.symm
    · rw [← List.append_assoc, List.take_append_drop, hbuf]
    · rw [List.length_take, hlen, Nat.min_eq_left hcut]
  · have hcopy := bcopyInto_append [] _ s.fLogTail rfl hle
    refine ⟨_, hcopy, (bcopyInto_length hcopy).trans h.size, ?_, ?_⟩
    · exact (Nat.sub_le _ _).trans h.used
    · rw [contents, List.nil_append, ← hmoved, List.take_left]
      exact hclean

theorem dropOldest_spec (h : TailState lines s) :
    ∃ s', dropOldest s = some s' ∧ TailState lines s' ∧ s'.fLogTailUsed ≤ kLogTailSize / 2 := by
  have hhalf : s.fLogTailUsed / 2 ≤ s.fLogTailUsed := Nat.div_le_self _ _
  have hin : s.fLogTailUsed ≤ s.fLogTail.length := h.size ▸ h.used.trans (by decide)
  have hsmall (cut : Nat) (hcut : s.fLogTailUsed / 2 ≤ cut) :
      s.fLogTailUsed - cut ≤ kLogTailSize / 2 := by
    have hu := h.used
    simp only [kLogTailSize] at hu ⊢
    omega
  obtain ⟨p, hp, hle, hused, hnl⟩ := seekNewline_spec s (s.fLogTailUsed / 2) hin hhalf
  by_cases hlt : p < s.fLogTailUsed
  · have hget : s.contents[p]? = some newline := by
      rw [contents, List.getElem?_take_of_lt hlt, hnl hlt]
    obtain ⟨hs, buf, hb, ht⟩ := h.moveDown hlt (h.clean.drop_break hget)
    refine ⟨⟨buf, s.fLogTailUsed - (p + 1)⟩, ?_, ht, hsmall (p + 1) (Nat.le_succ_of_le hle)⟩
    simp only [dropOldest, hp, if_pos hlt, unsignedSub_of_le hlt, hs, hb, Option.bind_eq_bind,
      Option.bind_some, Option.pure_def]
  · have hall : s.contents.drop p = [] := by
      apply List.drop_of_length_le
      rw [h.contents_length]
      exact Nat.le_of_not_lt hlt
    have hclean : CleanTail newline lines (s.contents.drop p) :=
      hall ▸ CleanTail.drop_all newline lines
    obtain ⟨hs, buf, hb, ht⟩ := h.moveDown hused hclean
    refine ⟨⟨buf, s.fLogTailUsed - p⟩, ?_, ht, hsmall p hle⟩
    simp only [dropOldest, hp, if_neg hlt, unsignedSub_of_le hused, hs, hb, Option.bind_eq_bind,
      Option.bind_some, Option.pure_def]

/-- A line that fits into what is free goes in whole, with a NUL behind it. -/
theorem appendLine_eq (h : TailState lines s) (hlen : line.length = min len (kLogLineSize - 1))
    (hfree : s.fLogTailUsed + line.length ≤ kLogTailSize - 1) :
    ∃ post, (s.contents ++ line ++ 0 :: post).length = kLogTailSize ∧
      appendLine s len line =
        some ⟨s.contents ++ line ++ 0 :: post, s.fLogTailUsed + line.length⟩ := by
  obtain ⟨rest, hbuf, hrest⟩ := h.buf
  have hpresent : (if len < kLogLineSize then len else kLogLineSize - 1) = line.length := by
    by_cases hl : len < kLogLineSize
    · rw [if_pos hl, hlen, Nat.min_eq_left (Nat.le_sub_one_of_lt hl)]
    · rw [if_neg hl, hlen, Nat.min_eq_right ((Nat.sub_le _ _).trans (Nat.le_of_not_lt hl))]
  have hn : (if line.length < kLogTailSize - 1 - s.fLogTailUsed then line.length
      else kLogTailSize - 1 - s.fLogTailUsed) = line.length := by
    split <;> omega
  have hall : slice line 0 line.length = some line :=
    slice_eq_of_append [] line [] (List.append_nil line).symm rfl rfl
  have hroom : line.length < rest.length := by
    simp only [kLogTailSize] at hfree hrest
    omega
  have hline : bcopyInto s.fLogTail s.fLogTailUsed line =
      some (s.contents ++ line ++ rest.drop line.length) := by
    rw [hbuf]
    exact bcopyInto_append _ line rest h.contents_length.symm hroom.le
  have hend : s.fLogTailUsed + line.length = (s.contents ++ line).length := by
    rw [List.length_append, h.contents_length]
  obtain ⟨b, post, hpost⟩ : ∃ b post, rest.drop line.length = b :: post :=
    List.exists_cons_of_length_pos (by rw [List.length_drop]; exact Nat.sub_pos_of_lt hroom)
  have hzero : bcopyInto (s.contents ++ line ++ rest.drop line.length)
      (s.fLogTailUsed + line.length) [0] = some (s.contents ++ line ++ 0 :: post) := by
    rw [hpost, bcopyInto_append _ [0] (b :: post) hend (Nat.succ_le_succ (Nat.zero_le _)),
      List.append_assoc]
    rfl
  refine ⟨post, ?_, ?_⟩
  · rw [bcopyInto_length hzero, bcopyInto_length hline, h.size]
  · simp only [appendLine, hpresent, unsignedSub_of_le h.used, hn, hall, hline, hzero,
      Option.bind_eq_bind, Option.bind_some, Option.pure_def]

theorem appendLine_spec (h : TailState lines s) (hlen : line.length = min len (kLogLineSize - 1))
    (hfree : s.fLogTailUsed + line.length ≤ kLogTailSize - 1) :
    ∃ s', appendLine s len line = some s' ∧ TailState (lines ++ [line]) s' ∧
      s'.contents = s.contents ++ line ∧ s'.fLogTail[s'.fLogTailUsed]? = some 0 := by
  obtain ⟨post, hsize, heq⟩ := appendLine_eq h hlen hfree
  have hend : s.fLogTailUsed + line.length = (s.contents ++ line).length := by
    rw [List.length_append, h.contents_length]
  have hcontents : contents ⟨s.contents ++ line ++ 0 :: post, s.fLogTailUsed + line.length⟩ =
      s.contents ++ line := by
    rw [contents, hend, List.take_left]
  refine ⟨_, heq, ⟨hsize, hfree, ?_⟩, hcontents, ?_⟩
  · rw [hcontents]
    exact h.clean.append line
  · rw [hend, List.getElem?_append_right (Nat.le_refl _), Nat.sub_self]
    rfl

/-- What holds between two calls: the text is NUL-terminated and ends with the last line. -/
structure TailOf (lines : List (List UInt8)) (s : LogTail) : Prop extends TailState lines s where
  terminated : s.fLogTail[s.fLogTailUsed]? = some 0
  last : ∀ line, lines.getLast? = some line → line <:+ s.contents

theorem tailOf_fresh : TailOf [] fresh where
  size := List.length_replicate
  used := Nat.zero_le _
  clean := CleanTail.nil newline
  terminated := rfl
  last := by
    intro line h
    cases h

theorem vsnprintf_length (h : 0 < (vsnprintf size printed).1) :
    (vsnprintf size printed).2.length = min (vsnprintf size printed).1.toNat (size - 1) := by
  cases printed with
  | none => cases h
  | some text =>
    simp only [vsnprintf] at h ⊢
    split at h
    · rename_i hint
      rw [List.length_take, Nat.min_comm, if_pos hint, Int.toNat_natCast]
    · cases h

/-- Before the line is copied there is room for all of it, whether or not lines were dropped. -/
theorem makeRoom_spec (h : TailState lines s) (len : Nat) :
    ∃ s', makeRoom s len = some s' ∧ TailState lines s' ∧
      s'.fLogTailUsed + min len (kLogLineSize - 1) ≤ kLogTailSize - 1 := by
  rw [makeRoom, unsignedSub_of_le h.used, Option.bind_eq_bind, Option.bind_some]
  by_cases hdrop : len + 1 > kLogTailSize - 1 - s.fLogTailUsed
  · obtain ⟨s', heq, hs', hhalf⟩ := dropOldest_spec h
    refine ⟨s', (if_pos hdrop).trans heq, hs', ?_⟩
    calc s'.fLogTailUsed + min len (kLogLineSize - 1)
        ≤ kLogTailSize / 2 + (kLogLineSize - 1) := Nat.add_le_add hhalf (Nat.min_le_right _ _)
      _ ≤ kLogTailSize - 1 := by decide
  · refine ⟨s, if_neg hdrop, h, ?_⟩
    have hu := h.used
    omega

theorem qlog_spec (h : TailOf lines s) (printed : Option (List UInt8)) :
    ∃ s', qlog s printed = some s' ∧ TailOf (lines ++ (logged printed).toList) s' := by
  rcases hv : vsnprintf kLogLineSize printed with ⟨ret, line⟩
  by_cases hret : ret ≤ 0
  · refine ⟨s, ?_, ?_⟩
    · simp only [qlog, hv, if_pos hret, Option.pure_def]
    · simpa only [logged, hv, if_pos hret, Option.toList_none, List.append_nil] using h
  · have hline : line.length = min ret.toNat (kLogLineSize - 1) := by
      have hpos : 0 < (vsnprintf kLogLineSize printed).1 := by
        rw [hv]
        exact Int.not_le.1 hret
      simpa only [hv] using vsnprintf_length hpos
    obtain ⟨s₁, hroom, hs₁, hfree⟩ := makeRoom_spec h.toTailState ret.toNat
    rw [← hline] at hfree
    obtain ⟨s₂, happ, hs₂, hcontents, hnul⟩ := appendLine_spec hs₁ hline hfree
    refine ⟨s₂, ?_, ?_⟩
    · simp only [qlog, hv, if_neg hret, hroom, happ, Option.bind_eq_bind, Option.bind_some]
    · simp only [logged, hv, if_neg hret, Option.toList_some]
      refine ⟨hs₂, hnul, ?_⟩
      intro l hl
      rw [List.getLast?_concat, Option.some.injEq] at hl
      rw [hcontents, ← hl]
      exact List.suffix_append _ _

theorem qlog_run (h : TailOf lines s) (calls : List (Option (List UInt8))) :
    ∃ s', calls.foldlM qlog s = some s' ∧ TailOf (lines ++ calls.filterMap logged) s' := by
  induction calls generalizing lines s with
  | nil =>
    refine ⟨s, rfl, ?_⟩
    rw [List.filterMap_nil, List.append_nil]
    exact h
  | cons printed calls ih =>
    obtain ⟨s₁, hstep, hs₁⟩ := qlog_spec h printed
    obtain ⟨s₂, hrun, hs₂⟩ := ih hs₁
    refine ⟨s₂, ?_, ?_⟩
    · rw [List.foldlM_cons, hstep]
      exact hrun
    · have hcons : (printed :: calls).filterMap logged =
          (logged printed).toList ++ calls.filterMap logged := by
        cases hl : logged printed with
        | none => rw [List.filterMap_cons_none hl, Option.toList_none, List.nil_append]
        | some line => rw [List.filterMap_cons_some hl, Option.toList_some, List.singleton_append]
      rw [hcons, ← List.append_assoc]
      exact hs₂

/-- After every sequence of calls: no subtraction wrapped and no copy left its buffer, and the
buffer holds the end of what was logged, from a line's start or a newline on. -/
theorem logTail_keeps_recent_lines (calls : List (Option (List UInt8))) :
    ∃ s, calls.foldlM qlog fresh = some s ∧ s.fLogTail.length = 1536 ∧ s.fLogTailUsed ≤ 1535 ∧
      s.fLogTail[s.fLogTailUsed]? = some 0 ∧
      (∃ front, (calls.filterMap logged).flatten = front ++ s.fLogTail.take s.fLogTailUsed ∧
        ((∃ k, k ≤ (calls.filterMap logged).length ∧
          front = ((calls.filterMap logged).take k).flatten) ∨
          front.getLast? = some newline)) ∧
      ∀ line, (calls.filterMap logged).getLast? = some line →
        line <:+ s.fLogTail.take s.fLogTailUsed := by
  obtain ⟨s, hrun, hs⟩ := qlog_run tailOf_fresh calls
  rw [List.nil_append] at hs
  exact ⟨s, hrun, hs.size, hs.used, hs.terminated, hs.clean, hs.last⟩

end LogTail

end Qca9377
