import Qca9377.FirmwareFile

namespace Qca9377
open Bytes Elements
set_option autoImplicit true

/-- An IE of a walk, with the place and length of its payload. -/
structure Ie where
  id : Nat
  off : Nat
  len : Nat
  deriving DecidableEq, Repr

/-- The IEs that the walk over a container visits. -/
def ieWalk (b : List UInt8) (data len : Nat) : List Ie :=
  if _h : 8 ≤ len then
    match rdLe32 b data, rdLe32 b (data + 4) with
    | some ieId, some ieLen =>
      if len - 8 < ieLen then []
      else if len - 8 < alignUp4 ieLen then [⟨ieId, data + 8, ieLen⟩]
      else ⟨ieId, data + 8, ieLen⟩ ::
        ieWalk b (data + 8 + alignUp4 ieLen) (len - 8 - alignUp4 ieLen)
    | _, _ => []
  else []
termination_by len

/-- What the walk subtracts from the remaining length: minuend and subtrahend. -/
def ieSubs (b : List UInt8) (data len : Nat) : List (Nat × Nat) :=
  if _h : 8 ≤ len then
    (len, 8) ::
      match rdLe32 b (data + 4) with
      | some ieLen =>
        if len - 8 < ieLen ∨ len - 8 < alignUp4 ieLen then []
        else (len - 8, alignUp4 ieLen) ::
          ieSubs b (data + 8 + alignUp4 ieLen) (len - 8 - alignUp4 ieLen)
      | none => []
  else []
termination_by len

theorem rdLe32_isSome (h : off + 4 ≤ b.length) : ∃ n, rdLe32 b off = some n := by
  apply Option.isSome_iff_exists.1
  rw [rdLe32, Option.isSome_map]
  exact slice_isSome h

theorem ieWalk_header (hlen : 8 ≤ len) (hin : data + len ≤ b.length) :
    ∃ ieId ieLen, rdLe32 b data = some ieId ∧ rdLe32 b (data + 4) = some ieLen ∧
      ieWalk b data len =
        if len - 8 < ieLen then []
        else ⟨ieId, data + 8, ieLen⟩ ::
          if len - 8 < alignUp4 ieLen then []
          else ieWalk b (data + 8 + alignUp4 ieLen) (len - 8 - alignUp4 ieLen) := by
  have hid : ∃ n, rdLe32 b data = some n := rdLe32_isSome (by omega)
  have hie : ∃ n, rdLe32 b (data + 4) = some n := rdLe32_isSome (by omega)
  obtain ⟨ieId, hid⟩ := hid
  obtain ⟨ieLen, hie⟩ := hie
  refine ⟨ieId, ieLen, hid, hie, ?_⟩
  rw [ieWalk, dif_pos hlen, hid, hie]
  dsimp only
  split
  · rfl
  · split
    · rfl
    · rfl

/-- The slices of an image lie inside a file of `n` bytes. -/
structure FwImage.Inside (n : Nat) (img : FwImage) : Prop where
  firmware : img.firmware.Inside n
  otp : img.otp.Inside n

theorem view_inside (h : off + len ≤ n) : (⟨some off, len⟩ : View).Inside n := by
  intro o ho
  obtain rfl := Option.some.inj ho
  exact h

theorem FwImage.Inside.enter {img : FwImage} {b : List UInt8} (h : img.Inside b.length)
    (ieId : Nat) (hin : off + ieLen ≤ b.length) :
    ∃ img', img.enter b off ieId ieLen = some img' ∧ img'.Inside b.length := by
  unfold FwImage.enter
  split
  · split
    · obtain ⟨payload, hpay⟩ := Option.isSome_iff_exists.1 (slice_isSome hin)
      rw [hpay]
      exact ⟨_, rfl, h.firmware, h.otp⟩
    · exact ⟨img, rfl, h⟩
  · split
    · exact ⟨_, rfl, view_inside hin, h.otp⟩
    · split
      · exact ⟨_, rfl, h.firmware, view_inside hin⟩
      · exact ⟨img, rfl, h⟩

/-- The remaining length never reaches beyond the buffer, so neither does the walk. -/
theorem parseFirmwareLoop_inside {img : FwImage} {b : List UInt8} (hin : data + len ≤ b.length)
    (himg : img.Inside b.length) :
    ∃ ok img', parseFirmwareLoop b data len img = some (ok, img') ∧ img'.Inside b.length := by
  induction len using Nat.strong_induction_on generalizing data img with
  | _ len ih =>
    by_cases hlen : 8 ≤ len
    · obtain ⟨ieId, ieLen, hid, hie, -⟩ := ieWalk_header hlen hin
      rw [parseFirmwareLoop, dif_pos hlen, hid, hie]
      simp only [Option.bind_eq_bind, Option.bind_some, Option.pure_def]
      split
      · exact ⟨_, _, rfl, himg⟩
      · next hfit =>
        have hpay : data + 8 + ieLen ≤ b.length := by omega
        obtain ⟨img₁, henter, himg₁⟩ := himg.enter ieId hpay
        rw [henter, Option.bind_some]
        split
        · exact ⟨_, _, rfl, himg₁⟩
        · next hpad =>
          apply ih _ _ _ himg₁
          · omega
          · omega
    · rw [parseFirmwareLoop, dif_neg hlen]
      exact ⟨_, _, rfl, himg⟩

/-- The closest preceding name IE carries the wanted name. -/
def NameMatched (b want : List UInt8) (before : List Ie) : Prop :=
  ∃ pre name mid, before = pre ++ name :: mid ∧ name.id = kBdIeBoardName ∧
    (∀ x ∈ mid, x.id ≠ kBdIeBoardName) ∧ slice b name.off name.len = some want

/-- A data IE behind the wanted name. -/
def Selected (b want : List UInt8) (before : List Ie) (e : Ie) : Prop :=
  e.id = kBdIeBoardData ∧ NameMatched b want before

theorem nameMatched_name (he : e.id = kBdIeBoardName) :
    NameMatched b want (seen ++ [e]) ↔ slice b e.off e.len = some want := by
  constructor
  · rintro ⟨pre, name, mid, hseen, hname, hmid, hpay⟩
    rcases List.eq_nil_or_concat' mid with rfl | ⟨mid, x, rfl⟩
    · obtain ⟨-, hlast⟩ := List.append_inj' hseen rfl
      obtain rfl := List.cons.inj hlast |>.1
      exact hpay
    · rw [← List.cons_append, ← List.append_assoc] at hseen
      obtain ⟨-, hlast⟩ := List.append_inj' hseen rfl
      obtain rfl := List.cons.inj hlast |>.1
      exact absurd he (hmid e (List.mem_append_right _ (List.mem_singleton_self e)))
  · exact fun hpay => ⟨seen, e, [], rfl, he, nofun, hpay⟩

theorem nameMatched_other (he : e.id ≠ kBdIeBoardName) :
    NameMatched b want (seen ++ [e]) ↔ NameMatched b want seen := by
  constructor
  · rintro ⟨pre, name, mid, hseen, hname, hmid, hpay⟩
    rcases List.eq_nil_or_concat' mid with rfl | ⟨mid, x, rfl⟩
    · obtain ⟨-, hlast⟩ := List.append_inj' hseen rfl
      obtain rfl := List.cons.inj hlast |>.1
      exact absurd hname he
    · rw [← List.cons_append, ← List.append_assoc] at hseen
      obtain ⟨hseen, -⟩ := List.append_inj' hseen rfl
      exact ⟨pre, name, mid, hseen, hname,
        fun y hy => hmid y (List.mem_append_left _ hy), hpay⟩
  · rintro ⟨pre, name, mid, rfl, hname, hmid, hpay⟩
    refine ⟨pre, name, mid ++ [e], ?_, hname, ?_, hpay⟩
    · rw [List.append_assoc, List.cons_append]
    · intro y hy
      rcases List.mem_append.1 hy with hy | hy
      · exact hmid y hy
      · rw [List.mem_singleton.1 hy]
        exact he

theorem nameMatchStep_spec (e : Ie) (hin : e.off + e.len ≤ b.length)
    (hm : nameMatch = true ↔ NameMatched b want seen) :
    ∃ m, nameMatchStep b want e.off e.id e.len nameMatch = some m ∧
      (m = true ↔ NameMatched b want (seen ++ [e])) := by
  unfold nameMatchStep
  split
  · next hid =>
    rw [nameMatched_name hid]
    obtain ⟨payload, hpay⟩ := Option.isSome_iff_exists.1 (slice_isSome hin)
    split
    · next hlen =>
      refine ⟨payload == want, ?_, ?_⟩
      · rw [bcmpAt, ← hlen, hpay, Option.map_some]
      · rw [hpay, beq_iff_eq, Option.some_inj]
    · next hlen =>
      refine ⟨false, rfl, ?_⟩
      rw [hpay, Option.some_inj]
      constructor
      · intro h
        cases h
      · rintro rfl
        exact absurd (slice_length hpay).symm hlen
  · next hid => exact ⟨nameMatch, rfl, hm.trans (nameMatched_other hid).symm⟩

/-- No element of the walk is a data IE behind the wanted name. -/
def NoneSelected (b want : List UInt8) (walk : List Ie) : Prop :=
  ∀ before e after, walk = before ++ e :: after → ¬ Selected b want before e

theorem NoneSelected.concat (h : NoneSelected b want seen) (he : ¬ Selected b want seen e) :
    NoneSelected b want (seen ++ [e]) := by
  intro before f after hwalk
  rcases List.eq_nil_or_concat' after with rfl | ⟨after, x, rfl⟩
  · obtain ⟨rfl, hlast⟩ := List.append_inj' hwalk rfl
    obtain rfl := List.cons.inj hlast |>.1
    exact he
  · rw [← List.cons_append, ← List.append_assoc] at hwalk
    obtain ⟨hseen, -⟩ := List.append_inj' hwalk rfl
    exact h before f after hseen

/-- What `selectBoard` hands out over a walk: the first data IE behind the wanted name, or
nothing when there is none. -/
inductive SelectPost (b want : List UInt8) (walk : List Ie) (out : View) : Bool → View → Prop
  | found (hwalk : walk = before ++ e :: after) (hsel : Selected b want before e)
      (hfirst : NoneSelected b want before) (hin : e.off + e.len ≤ b.length) :
      SelectPost b want walk out true ⟨some e.off, e.len⟩
  | refused (hnone : NoneSelected b want walk) : SelectPost b want walk out false out

theorem selectBoardLoop_spec (hin : data + len ≤ b.length)
    (hm : nameMatch = true ↔ NameMatched b want seen) (hseen : NoneSelected b want seen) :
    ∃ ok out', selectBoardLoop b want data len nameMatch out = some (ok, out') ∧
      SelectPost b want (seen ++ ieWalk b data len) out ok out' := by
  induction len using Nat.strong_induction_on generalizing data nameMatch seen with
  | _ len ih =>
    by_cases hlen : 8 ≤ len
    · obtain ⟨ieId, ieLen, hid, hie, hwalk⟩ := ieWalk_header hlen hin
      rw [selectBoardLoop, dif_pos hlen, hid, hie, hwalk]
      simp only [Option.bind_eq_bind, Option.bind_some, Option.pure_def]
      split
      · refine ⟨_, _, rfl, .refused ?_⟩
        rwa [List.append_nil]
      · next hfit =>
        have hpay : data + 8 + ieLen ≤ b.length := by omega
        obtain ⟨m, hstep, hm'⟩ := nameMatchStep_spec ⟨ieId, data + 8, ieLen⟩ hpay hm
        rw [hstep, Option.bind_some]
        split
        · next hsel =>
          obtain ⟨hdata, hmatch⟩ := hsel
          have hother : ieId ≠ kBdIeBoardName := by rw [hdata]; decide
          have hnamed := (nameMatched_other hother).1 (hm'.1 hmatch)
          exact ⟨_, _, rfl, .found rfl ⟨hdata, hnamed⟩ hseen hpay⟩
        · next hsel =>
          have hnot : ¬ Selected b want seen ⟨ieId, data + 8, ieLen⟩ := by
            rintro ⟨hdata, hnamed⟩
            have hother : ieId ≠ kBdIeBoardName := by rw [show ieId = _ from hdata]; decide
            exact hsel ⟨hdata, hm'.2 ((nameMatched_other hother).2 hnamed)⟩
          have hseen' := hseen.concat hnot
          split
          · exact ⟨_, _, rfl, .refused hseen'⟩
          · rw [List.append_cons]
            apply ih
            · omega
            · omega
            · exact hm'
            · exact hseen'
    · refine ⟨false, out, ?_, .refused ?_⟩
      · rw [selectBoardLoop, dif_neg hlen]
      · rwa [ieWalk, dif_neg hlen, List.append_nil]

def boardWalk (b : List UInt8) : List Ie :=
  if boardMagic <+: b then ieWalk b 20 (b.length - 20) else []

theorem bcmpAt_zero (h : want.length ≤ b.length) :
    bcmpAt b 0 want = some (decide (want <+: b)) := by
  have hin : 0 + want.length ≤ b.length := by omega
  rw [bcmpAt, slice, if_pos hin, List.drop_zero, Option.map_some, Option.some_inj,
    Bool.eq_iff_iff, beq_iff_eq, decide_eq_true_iff, List.prefix_iff_eq_take, eq_comm]

theorem alignUp4_boardMagic : alignUp4 boardMagic.length = 20 := by
  rw [boardMagic_length]
  rfl

theorem selectBoard_eq (hlen : boardMagic.length ≤ b.length) :
    selectBoard b v d out =
      if boardMagic <+: b then
        selectBoardLoop b (boardName v d) (alignUp4 boardMagic.length)
          (sub32 b.length (alignUp4 boardMagic.length)) false out
      else some (false, out) := by
  have hshort : ¬ b.length < boardMagic.length := Nat.not_lt.2 hlen
  have hwant : ¬ 96 ≤ (boardName v d).length := by
    rw [boardName_length]
    decide
  unfold selectBoard
  rw [if_neg hshort, bcmpAt_zero hlen]
  by_cases hmagic : boardMagic <+: b
  · rw [decide_eq_true hmagic, if_pos hmagic, Option.bind_eq_bind, Option.bind_some,
      if_neg (by decide)]
    exact if_neg hwant
  · rw [decide_eq_false hmagic, if_neg hmagic, Option.bind_eq_bind, Option.bind_some]
    exact if_pos rfl

theorem sub32_eq (hk : k ≤ n) (hn : n < 2 ^ 32) : sub32 n k = n - k := by
  rw [sub32]
  omega

/-- `selectBoard` hands out the data of the first board whose name is the card's own, or
leaves the caller's variables alone. -/
theorem selectBoard_first (v d : UInt16) (out : View) (h20 : 20 ≤ b.length)
    (hlen : b.length < 2 ^ 32) :
    ∃ ok out', selectBoard b v d out = some (ok, out') ∧
      SelectPost b (boardName v d) (boardWalk b) out ok out' := by
  have hnil : NoneSelected b (boardName v d) [] := by
    intro before e after hwalk
    cases before <;> cases hwalk
  have hunnamed : false = true ↔ NameMatched b (boardName v d) [] := by
    constructor
    · exact nofun
    · rintro ⟨before, name, mid, hwalk, -⟩
      cases before <;> cases hwalk
  rw [selectBoard_eq (by rw [boardMagic_length]; omega), alignUp4_boardMagic, boardWalk,
    sub32_eq h20 hlen]
  split
  · exact selectBoardLoop_spec (by omega) hunnamed hnil
  · exact ⟨_, _, rfl, .refused hnil⟩

/-- A board file whose name and data IEs follow each other without an outer element. -/
def flatBoardFile : List UInt8 :=
  (boardMagic ++ [0, 0, 0]) ++ encodeAll [cardBoard.name, cardBoard.data]

theorem selectBoard_first_flat :
    ∃ ok out', selectBoard flatBoardFile 0x11ad 0x08a6 ⟨none, 0⟩ = some (ok, out') ∧
      SelectPost flatBoardFile (boardName 0x11ad 0x08a6) (boardWalk flatBoardFile) ⟨none, 0⟩
        ok out' :=
  selectBoard_first 0x11ad 0x08a6 ⟨none, 0⟩ (by decide +kernel) (by decide +kernel)

theorem ieSubs_le (hs : s ∈ ieSubs b data len) : s.2 ≤ s.1 := by
  induction len using Nat.strong_induction_on generalizing data with
  | _ len ih =>
    rw [ieSubs] at hs
    split at hs
    · next hlen =>
      rcases List.mem_cons.1 hs with rfl | hs
      · exact hlen
      · split at hs
        · split at hs
          · cases hs
          · next hpad =>
            rcases List.mem_cons.1 hs with rfl | hs
            · exact Nat.le_of_not_lt fun h => hpad (.inr h)
            · apply ih _ _ hs
              omega
        · cases hs
    · cases hs

/-- Behind the magic, no subtraction from the remaining length wraps around. -/
def NoWrap (b magic : List UInt8) : Prop :=
  magic <+: b → ∀ s ∈ (b.length, alignUp4 magic.length) ::
    ieSubs b (alignUp4 magic.length) (sub32 b.length (alignUp4 magic.length)), s.2 ≤ s.1

theorem noWrap_iff : NoWrap b magic ↔ (magic <+: b → alignUp4 magic.length ≤ b.length) := by
  constructor
  · exact fun h hmagic => h hmagic _ List.mem_cons_self
  · intro h hmagic s hs
    rcases List.mem_cons.1 hs with rfl | hs
    · exact h hmagic
    · exact ieSubs_le hs

theorem fwMagic_length : fwMagic.length = 11 := by decide

theorem alignUp4_fwMagic : alignUp4 fwMagic.length = 12 := by
  rw [fwMagic_length]
  rfl

theorem parseFirmware_inside {img : FwImage} (himg : img.Inside b.length) (hlen : b.length < 2 ^ 32)
    (hpad : fwMagic <+: b → alignUp4 fwMagic.length ≤ b.length) :
    ∃ ok img', parseFirmware b img = some (ok, img') ∧ img'.Inside b.length := by
  unfold parseFirmware
  by_cases hshort : b.length < fwMagic.length
  · rw [if_pos hshort]
    exact ⟨_, _, rfl, himg⟩
  · rw [if_neg hshort, bcmpAt_zero (Nat.le_of_not_lt hshort)]
    by_cases hmagic : fwMagic <+: b
    · have hin := hpad hmagic
      have hrest : alignUp4 fwMagic.length + sub32 b.length (alignUp4 fwMagic.length) ≤
          b.length := by
        rw [sub32_eq hin hlen]
        omega
      obtain ⟨ok, img', hloop, himg'⟩ := parseFirmwareLoop_inside hrest himg
      rw [decide_eq_true hmagic, Option.bind_eq_bind, Option.bind_some, if_neg (by decide)]
      dsimp only
      rw [hloop, Option.bind_eq_bind, Option.bind_some]
      cases ok with
      | false => exact ⟨_, _, if_pos rfl, himg'⟩
      | true =>
        by_cases hfw : img'.firmware.ptr = none ∨ img'.firmware.len = 0
        · exact ⟨_, _, (if_neg nofun).trans (if_pos hfw), himg'⟩
        · exact ⟨_, _, (if_neg nofun).trans (if_neg hfw), himg'⟩
    · rw [decide_eq_false hmagic, Option.bind_eq_bind, Option.bind_some]
      exact ⟨_, _, if_pos rfl, himg⟩

theorem selectBoard_inside (hlen : b.length < 2 ^ 32)
    (hpad : boardMagic <+: b → alignUp4 boardMagic.length ≤ b.length) :
    ∃ ok out', selectBoard b v d out = some (ok, out') ∧ (ok = true → out'.Inside b.length) := by
  by_cases hmagic : boardMagic <+: b
  · have h20 := hpad hmagic
    rw [alignUp4_boardMagic] at h20
    obtain ⟨ok, out', hsel, hpost⟩ := selectBoard_first v d out h20 hlen
    refine ⟨ok, out', hsel, ?_⟩
    cases hpost with
    | found _ _ _ hin => exact fun _ => view_inside hin
    | refused _ => exact nofun
  · by_cases hshort : b.length < boardMagic.length
    · unfold selectBoard
      rw [if_pos hshort]
      exact ⟨_, _, rfl, nofun⟩
    · rw [selectBoard_eq (Nat.le_of_not_lt hshort), if_neg hmagic]
      exact ⟨_, _, rfl, nofun⟩

/-- The two parsers read, count and hand out nothing beyond the container. -/
structure Contained (b : List UInt8) : Prop where
  firmware : ∀ img, img.Inside b.length →
    ∃ ok img', parseFirmware b img = some (ok, img') ∧ img'.Inside b.length
  board : ∀ v d out,
    ∃ ok out', selectBoard b v d out = some (ok, out') ∧ (ok = true → out'.Inside b.length)
  firmware_lengths : NoWrap b fwMagic
  board_lengths : NoWrap b boardMagic

/-- Both magics are checked at their own lengths but skipped at their padded ones, and only
a file that ends between the two is read beyond its end. -/
theorem contained_iff (hlen : b.length < 2 ^ 32) :
    Contained b ↔ b ≠ fwMagic ∧ ¬ (boardMagic <+: b ∧ b.length < 20) := by
  constructor
  · intro h
    have hfw := noWrap_iff.1 h.firmware_lengths
    have hboard := noWrap_iff.1 h.board_lengths
    rw [alignUp4_fwMagic] at hfw
    rw [alignUp4_boardMagic] at hboard
    constructor
    · rintro rfl
      have h12 := hfw (List.prefix_refl _)
      rw [fwMagic_length] at h12
      omega
    · rintro ⟨hmagic, h20⟩
      have := hboard hmagic
      omega
  · rintro ⟨hfw, hboard⟩
    have hfwPad : fwMagic <+: b → alignUp4 fwMagic.length ≤ b.length := by
      intro hmagic
      rw [alignUp4_fwMagic]
      by_contra hshort
      have hle := hmagic.length_le
      rw [fwMagic_length] at hle
      have heq : fwMagic.length = b.length := by
        rw [fwMagic_length]
        omega
      exact hfw (hmagic.eq_of_length heq).symm
    have hboardPad : boardMagic <+: b → alignUp4 boardMagic.length ≤ b.length := by
      intro hmagic
      rw [alignUp4_boardMagic]
      by_contra hshort
      exact hboard ⟨hmagic, Nat.lt_of_not_le hshort⟩
    constructor
    · exact fun img himg => parseFirmware_inside himg hlen hfwPad
    · exact fun v d out => selectBoard_inside hlen hboardPad
    · exact noWrap_iff.2 hfwPad
    · exact noWrap_iff.2 hboardPad

theorem contained_flat : Contained flatBoardFile :=
  (contained_iff (by decide +kernel)).2 (by decide +kernel)

/-- The bare firmware magic makes the remaining length wrap, and the walk read past the end. -/
theorem not_contained_magic : ¬ Contained fwMagic ∧ parseFirmware fwMagic freshImage = none := by
  constructor
  · intro h
    have h12 := noWrap_iff.1 h.firmware_lengths (List.prefix_refl _)
    rw [alignUp4_fwMagic, fwMagic_length] at h12
    omega
  · have hsub : sub32 11 12 = 2 ^ 32 - 1 := rfl
    have hread : rdLe32 fwMagic 12 = none := by decide
    unfold parseFirmware
    rw [if_neg (Nat.lt_irrefl _), bcmpAt_zero (Nat.le_refl _),
      decide_eq_true (List.prefix_refl _), Option.bind_eq_bind, Option.bind_some,
      if_neg (by decide)]
    dsimp only
    rw [alignUp4_fwMagic, fwMagic_length, hsub, parseFirmwareLoop, dif_pos (by decide), hread]
    rfl

end Qca9377
