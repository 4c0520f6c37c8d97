import Qca9377.Elements

namespace Qca9377
open Bytes Elements
set_option autoImplicit true

def ascii (s : String) : List UInt8 := s.toList.map fun c => UInt8.ofNat c.toNat

def rdLe32 (b : List UInt8) (off : Nat) : Option Nat := (slice b off 4).map decodeLE

/-- Whether the buffer holds exactly these bytes at the offset. -/
def bcmpAt (b : List UInt8) (off : Nat) (want : List UInt8) : Option Bool :=
  (slice b off want.length).map fun x => x == want

/-- The source's `(n + 3) & ~3u` on 32-bit words. -/
def alignUp4 (n : Nat) : Nat := (n + 3) % 2 ^ 32 / 4 * 4

def sub32 (a b : Nat) : Nat := (a + 2 ^ 32 - b) % 2 ^ 32

def kBdIeBoardName : Nat := 0
def kBdIeBoardData : Nat := 1

def hexDigit (n : Nat) : UInt8 := if n < 10 then UInt8.ofNat (48 + n) else UInt8.ofNat (87 + n)

/-- The conversion `%04x` of a 16-bit value. -/
def hex4 (v : UInt16) : List UInt8 :=
  [hexDigit (v.toNat / 4096 % 16), hexDigit (v.toNat / 256 % 16),
    hexDigit (v.toNat / 16 % 16), hexDigit (v.toNat % 16)]

/-- The name `selectBoard` formats into its buffer `want`. -/
def boardName (subsystemVendor subsystemDevice : UInt16) : List UInt8 :=
  ascii "bus=pci,vendor=168c,device=0042," ++ ascii "subsystem-vendor=" ++
    hex4 subsystemVendor ++ ascii ",subsystem-device=" ++ hex4 subsystemDevice

def boardMagic : List UInt8 := ascii "QCA-ATH10K-BOARD" ++ [0]

def nameMatchStep (board2 want : List UInt8) (data ieId ieLen : Nat) (nameMatch : Bool) :
    Option Bool :=
  if ieId = kBdIeBoardName then
    if ieLen = want.length then bcmpAt board2 data want else some false
  else some nameMatch

/-- The loop of `selectBoard`; `none` is a read outside the file. -/
def selectBoardLoop (board2 want : List UInt8) (data len : Nat) (nameMatch : Bool)
    (out : View) : Option (Bool × View) :=
  if _h : 8 ≤ len then do
    let ieId ← rdLe32 board2 data
    let ieLen ← rdLe32 board2 (data + 4)
    if len - 8 < ieLen then
      return (false, out)
    let nameMatch ← nameMatchStep board2 want (data + 8) ieId ieLen nameMatch
    if ieId = kBdIeBoardData ∧ nameMatch then
      return (true, ⟨some (data + 8), ieLen⟩)
    let pad := alignUp4 ieLen
    if len - 8 < pad then
      return (false, out)
    selectBoardLoop board2 want (data + 8 + pad) (len - 8 - pad) nameMatch out
  else some (false, out)
termination_by len

/-- `Fw::selectBoard`; `out` holds `*outData` and `*outLen`. -/
def selectBoard (board2 : List UInt8) (subsystemVendor subsystemDevice : UInt16) (out : View) :
    Option (Bool × View) := do
  let magicLen := boardMagic.length
  if board2.length < magicLen then
    return (false, out)
  if !(← bcmpAt board2 0 boardMagic) then
    return (false, out)
  let magicPad := alignUp4 magicLen
  let want := boardName subsystemVendor subsystemDevice
  if 96 ≤ want.length then
    return (false, out)
  selectBoardLoop board2 want magicPad (sub32 board2.length magicPad) false out

theorem rdLe32_eq (h : slice b off 4 = some (encodeLE 4 n)) (hn : n < 2 ^ 32) :
    rdLe32 b off = some n := by
  rw [rdLe32, h, Option.map_some, decodeLE_encodeLE_of_lt (by omega)]

theorem alignUp4_eq (h : n + 3 < 2 ^ 32) : alignUp4 n = (n + 3) / 4 * 4 := by
  rw [alignUp4, Nat.mod_eq_of_lt h]

theorem Element.padded_step (e : Element) (h : e.encode.length < 2 ^ 32) :
    alignUp4 e.payload.length = e.payload.length + e.pad.length := by
  have he := e.encode_length
  have hp := e.padded_length
  rw [alignUp4_eq (by omega), hp]

theorem selectBoardLoop_name (e : Element) (pre post want : List UInt8) (nameMatch : Bool)
    (out : View) (hid : e.id = kBdIeBoardName)
    (hsize : (pre ++ (e.encode ++ post)).length < 2 ^ 32) :
    ∃ nameMatch', selectBoardLoop (pre ++ (e.encode ++ post)) want pre.length
        (e.encode ++ post).length nameMatch out =
      selectBoardLoop (pre ++ (e.encode ++ post)) want (pre ++ e.encode).length post.length
        nameMatch' out := by
  obtain ⟨hidb, hlenb, hpay⟩ := e.slice_fields pre post
  have he := e.encode_length
  simp only [List.length_append] at hsize
  have hpad := Element.padded_step e (by omega)
  have hrid := rdLe32_eq hidb (by rw [hid]; decide)
  have hrlen := rdLe32_eq hlenb (by omega)
  have hmatch : ∃ m, nameMatchStep (pre ++ (e.encode ++ post)) want (pre.length + 8) e.id
      e.payload.length nameMatch = some m := by
    simp only [nameMatchStep, if_pos hid]
    split
    · next hw => exact ⟨_, by rw [bcmpAt, ← hw, hpay]; rfl⟩
    · exact ⟨false, rfl⟩
  obtain ⟨m, hm⟩ := hmatch
  refine ⟨m, ?_⟩
  rw [selectBoardLoop, dif_pos (by rw [List.length_append]; omega)]
  rw [hid] at hm hrid
  simp only [hrid, hrlen, hm, hpad, Option.pure_def, Option.bind_eq_bind, Option.bind_some]
  have hlt : ¬ (e.encode ++ post).length - 8 < e.payload.length + e.pad.length := by
    rw [List.length_append]
    omega
  have hid' : ¬ (kBdIeBoardName = kBdIeBoardData ∧ m = true) := fun h => absurd h.1 (by decide)
  rw [if_neg (by omega), if_neg hid', if_neg hlt]
  congr 1
  · rw [List.length_append, he]
    omega
  · rw [List.length_append, he]
    omega

theorem selectBoardLoop_names (es : List Element) (pre want : List UInt8) (nameMatch : Bool)
    (out : View) (hid : ∀ e ∈ es, e.id = kBdIeBoardName)
    (hsize : (pre ++ encodeAll es).length < 2 ^ 32) :
    selectBoardLoop (pre ++ encodeAll es) want pre.length (encodeAll es).length nameMatch out =
      some (false, out) := by
  induction es generalizing pre nameMatch with
  | nil => rw [selectBoardLoop, dif_neg (by simp)]
  | cons e es ih =>
    obtain ⟨m, hm⟩ := selectBoardLoop_name e pre (encodeAll es) want nameMatch out
      (hid e List.mem_cons_self) hsize
    rw [encodeAll_cons, hm, ← List.append_assoc]
    apply ih
    · exact fun x hx => hid x (List.mem_cons_of_mem e hx)
    · rwa [List.append_assoc]

/-- One board of the documented format: a name element followed by a data element. -/
structure BoardEntry where
  name : Element
  data : Element
  name_id : name.id = kBdIeBoardName
  data_id : data.id = kBdIeBoardData

def kBdIeBoard : Nat := 0

def BoardEntry.outer (e : BoardEntry) : Element where
  id := kBdIeBoard
  payload := encodeAll [e.name, e.data]
  pad := []
  pad_length := by
    have h := encodeAll_length_dvd [e.name, e.data]
    rw [List.length_nil]
    omega

/-- A board file: the magic padded to twenty bytes, then the boards. -/
def boardFile (fill : Fin 3 → UInt8) (es : List BoardEntry) : List UInt8 :=
  (boardMagic ++ List.ofFn fill) ++ encodeAll (es.map BoardEntry.outer)

def boardDataOffset (before : List BoardEntry) (e : BoardEntry) : Nat :=
  20 + (encodeAll (before.map BoardEntry.outer)).length + 8 + e.name.encode.length + 8

/-- What the format promises: the data of the first board with the wanted name, or a refusal
when no board has it. -/
def SelectsFirst (fill : Fin 3 → UInt8) (es : List BoardEntry)
    (subsystemVendor subsystemDevice : UInt16) (out : View) : Prop :=
  let want := boardName subsystemVendor subsystemDevice
  let result := selectBoard (boardFile fill es) subsystemVendor subsystemDevice out
  (∀ before e after, es = before ++ e :: after → (∀ x ∈ before, x.name.payload ≠ want) →
    e.name.payload = want →
      result = some (true, ⟨some (boardDataOffset before e), e.data.payload.length⟩)) ∧
  ((∀ e ∈ es, e.name.payload ≠ want) → ∃ out', result = some (false, out'))

theorem exists_first_board {es : List BoardEntry} (he : e ∈ es) (hname : e.name.payload = want) :
    ∃ before e₀ after, es = before ++ e₀ :: after ∧
      (∀ x ∈ before, x.name.payload ≠ want) ∧ e₀.name.payload = want := by
  have hsome : (es.find? fun x => x.name.payload == want).isSome :=
    List.find?_isSome.2 ⟨e, he, beq_iff_eq.2 hname⟩
  obtain ⟨e₀, hfind⟩ := Option.isSome_iff_exists.1 hsome
  obtain ⟨hwant, before, after, hes, hbefore⟩ := List.find?_eq_some_iff_append.1 hfind
  refine ⟨before, e₀, after, hes, ?_, beq_iff_eq.1 hwant⟩
  intro x hx
  simpa only [Bool.not_eq_true', beq_eq_false_iff_ne] using hbefore x hx

theorem boardName_length (v d : UInt16) : (boardName v d).length = 75 := by
  simp only [boardName, List.length_append, hex4, List.length_cons, List.length_nil]
  decide

theorem boardMagic_length : boardMagic.length = 17 := by decide

/-- The walk stays at the outer level, where every element has the id of a name. -/
theorem selectBoard_boardFile (fill : Fin 3 → UInt8) (es : List BoardEntry) (v d : UInt16)
    (out : View) (hsize : (boardFile fill es).length < 2 ^ 32) :
    selectBoard (boardFile fill es) v d out = some (false, out) := by
  have hpre : (boardMagic ++ List.ofFn fill).length = 20 := by
    rw [List.length_append, List.length_ofFn, boardMagic_length]
  have hpad : alignUp4 boardMagic.length = 20 := by
    rw [boardMagic_length]
    rfl
  have hlen : (boardFile fill es).length = 20 + (encodeAll (es.map BoardEntry.outer)).length := by
    rw [boardFile, List.length_append, hpre]
  have hmagic : bcmpAt (boardFile fill es) 0 boardMagic = some true := by
    have hs : slice (boardFile fill es) 0 boardMagic.length = some boardMagic := by
      apply slice_eq_of_append [] boardMagic
        (List.ofFn fill ++ encodeAll (es.map BoardEntry.outer)) _ rfl rfl
      simp only [boardFile, List.append_assoc, List.nil_append]
    simp only [bcmpAt, hs, Option.map_some, BEq.rfl]
  have hsub : sub32 (boardFile fill es).length 20 =
      (encodeAll (es.map BoardEntry.outer)).length := by
    rw [sub32]
    omega
  have hshort : ¬ (boardFile fill es).length < boardMagic.length := by
    rw [boardMagic_length]
    omega
  have hwant : ¬ 96 ≤ (boardName v d).length := by
    rw [boardName_length]
    decide
  simp only [selectBoard, hmagic, hpad, hsub, Option.pure_def, Option.bind_eq_bind,
    Option.bind_some, Bool.not_true, Bool.false_eq_true, if_neg hshort, if_neg hwant, if_false]
  rw [← hpre, boardFile]
  apply selectBoardLoop_names
  · intro e he
    obtain ⟨b, -, rfl⟩ := List.mem_map.1 he
    rfl
  · exact hsize

theorem not_selectsFirst (he : e ∈ es) (hname : e.name.payload = boardName v d)
    (hsize : (boardFile fill es).length < 2 ^ 32) : ¬ SelectsFirst fill es v d out := by
  intro h
  obtain ⟨before, e₀, after, hes, hfirst, hwant⟩ := exists_first_board he hname
  have hsel := h.1 before e₀ after hes hfirst hwant
  rw [selectBoard_boardFile fill es v d out hsize] at hsel
  cases hsel

/-- On the documented format `selectBoard` meets its promise exactly when no board has the
wanted name. -/
theorem selectsFirst_iff (fill : Fin 3 → UInt8) (es : List BoardEntry) (v d : UInt16) (out : View)
    (hsize : (boardFile fill es).length < 2 ^ 32) :
    SelectsFirst fill es v d out ↔ ∀ e ∈ es, e.name.payload ≠ boardName v d := by
  constructor
  · exact fun h e he hname => not_selectsFirst he hname hsize h
  · intro h
    refine ⟨?_, fun _ => ⟨out, selectBoard_boardFile fill es v d out hsize⟩⟩
    intro before e after hes _ hname
    exact absurd hname (h e (hes ▸ List.mem_append_right before List.mem_cons_self))

def cardBoard : BoardEntry where
  name := ⟨kBdIeBoardName, boardName 0x11ad 0x08a6, [0], rfl⟩
  data := ⟨kBdIeBoardData, [1, 2, 3, 4], [], rfl⟩
  name_id := rfl
  data_id := rfl

theorem selectsFirst_other_card :
    SelectsFirst (fun _ => 0) [cardBoard] 0x11ad 0x0806 ⟨none, 0⟩ :=
  (selectsFirst_iff (fun _ => 0) [cardBoard] 0x11ad 0x0806 ⟨none, 0⟩
    (by decide +kernel)).2 (by decide +kernel)

theorem selectsFirst_refuses_card :
    (boardFile (fun _ => 0) [cardBoard]).length < 2 ^ 32 ∧
      ¬ SelectsFirst (fun _ => 0) [cardBoard] 0x11ad 0x08a6 ⟨none, 0⟩ := by
  have hsize : (boardFile (fun _ => 0) [cardBoard]).length < 2 ^ 32 := by decide +kernel
  exact ⟨hsize, not_selectsFirst List.mem_cons_self rfl hsize⟩

end Qca9377
