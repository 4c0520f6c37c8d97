import Qca9377.Bytes

namespace Elements
open Bytes
set_option autoImplicit true

/-- One element of a container: an id and a payload, padded to a multiple of four bytes. -/
structure Element where
  id : Nat
  payload : List UInt8
  pad : List UInt8
  pad_length : pad.length = (4 - payload.length % 4) % 4

def Element.encode (e : Element) : List UInt8 :=
  encodeLE 4 e.id ++ (encodeLE 4 e.payload.length ++ (e.payload ++ e.pad))

/-- The bytes of a list of elements, one after another. -/
def encodeAll (es : List Element) : List UInt8 := es.flatMap Element.encode

@[simp] theorem encodeAll_nil : encodeAll [] = [] := rfl

@[simp] theorem encodeAll_cons (e : Element) (es : List Element) :
    encodeAll (e :: es) = e.encode ++ encodeAll es := rfl

theorem Element.encode_length (e : Element) :
    e.encode.length = 8 + e.payload.length + e.pad.length := by
  simp only [encode, List.length_append, encodeLE_length]
  omega

theorem Element.padded_length (e : Element) :
    e.payload.length + e.pad.length = (e.payload.length + 3) / 4 * 4 := by
  have hp := e.pad_length
  omega

theorem Element.encode_length_dvd (e : Element) : 4 ∣ e.encode.length := by
  rw [e.encode_length, Nat.add_assoc, e.padded_length]
  exact Nat.dvd_add (by decide) (Nat.dvd_mul_left 4 _)

theorem encodeAll_length_dvd (es : List Element) : 4 ∣ (encodeAll es).length := by
  induction es with
  | nil => exact Nat.dvd_zero 4
  | cons e es ih =>
    rw [encodeAll_cons, List.length_append]
    exact Nat.dvd_add e.encode_length_dvd ih

/-- The header and payload of an element, without its padding. -/
def Element.bare (e : Element) : List UInt8 :=
  encodeLE 4 e.id ++ (encodeLE 4 e.payload.length ++ e.payload)

/-- The bytes of a list of elements, the last one without its padding. -/
def encodeOpen : List Element → List UInt8
  | [] => []
  | [e] => e.bare
  | e :: f :: es => e.encode ++ encodeOpen (f :: es)

theorem Element.encode_eq (e : Element) : e.encode = e.bare ++ e.pad := by
  simp only [encode, bare, List.append_assoc]

theorem Element.bare_length (e : Element) : e.bare.length = 8 + e.payload.length := by
  simp only [bare, List.length_append, encodeLE_length]
  omega

theorem encodeOpen_concat (es : List Element) (e : Element) :
    encodeOpen (es ++ [e]) = encodeAll es ++ e.bare := by
  induction es with
  | nil => rfl
  | cons f es ih =>
    rw [encodeAll_cons, List.append_assoc, ← ih]
    cases es <;> rfl

theorem Element.bare_fields (e : Element) (pre post : List UInt8) :
    slice (pre ++ (e.bare ++ post)) pre.length 4 = some (encodeLE 4 e.id) ∧
      slice (pre ++ (e.bare ++ post)) (pre.length + 4) 4 = some (encodeLE 4 e.payload.length) ∧
      slice (pre ++ (e.bare ++ post)) (pre.length + 8) e.payload.length = some e.payload := by
  refine ⟨?_, ?_, ?_⟩
  · apply slice_eq_of_append pre (encodeLE 4 e.id)
      (encodeLE 4 e.payload.length ++ e.payload ++ post)
    · simp only [bare, List.append_assoc]
    · rfl
    · rw [encodeLE_length]
  · apply slice_eq_of_append (pre ++ encodeLE 4 e.id) (encodeLE 4 e.payload.length)
      (e.payload ++ post)
    · simp only [bare, List.append_assoc]
    · rw [List.length_append, encodeLE_length]
    · rw [encodeLE_length]
  · apply slice_eq_of_append (pre ++ encodeLE 4 e.id ++ encodeLE 4 e.payload.length) e.payload post
    · simp only [bare, List.append_assoc]
    · simp only [List.length_append, encodeLE_length]
    · rfl

theorem Element.slice_fields (e : Element) (pre post : List UInt8) :
    slice (pre ++ (e.encode ++ post)) pre.length 4 = some (encodeLE 4 e.id) ∧
      slice (pre ++ (e.encode ++ post)) (pre.length + 4) 4 =
        some (encodeLE 4 e.payload.length) ∧
      slice (pre ++ (e.encode ++ post)) (pre.length + 8) e.payload.length =
        some e.payload := by
  rw [e.encode_eq, List.append_assoc]
  exact e.bare_fields pre (e.pad ++ post)

end Elements
