import Qca9377.BoardFile

namespace Qca9377
open Bytes Elements
set_option autoImplicit true

def kIeFwVersion : Nat := 0
def kIeFwImage : Nat := 3
def kIeOtpImage : Nat := 4

/-- What `parseFirmware` fills in; `version` is a buffer of 64 bytes. -/
structure FwImage where
  firmware : View
  otp : View
  version : List UInt8
  deriving DecidableEq, Repr

def freshImage : FwImage := ⟨⟨none, 0⟩, ⟨none, 0⟩, List.replicate 64 0⟩

def fwMagic : List UInt8 := ascii "QCA-ATH10K" ++ [0]

/-- The switch of `parseFirmware` on one IE. -/
def FwImage.enter (fw : List UInt8) (data ieId ieLen : Nat) (out : FwImage) : Option FwImage :=
  if ieId = kIeFwVersion then
    if ieLen < 64 - 1 then do
      let payload ← slice fw data ieLen
      return { out with version := poke (poke out.version 0 payload) ieLen [0] }
    else some out
  else if ieId = kIeFwImage then some { out with firmware := ⟨some data, ieLen⟩ }
  else if ieId = kIeOtpImage then some { out with otp := ⟨some data, ieLen⟩ }
  else some out

/-- The loop of `parseFirmware`; the flag is false where a truncated IE ends it, and `none` is a
read outside the image. -/
def parseFirmwareLoop (fw : List UInt8) (data len : Nat) (out : FwImage) :
    Option (Bool × FwImage) :=
  if _h : 8 ≤ len then do
    let ieId ← rdLe32 fw data
    let ieLen ← rdLe32 fw (data + 4)
    if len - 8 < ieLen then
      return (false, out)
    let out ← out.enter fw (data + 8) ieId ieLen
    let pad := alignUp4 ieLen
    if len - 8 < pad then
      return (true, out)
    parseFirmwareLoop fw (data + 8 + pad) (len - 8 - pad) out
  else some (true, out)
termination_by len

def parseFirmware (fw : List UInt8) (out : FwImage) : Option (Bool × FwImage) := do
  let magicLen := fwMagic.length
  if fw.length < magicLen then
    return (false, out)
  if !(← bcmpAt fw 0 fwMagic) then
    return (false, out)
  let magicPad := alignUp4 magicLen
  let (ok, out) ← parseFirmwareLoop fw magicPad (sub32 fw.length magicPad) out
  if !ok then
    return (false, out)
  if out.firmware.ptr = none ∨ out.firmware.len = 0 then
    return (false, out)
  return (true, out)

def lastWith (p : Element → Bool) (es : List Element) : Option Element := es.reverse.find? p

theorem lastWith_concat (p : Element → Bool) (es : List Element) (e : Element) :
    lastWith p (es ++ [e]) = if p e then some e else lastWith p es := by
  rw [lastWith, List.reverse_append, List.reverse_singleton, List.singleton_append,
    List.find?_cons]
  cases p e <;> rfl

def isVersion (e : Element) : Bool := e.id = kIeFwVersion ∧ e.payload.length < 63
def isFirmware (e : Element) : Bool := e.id = kIeFwImage
def isOtp (e : Element) : Bool := e.id = kIeOtpImage

/-- A view that is null for no element and the element's payload otherwise. -/
def ViewOf (fw : List UInt8) (v : View) : Option Element → Prop
  | none => v = ⟨none, 0⟩
  | some e => ∃ off, v = ⟨some off, e.payload.length⟩ ∧
      slice fw off e.payload.length = some e.payload

/-- A version buffer that is empty for no element and otherwise starts with the element's payload
and a NUL. -/
def VersionOf (version : List UInt8) : Option Element → Prop
  | none => version = List.replicate 64 0
  | some e => e.payload ++ [0] <+: version

structure ImageOf (fw : List UInt8) (es : List Element) (img : FwImage) : Prop where
  firmware : ViewOf fw img.firmware (lastWith isFirmware es)
  otp : ViewOf fw img.otp (lastWith isOtp es)
  version : VersionOf img.version (lastWith isVersion es)

theorem version_entered (version payload : List UInt8) :
    payload ++ [0] <+: poke (poke version 0 payload) payload.length [0] := by
  have htake : (poke version 0 payload).take payload.length = payload := by
    rw [poke, List.take_zero, List.nil_append, List.take_left]
  rw [poke, htake]
  exact List.prefix_append _ _

theorem ImageOf.skip (h : ImageOf fw es img) (hver : isVersion e = false)
    (hfw : isFirmware e = false) (hotp : isOtp e = false) : ImageOf fw (es ++ [e]) img := by
  constructor
  · rw [lastWith_concat, hfw]
    exact h.firmware
  · rw [lastWith_concat, hotp]
    exact h.otp
  · rw [lastWith_concat, hver]
    exact h.version

theorem ImageOf.enter (h : ImageOf fw es img) (e : Element)
    (hpay : slice fw off e.payload.length = some e.payload) :
    ∃ img', img.enter fw off e.id e.payload.length = some img' ∧ ImageOf fw (es ++ [e]) img' := by
  have hview : ViewOf fw ⟨some off, e.payload.length⟩ (some e) := ⟨off, rfl, hpay⟩
  have hkind (id : Nat) (hid : e.id = id) : isFirmware e = decide (id = kIeFwImage) ∧
      isOtp e = decide (id = kIeOtpImage) := by
    rw [isFirmware, isOtp, hid]
    exact ⟨rfl, rfl⟩
  have hnover (hid : e.id ≠ kIeFwVersion) : isVersion e = false :=
    decide_eq_false fun hv => hid hv.1
  unfold FwImage.enter
  split
  · next hid =>
    obtain ⟨hfw, hotp⟩ := hkind _ hid
    split
    · next hlen =>
      have hver : isVersion e = true := decide_eq_true ⟨hid, hlen⟩
      rw [hpay]
      refine ⟨_, rfl, ?_, ?_, ?_⟩
      · rw [lastWith_concat, hfw]
        exact h.firmware
      · rw [lastWith_concat, hotp]
        exact h.otp
      · rw [lastWith_concat, hver]
        exact version_entered _ _
    · next hlen => exact ⟨img, rfl, h.skip (decide_eq_false fun hv => hlen hv.2) hfw hotp⟩
  · next hver =>
    split
    · next hid =>
      obtain ⟨hfw, hotp⟩ := hkind _ hid
      refine ⟨_, rfl, ?_, ?_, ?_⟩
      · rw [lastWith_concat, hfw]
        exact hview
      · rw [lastWith_concat, hotp]
        exact h.otp
      · rw [lastWith_concat, hnover hver]
        exact h.version
    · next hfwid =>
      have hfw : isFirmware e = false := decide_eq_false hfwid
      split
      · next hid =>
        refine ⟨_, rfl, ?_, ?_, ?_⟩
        · rw [lastWith_concat, hfw]
          exact h.firmware
        · rw [lastWith_concat, (hkind _ hid).2]
          exact hview
        · rw [lastWith_concat, hnover hver]
          exact h.version
      · next hotpid => exact ⟨img, rfl, h.skip (hnover hver) hfw (decide_eq_false hotpid)⟩

/-- One element of the walk; where its padding does not fit, the walk ends after it. -/
theorem parseFirmwareLoop_bare (e : Element) (pre post : List UInt8) (out : FwImage)
    (hid : e.id < 2 ^ 32) (hsize : (pre ++ (e.bare ++ post)).length < 2 ^ 32) :
    parseFirmwareLoop (pre ++ (e.bare ++ post)) pre.length (e.bare ++ post).length out =
      (out.enter (pre ++ (e.bare ++ post)) (pre.length + 8) e.id e.payload.length).bind fun out =>
        if post.length < e.pad.length then some (true, out)
        else parseFirmwareLoop (pre ++ (e.bare ++ post)) (pre.length + e.encode.length)
          (post.length - e.pad.length) out := by
  obtain ⟨hidb, hlenb, -⟩ := e.bare_fields pre post
  have hbare := e.bare_length
  have henc := e.encode_length
  have hpadded := e.padded_length
  simp only [List.length_append] at hsize
  have hrid := rdLe32_eq hidb hid
  have hrlen := rdLe32_eq hlenb (by omega)
  have hpad : alignUp4 e.payload.length = e.payload.length + e.pad.length := by
    rw [alignUp4_eq (by omega), hpadded]
  have hlen : (e.bare ++ post).length = 8 + e.payload.length + post.length := by
    rw [List.length_append, hbare]
  rw [parseFirmwareLoop, dif_pos (by omega)]
  simp only [hrid, hrlen, hpad, Option.pure_def, Option.bind_eq_bind, Option.bind_some]
  rw [if_neg (by omega)]
  congr 1
  funext out
  have hrest : (e.bare ++ post).length - 8 - (e.payload.length + e.pad.length) =
      post.length - e.pad.length := by omega
  have hnext : pre.length + 8 + (e.payload.length + e.pad.length) =
      pre.length + e.encode.length := by omega
  rw [hrest, hnext]
  by_cases hshort : post.length < e.pad.length
  · rw [if_pos hshort, if_pos (by omega)]
  · rw [if_neg hshort, if_neg (by omega)]

theorem parseFirmwareLoop_all (es seen : List Element) (pre post : List UInt8) (img : FwImage)
    (hfw : fw = pre ++ (encodeAll es ++ post)) (hid : ∀ e ∈ es, e.id < 2 ^ 32)
    (hsize : fw.length < 2 ^ 32) (himg : ImageOf fw seen img) :
    ∃ img', ImageOf fw (seen ++ es) img' ∧
      parseFirmwareLoop fw pre.length (encodeAll es ++ post).length img =
        parseFirmwareLoop fw (pre ++ encodeAll es).length post.length img' := by
  induction es generalizing pre seen img with
  | nil =>
    refine ⟨img, ?_, ?_⟩
    · rwa [List.append_nil]
    · rw [encodeAll_nil, List.nil_append, List.append_nil]
  | cons e es ih =>
    have hbytes : fw = pre ++ (e.bare ++ (e.pad ++ (encodeAll es ++ post))) := by
      rw [hfw, encodeAll_cons, e.encode_eq]
      simp only [List.append_assoc]
    have hpay := (e.bare_fields pre (e.pad ++ (encodeAll es ++ post))).2.2
    rw [← hbytes] at hpay
    obtain ⟨img₁, henter, himg₁⟩ := himg.enter e hpay
    have hnext : fw = (pre ++ e.encode) ++ (encodeAll es ++ post) := by
      rw [hfw, encodeAll_cons, List.append_assoc, List.append_assoc]
    obtain ⟨img₂, himg₂, hloop⟩ := ih (seen ++ [e]) (pre ++ e.encode) img₁ hnext
      (fun f hf => hid f (List.mem_cons_of_mem e hf)) himg₁
    refine ⟨img₂, ?_, ?_⟩
    · rwa [List.append_assoc, List.singleton_append] at himg₂
    · have hstep := parseFirmwareLoop_bare e pre (e.pad ++ (encodeAll es ++ post)) img
        (hid e List.mem_cons_self) (hbytes ▸ hsize)
      rw [← hbytes, henter] at hstep
      have hroom : ¬ (e.pad ++ (encodeAll es ++ post)).length < e.pad.length := by
        rw [List.length_append]
        omega
      have hrest : (e.pad ++ (encodeAll es ++ post)).length - e.pad.length =
          (encodeAll es ++ post).length := by
        rw [List.length_append, Nat.add_sub_cancel_left]
      have hall : encodeAll (e :: es) ++ post = e.bare ++ (e.pad ++ (encodeAll es ++ post)) := by
        rw [encodeAll_cons, e.encode_eq]
        simp only [List.append_assoc]
      rw [hall, hstep, Option.bind_some, if_neg hroom, hrest, ← List.length_append, hloop,
        encodeAll_cons, List.append_assoc]

theorem parseFirmwareLoop_end (fw : List UInt8) (data : Nat) (img : FwImage) :
    parseFirmwareLoop fw data 0 img = some (true, img) := by
  rw [parseFirmwareLoop, dif_neg (by decide)]

theorem parseFirmwareLoop_open (es : List Element) (pre : List UInt8) (img : FwImage)
    (hfw : fw = pre ++ encodeOpen es) (hid : ∀ e ∈ es, e.id < 2 ^ 32)
    (hsize : fw.length < 2 ^ 32) (himg : ImageOf fw [] img) :
    ∃ img', ImageOf fw es img' ∧
      parseFirmwareLoop fw pre.length (encodeOpen es).length img = some (true, img') := by
  rcases List.eq_nil_or_concat' es with rfl | ⟨es, e, rfl⟩
  · exact ⟨img, himg, parseFirmwareLoop_end _ _ _⟩
  · rw [encodeOpen_concat] at hfw ⊢
    obtain ⟨img₁, himg₁, hloop⟩ := parseFirmwareLoop_all es [] pre e.bare img hfw
      (fun f hf => hid f (List.mem_append_left _ hf)) hsize himg
    have hbytes : fw = (pre ++ encodeAll es) ++ (e.bare ++ []) := by
      rw [hfw, List.append_nil, List.append_assoc]
    have hpay := (e.bare_fields (pre ++ encodeAll es) []).2.2
    rw [← hbytes] at hpay
    obtain ⟨img₂, henter, himg₂⟩ := himg₁.enter e hpay
    have hstep := parseFirmwareLoop_bare e (pre ++ encodeAll es) [] img₁
      (hid e (List.mem_append_right _ (List.mem_singleton_self e))) (hbytes ▸ hsize)
    rw [← hbytes, List.append_nil, henter, Option.bind_some, List.length_nil, Nat.zero_sub,
      parseFirmwareLoop_end, ite_self] at hstep
    exact ⟨img₂, himg₂, hloop.trans hstep⟩

/-- A firmware image: the magic padded to twelve bytes, then its body. -/
def fwFile (fill : UInt8) (body : List UInt8) : List UInt8 := (fwMagic ++ [fill]) ++ body

theorem imageOf_fresh (fw : List UInt8) : ImageOf fw [] freshImage := ⟨rfl, rfl, rfl⟩

theorem parseFirmware_file (fill : UInt8) (body : List UInt8) (out : FwImage)
    (hsize : (fwFile fill body).length < 2 ^ 32)
    (hloop : parseFirmwareLoop (fwFile fill body) (fwMagic ++ [fill]).length body.length out =
      some (ok, img)) :
    parseFirmware (fwFile fill body) out =
      some (ok && decide (img.firmware.ptr ≠ none ∧ img.firmware.len ≠ 0), img) := by
  have hmagicLen : fwMagic.length = 11 := by decide
  have hpre : (fwMagic ++ [fill]).length = 12 := by rw [List.length_append, hmagicLen]; rfl
  have hlen : (fwFile fill body).length = 12 + body.length := by
    rw [fwFile, List.length_append, hpre]
  have hpad : alignUp4 fwMagic.length = 12 := by rw [hmagicLen]; rfl
  have hmagic : bcmpAt (fwFile fill body) 0 fwMagic = some true := by
    have hs : slice (fwFile fill body) 0 fwMagic.length = some fwMagic := by
      apply slice_eq_of_append [] fwMagic ([fill] ++ body) _ rfl rfl
      simp only [fwFile, List.append_assoc, List.nil_append]
    simp only [bcmpAt, hs, Option.map_some, BEq.rfl]
  have hsub : sub32 (fwFile fill body).length 12 = body.length := by
    rw [sub32]
    omega
  have hshort : ¬ (fwFile fill body).length < fwMagic.length := by omega
  rw [hpre] at hloop
  simp only [parseFirmware, hmagic, hpad, hsub, hloop, Option.pure_def, Option.bind_eq_bind,
    Option.bind_some, Bool.not_true, Bool.false_eq_true, if_neg hshort, if_false]
  cases ok with
  | false => rfl
  | true =>
    rw [Bool.true_and]
    by_cases hnone : img.firmware.ptr = none ∨ img.firmware.len = 0
    · have hbad : ¬ (img.firmware.ptr ≠ none ∧ img.firmware.len ≠ 0) :=
        fun h => hnone.elim h.1 h.2
      rw [decide_eq_false hbad]
      simp only [Bool.not_true, Bool.false_eq_true, if_false, if_pos hnone]
    · rw [decide_eq_true (not_or.1 hnone)]
      simp only [Bool.not_true, Bool.false_eq_true, if_false, if_neg hnone]

/-- A firmware image over whole elements, the padding of the last one present or not. -/
def encodeBody (padded : Bool) (es : List Element) : List UInt8 :=
  if padded then encodeAll es else encodeOpen es

def truncated (id len : Nat) (rest : List UInt8) : List UInt8 :=
  encodeLE 4 id ++ (encodeLE 4 len ++ rest)

theorem parseFirmwareLoop_truncated (id len : Nat) (pre rest : List UInt8) (img : FwImage)
    (hid : id < 2 ^ 32)
    (hlen : len < 2 ^ 32) (hshort : rest.length < len) :
    parseFirmwareLoop (pre ++ truncated id len rest) pre.length (truncated id len rest).length img =
      some (false, img) := by
  have hidb : slice (pre ++ truncated id len rest) pre.length 4 = some (encodeLE 4 id) :=
    slice_eq_of_append pre _ _ rfl rfl (encodeLE_length 4 id).symm
  have hlenb : slice (pre ++ truncated id len rest) (pre.length + 4) 4 =
      some (encodeLE 4 len) := by
    apply slice_eq_of_append (pre ++ encodeLE 4 id) (encodeLE 4 len) rest
    · simp only [truncated, List.append_assoc]
    · rw [List.length_append, encodeLE_length]
    · rw [encodeLE_length]
  have hall : (truncated id len rest).length = 8 + rest.length := by
    simp only [truncated, List.length_append, encodeLE_length]
    omega
  rw [parseFirmwareLoop, dif_pos (by omega)]
  simp only [rdLe32_eq hidb hid, rdLe32_eq hlenb hlen, Option.pure_def, Option.bind_eq_bind,
    Option.bind_some]
  rw [if_pos (by omega)]

theorem ImageOf.accepted (h : ImageOf fw es img) :
    (img.firmware.ptr ≠ none ∧ img.firmware.len ≠ 0) ↔
      ∃ e, lastWith isFirmware es = some e ∧ e.payload ≠ [] := by
  have hview := h.firmware
  cases hlast : lastWith isFirmware es with
  | none =>
    rw [hlast] at hview
    rw [hview]
    exact ⟨fun hn => absurd rfl hn.1, nofun⟩
  | some e =>
    rw [hlast] at hview
    obtain ⟨off, hv, -⟩ := hview
    rw [hv]
    constructor
    · exact fun hn => ⟨e, rfl, fun he => hn.2 (List.length_eq_zero_iff.2 he)⟩
    · rintro ⟨f, hf, hne⟩
      obtain rfl := Option.some.inj hf
      exact ⟨nofun, fun he => hne (List.length_eq_zero_iff.1 he)⟩

theorem parseFirmware_body (padded : Bool) (fill : UInt8) (es : List Element)
    (hid : ∀ e ∈ es, e.id < 2 ^ 32) (hsize : (fwFile fill (encodeBody padded es)).length < 2 ^ 32) :
    ∃ ok img, parseFirmware (fwFile fill (encodeBody padded es)) freshImage = some (ok, img) ∧
      (ok = true ↔ ∃ e, lastWith isFirmware es = some e ∧ e.payload ≠ []) ∧
      ImageOf (fwFile fill (encodeBody padded es)) es img := by
  have hloop : ∃ img, ImageOf (fwFile fill (encodeBody padded es)) es img ∧
      parseFirmwareLoop (fwFile fill (encodeBody padded es)) (fwMagic ++ [fill]).length
        (encodeBody padded es).length freshImage = some (true, img) := by
    cases padded with
    | false => exact parseFirmwareLoop_open es _ freshImage rfl hid hsize (imageOf_fresh _)
    | true =>
      obtain ⟨img, himg, hloop⟩ := parseFirmwareLoop_all es [] (fwMagic ++ [fill]) [] freshImage
        (by rw [List.append_nil]; rfl) hid hsize (imageOf_fresh _)
      rw [List.append_nil, List.length_nil, parseFirmwareLoop_end] at hloop
      exact ⟨img, himg, hloop⟩
  obtain ⟨img, himg, hrun⟩ := hloop
  refine ⟨_, img, parseFirmware_file fill _ freshImage hsize hrun, ?_, himg⟩
  rw [Bool.true_and, decide_eq_true_iff]
  exact himg.accepted

/-- On an encoded image, with the last padding present or not, the parser accepts exactly when the
last firmware element has a payload, and finds the last element of each kind; a truncated element
makes it refuse. -/
theorem parseFirmware_encode (fill : UInt8) (es : List Element)
    (hid : ∀ e ∈ es, e.id < 2 ^ 32) :
    (∀ padded, (fwFile fill (encodeBody padded es)).length < 2 ^ 32 →
      ∃ ok img, parseFirmware (fwFile fill (encodeBody padded es)) freshImage = some (ok, img) ∧
        (ok = true ↔ ∃ e, lastWith isFirmware es = some e ∧ e.payload ≠ []) ∧
        ImageOf (fwFile fill (encodeBody padded es)) es img) ∧
      ∀ id len rest, id < 2 ^ 32 → len < 2 ^ 32 → rest.length < len →
        (fwFile fill (encodeAll es ++ truncated id len rest)).length < 2 ^ 32 →
          ∃ img, parseFirmware (fwFile fill (encodeAll es ++ truncated id len rest)) freshImage =
            some (false, img) := by
  constructor
  · exact fun padded hsize => parseFirmware_body padded fill es hid hsize
  · intro id len rest hid' hlen hshort hsize
    obtain ⟨img, -, hloop⟩ := parseFirmwareLoop_all es [] (fwMagic ++ [fill])
      (truncated id len rest) freshImage rfl hid hsize (imageOf_fresh _)
    have hbytes : fwFile fill (encodeAll es ++ truncated id len rest) =
        (fwMagic ++ [fill] ++ encodeAll es) ++ truncated id len rest :=
      (List.append_assoc _ _ _).symm
    have hcut := parseFirmwareLoop_truncated id len (fwMagic ++ [fill] ++ encodeAll es) rest img
      hid' hlen hshort
    rw [← hbytes] at hcut
    exact ⟨img, parseFirmware_file fill _ freshImage hsize (hloop.trans hcut)⟩

def sampleElements : List Element :=
  [⟨kIeFwVersion, ascii "WLAN.TF", [0], by decide⟩, ⟨kIeOtpImage, [1, 2, 3], [0], by decide⟩,
    ⟨kIeFwImage, [4, 5, 6, 7, 8], [0, 0, 0], by decide⟩]

theorem parseFirmware_encode_sample :
    ∃ ok img, parseFirmware (fwFile 0 (encodeBody false sampleElements)) freshImage =
        some (ok, img) ∧
      (ok = true ↔ ∃ e, lastWith isFirmware sampleElements = some e ∧ e.payload ≠ []) ∧
      ImageOf (fwFile 0 (encodeBody false sampleElements)) sampleElements img := by
  have hid : ∀ e ∈ sampleElements, e.id < 2 ^ 32 := by
    intro e he
    simp only [sampleElements, List.mem_cons, List.not_mem_nil, or_false] at he
    rcases he with rfl | rfl | rfl
    · decide
    · decide
    · decide
  exact (parseFirmware_encode 0 sampleElements hid).1 false (by decide +kernel)

end Qca9377
