import Qca9377.BmiSends

namespace Qca9377
open Bytes Interleaving
set_option autoImplicit true

/-- The frames handed to `send` when the copy engine answers the sends as `o` says. -/
def Sends.handed (t : Sends α) (o : Nat → Bool) : List (List UInt8) :=
  (t.made fun n _ => o n).map Prod.fst

/-- Two runs that start with different contents of the command's payload field, and meet the same
outcomes, hand over the same frames. -/
def StackHidden (t : List UInt8 → Sends α) : Prop :=
  ∀ s s' : List UInt8, s.length = kBmiMaxDataSize → s'.length = kBmiMaxDataSize →
    ∀ o, (t s).handed o = (t s').handed o

/-- The payload field does not reach a frame of `writeMemory`: nothing is padded, or the first chunk
has overwritten what a later one is padded with. -/
theorem writePad_hidden (h : 4 ∣ buf.length ∨ kBmiMaxDataSize - 12 ≤ buf.length)
    (hs : kBmiMaxDataSize - 12 ≤ s.length) (hs' : kBmiMaxDataSize - 12 ≤ s'.length) :
    Bmi.writePad s buf = Bmi.writePad s' buf := by
  rcases h with hword | hbig
  · have hzero : Bmi.wordPad buf.length = 0 := by
      rw [Bmi.wordPad, Nat.mod_eq_zero_of_dvd hword]
    rw [Bmi.writePad, Bmi.writePad, hzero, List.take_zero, List.take_zero]
  · rw [← Bmi.writePad_drop hbig s [] hs, ← Bmi.writePad_drop hbig s' [] hs']

theorem writePad_shown (hword : ¬ 4 ∣ buf.length) (hsmall : buf.length < kBmiMaxDataSize - 12)
    (b : UInt8) :
    Bmi.writePad (List.replicate kBmiMaxDataSize b) buf =
      List.replicate (Bmi.wordPad buf.length) b ∧ 0 < Bmi.wordPad buf.length := by
  have hcap : kBmiMaxDataSize - 12 = 244 := rfl
  rw [hcap] at hsmall
  have hpad : Bmi.wordPad buf.length ≤ 244 - buf.length ∧ 0 < Bmi.wordPad buf.length := by
    rw [Bmi.wordPad]
    omega
  refine ⟨?_, hpad.2⟩
  have htake : (List.replicate kBmiMaxDataSize b).take 244 = List.replicate 244 b := by
    rw [List.take_replicate]
    rfl
  have hdrop : (List.replicate 244 b).drop buf.length = List.replicate (244 - buf.length) b :=
    List.drop_replicate
  have hlen : buf.length ≤ (List.replicate 244 b).length := by
    rw [List.length_replicate]
    exact hsmall.le
  have hroom : Bmi.wordPad buf.length ≤ (List.replicate (244 - buf.length) b).length := by
    rw [List.length_replicate]
    exact hpad.1
  rw [Bmi.writePad, hcap, htake, List.drop_append_of_le_length hlen, hdrop,
    List.take_append_of_le_length hroom, List.take_replicate, min_eq_left hpad.1]

theorem handed_short (addr : Nat) (hbuf : buf ≠ []) (hword : ¬ 4 ∣ buf.length)
    (hsmall : buf.length < kBmiMaxDataSize - 12) (b : UInt8) (o : Nat → Bool) :
    (Bmi.writeMemorySends (List.replicate kBmiMaxDataSize b) addr buf).handed o =
      [bmiCmd kBmiWriteMemory [addr, buf.length + Bmi.wordPad buf.length] ++
        (buf ++ List.replicate (Bmi.wordPad buf.length) b)] := by
  have hcap : kBmiMaxDataSize - 12 = 244 := rfl
  have hp : kBmiMaxDataSize - 12 ≤ (List.replicate kBmiMaxDataSize b).length := by
    rw [List.length_replicate]
    exact Nat.sub_le _ _
  have hlen : (buf ++ List.replicate (Bmi.wordPad buf.length) b).length =
      buf.length + Bmi.wordPad buf.length := by
    rw [List.length_append, List.length_replicate]
  have hfits : (buf ++ List.replicate (Bmi.wordPad buf.length) b).length ≤
      kBmiMaxDataSize - 12 := by
    rw [hlen, Bmi.wordPad, hcap]
    rw [hcap] at hsmall
    omega
  have hne : buf ++ List.replicate (Bmi.wordPad buf.length) b ≠ [] :=
    List.append_ne_nil_of_left_ne_nil hbuf _
  rw [Bmi.writeMemorySends, if_neg hbuf, Bmi.writeChunksSends_all _ addr buf hp,
    (writePad_shown hword hsmall b).1, pieces_cons (by decide) hne, List.take_of_length_le hfits,
    List.drop_of_length_le hfits, pieces_nil, Bmi.writeFrames, Bmi.writeFrames, hlen]
  rw [Sends.handed, Calls.all, Calls.made]
  cases o 0 with
  | false => rfl
  | true => rfl

theorem fastDownload_hidden (addr : Nat) (buf : List UInt8) :
    StackHidden fun stack => Bmi.fastDownloadSends stack addr buf := by
  intro s s' hs hs' o
  by_cases hbuf : buf = []
  · unfold Bmi.fastDownloadSends
    dsimp only
    rw [if_pos hbuf, if_pos hbuf]
  · dsimp only
    rw [Bmi.fastDownloadSends_all addr buf hs.ge hbuf,
      Bmi.fastDownloadSends_all addr buf hs'.ge hbuf]

theorem writeMemory_hidden (addr : Nat) (buf : List UInt8) :
    StackHidden (fun stack => Bmi.writeMemorySends stack addr buf) ↔
      4 ∣ buf.length ∨ kBmiMaxDataSize - 12 ≤ buf.length := by
  have hcap : kBmiMaxDataSize - 12 ≤ kBmiMaxDataSize := Nat.sub_le _ _
  constructor
  · intro h
    by_contra hno
    obtain ⟨hword, hbig⟩ := not_or.1 hno
    have hsmall := Nat.lt_of_not_le hbig
    have hbuf : buf ≠ [] := by
      rintro rfl
      exact hword (Nat.dvd_zero 4)
    have heq := h (List.replicate kBmiMaxDataSize 0) (List.replicate kBmiMaxDataSize 1)
      List.length_replicate List.length_replicate fun _ => true
    dsimp only at heq
    rw [handed_short addr hbuf hword hsmall, handed_short addr hbuf hword hsmall,
      List.cons.injEq] at heq
    have hpad := List.append_cancel_left (List.append_cancel_left heq.1)
    have hpos := (writePad_shown hword hsmall 0).2
    have hbyte := List.replicate_right_injective hpos.ne' hpad
    cases hbyte
  · intro h s s' hs hs' o
    dsimp only
    unfold Bmi.writeMemorySends
    split
    · rfl
    · rw [Bmi.writeChunksSends_all s addr buf (hcap.trans hs.ge),
        Bmi.writeChunksSends_all s' addr buf (hcap.trans hs'.ge),
        writePad_hidden h (hcap.trans hs.ge) (hcap.trans hs'.ge)]

/-- `fastDownload` never shows the device what was on the stack, and `writeMemory` does not just
when the buffer is a whole number of words or fills the first frame. -/
theorem stackHidden_iff (addr : Nat) (buf : List UInt8) :
    (StackHidden (fun stack => Bmi.writeMemorySends stack addr buf) ∧
        StackHidden (fun stack => Bmi.fastDownloadSends stack addr buf) ↔
      4 ∣ buf.length ∨ kBmiMaxDataSize - 12 ≤ buf.length) ∧
    StackHidden fun stack => Bmi.fastDownloadSends stack addr buf := by
  have hfast := fastDownload_hidden addr buf
  exact ⟨(and_iff_left hfast).trans (writeMemory_hidden addr buf), hfast⟩

theorem stack_shown :
    (Bmi.writeMemorySends (List.replicate 256 0) 0x400 [0xab]).handed (fun _ => true) =
        [[3, 0, 0, 0, 0, 4, 0, 0, 4, 0, 0, 0, 0xab, 0, 0, 0]] ∧
      (Bmi.writeMemorySends (List.replicate 256 0xff) 0x400 [0xab]).handed (fun _ => true) =
        [[3, 0, 0, 0, 0, 4, 0, 0, 4, 0, 0, 0, 0xab, 0xff, 0xff, 0xff]] ∧
      ¬ StackHidden fun stack => Bmi.writeMemorySends stack 0x400 [0xab] := by
  have hword : ¬ 4 ∣ [(0xab : UInt8)].length := by decide
  have hsmall : [(0xab : UInt8)].length < kBmiMaxDataSize - 12 := by decide
  have hbyte (b : UInt8) :=
    handed_short 0x400 (List.cons_ne_nil 0xab []) hword hsmall b fun _ => true
  refine ⟨hbyte 0, hbyte 0xff, fun h => ?_⟩
  rcases (writeMemory_hidden _ _).1 h with hdvd | hbig
  · exact hword hdvd
  · exact Nat.not_le.2 hsmall hbig

end Qca9377
