import Qca9377.Bmi
import Qca9377.Calls

namespace Qca9377
open Bytes Interleaving
set_option autoImplicit true

/-- BMI code with `CEManager::send` left open. -/
abbrev Sends := Calls (List UInt8) Bool

namespace Bmi

/-- The loop of `writeMemory`, next to `writeChunks`. -/
def writeChunksSends (payload : List UInt8) (addr : Nat) (buf : List UInt8) : Sends Bool :=
  if _ : buf = [] then return true
  else do
    let tx := min buf.length (kBmiMaxDataSize - 12)
    let filled := poke payload 0 (buf.take tx)
    let padded := (tx + 3) / 4 * 4
    if !(← Calls.make (bmiCmd kBmiWriteMemory [addr, padded] ++ filled.take padded)) then
      return false
    writeChunksSends filled (addr + tx) (buf.drop tx)
termination_by buf.length
decreasing_by
  have := List.length_pos_iff.2 ‹buf ≠ []›
  simp only [List.length_drop, kBmiMaxDataSize]
  omega

def writeMemorySends (stack : List UInt8) (addr : Nat) (buf : List UInt8) : Sends Bool :=
  if buf = [] then return false else writeChunksSends stack addr buf

/-- The body loop of `fastDownload`, with the command whose payload field is reused and the reads
of the image. `none` is a read outside the image; the second option is empty when a send failed and
holds the payload field otherwise. -/
def lzDataSends (payload buf : List UInt8) (p remaining : Nat) :
    Sends (Option (Option (List UInt8))) :=
  if remaining = 0 then return some (some payload)
  else
    let tx := min remaining (kBmiMaxDataSize - 8)
    match slice buf p tx with
    | none => return none
    | some x => do
      let filled := poke payload 0 x
      if !(← Calls.make (bmiCmd kBmiLzData [tx] ++ filled.take tx)) then return some none
      lzDataSends filled buf (p + tx) (remaining - tx)
termination_by remaining
decreasing_by
  simp only [kBmiMaxDataSize]
  omega

def lzTailSends (payload buf : List UInt8) (p tail : Nat) : Sends (Option Bool) :=
  if tail = 0 then return some true
  else
    match slice buf p tail with
    | none => return none
    | some x => do
      let filled := poke payload 0 (poke (List.replicate 4 0) 0 x)
      return some (← Calls.make (bmiCmd kBmiLzData [4] ++ filled.take 4))

/-- `fastDownload`; `stack` is what the payload field of the local command starts as. -/
def fastDownloadSends (stack : List UInt8) (addr : Nat) (buf : List UInt8) :
    Sends (Option Bool) := do
  if buf = [] then return some false
  if !(← Calls.make (bmiCmd kBmiLzStreamStart [addr])) then return some false
  let tail := buf.length % 4
  match ← lzDataSends stack buf 0 (buf.length - tail) with
  | none => return none
  | some none => return some false
  | some (some payload) =>
    match ← lzTailSends payload buf (buf.length - tail) tail with
    | none => return none
    | some false => return some false
    | some true =>
      if !(← Calls.make (bmiCmd kBmiLzStreamStart [0])) then return some false
      return some true

theorem writeChunks_run (payload : List UInt8) (addr : Nat) (buf : List UInt8) :
    (writeChunksSends payload addr buf).run CEManager.send = writeChunks payload addr buf := by
  induction payload, addr, buf using writeChunks.induct with
  | case1 payload addr =>
    rw [writeChunksSends, writeChunks]
    rfl
  | case2 payload addr buf hbuf tx filled =>
    rename_i ih
    rw [writeChunksSends, dif_neg hbuf, writeChunks, dif_neg hbuf]
    simp only [Calls.bind_eq_bind, Calls.make_bind, Calls.run, bind_eq_bind]
    exact Prog.bind_congr _ rfl ih

theorem writeMemory_run (stack : List UInt8) (addr : Nat) (buf : List UInt8) :
    (writeMemorySends stack addr buf).run CEManager.send = writeMemory stack addr buf := by
  unfold writeMemorySends writeMemory
  split
  · rfl
  · exact writeChunks_run stack addr buf

def wordPad (n : Nat) : Nat := (4 - n % 4) % 4

/-- What `writeMemory` pads the buffer with: what stands in the payload field behind the last
chunk, from the chunk before or, for a single chunk, from the stack. -/
def writePad (payload buf : List UInt8) : List UInt8 :=
  ((payload.take (kBmiMaxDataSize - 12) ++ buf).drop buf.length).take (wordPad buf.length)

def writeFrames (addr : Nat) : List (List UInt8) → List (List UInt8)
  | [] => []
  | x :: xs =>
    (bmiCmd kBmiWriteMemory [addr, x.length] ++ x) :: writeFrames (addr + x.length) xs

theorem writePad_length (hp : kBmiMaxDataSize - 12 ≤ payload.length) (buf : List UInt8) :
    (writePad payload buf).length = wordPad buf.length := by
  have hcap : kBmiMaxDataSize - 12 = 244 := rfl
  rw [hcap] at hp
  simp only [writePad, wordPad, List.length_take, List.length_drop, List.length_append, hcap]
  omega

theorem poke_take_pad (hp : kBmiMaxDataSize - 12 ≤ payload.length)
    (hbuf : buf.length ≤ kBmiMaxDataSize - 12) :
    (poke payload 0 buf).take (buf.length + wordPad buf.length) = buf ++ writePad payload buf := by
  have hcap : kBmiMaxDataSize - 12 = 244 := rfl
  rw [hcap] at hp hbuf
  have htake : (payload.take 244).length = 244 := List.length_take_of_le hp
  have hpad : wordPad buf.length ≤ 244 - buf.length := by
    rw [wordPad]
    omega
  have hdrop : ((payload.take 244).drop buf.length).take (wordPad buf.length) =
      (payload.drop buf.length).take (wordPad buf.length) := by
    rw [List.drop_take, List.take_take, min_eq_left hpad]
  have hroom : wordPad buf.length ≤ ((payload.take 244).drop buf.length).length := by
    rw [List.length_drop, htake]
    exact hpad
  rw [poke, List.take_zero, List.nil_append, Nat.zero_add, List.take_append,
    List.take_of_length_le (Nat.le_add_right _ _), Nat.add_sub_cancel_left, writePad, hcap,
    List.drop_append_of_le_length (hbuf.trans htake.ge), List.take_append_of_le_length hroom, hdrop]

theorem writePad_drop (hbuf : kBmiMaxDataSize - 12 ≤ buf.length) (payload rest : List UInt8)
    (hp : kBmiMaxDataSize - 12 ≤ payload.length) :
    writePad (buf.take (kBmiMaxDataSize - 12) ++ rest) (buf.drop (kBmiMaxDataSize - 12)) =
      writePad payload buf := by
  have hcap : kBmiMaxDataSize - 12 = 244 := rfl
  rw [hcap] at hbuf hp
  have hsame : wordPad (buf.length - 244) = wordPad buf.length := by
    rw [wordPad, wordPad]
    omega
  have htake : (buf.take 244).length = 244 := List.length_take_of_le hbuf
  have hfirst : (payload.take 244).length = 244 := List.length_take_of_le hp
  have hleft : (buf.take 244 ++ rest).take 244 = buf.take 244 := List.take_left' htake
  have hwindow : (payload.take 244 ++ buf).drop buf.length = buf.drop (buf.length - 244) := by
    rw [List.drop_append, List.drop_of_length_le (hfirst.trans_le hbuf), List.nil_append, hfirst]
  rw [writePad, writePad, hcap, List.length_drop, hsame, hleft, List.take_append_drop, hwindow]

theorem writeChunksSends_all (payload : List UInt8) (addr : Nat) (buf : List UInt8)
    (hp : kBmiMaxDataSize - 12 ≤ payload.length) :
    writeChunksSends payload addr buf =
      .all (writeFrames addr (pieces (kBmiMaxDataSize - 12) (buf ++ writePad payload buf))) := by
  have hcap : kBmiMaxDataSize - 12 = 244 := rfl
  induction payload, addr, buf using writeChunks.induct with
  | case1 payload addr =>
    have hpad : writePad payload [] = [] :=
      List.eq_nil_of_length_eq_zero (writePad_length hp [])
    rw [writeChunksSends, hpad, List.append_nil, pieces_nil]
    rfl
  | case2 payload addr buf hbuf tx filled =>
    rename_i ih
    have hpos := List.length_pos_iff.2 hbuf
    have hcut : pieces (kBmiMaxDataSize - 12) (buf ++ writePad payload buf) =
        (buf ++ writePad payload buf).take (kBmiMaxDataSize - 12) ::
          pieces (kBmiMaxDataSize - 12)
            ((buf ++ writePad payload buf).drop (kBmiMaxDataSize - 12)) :=
      pieces_cons (by decide) (List.append_ne_nil_of_left_ne_nil hbuf _)
    have hstep : writeChunksSends payload addr buf = .call
        (bmiCmd kBmiWriteMemory [addr, (tx + 3) / 4 * 4] ++ filled.take ((tx + 3) / 4 * 4))
        fun ok => if ok then writeChunksSends filled (addr + tx) (buf.drop tx) else .ret false := by
      rw [writeChunksSends, dif_neg hbuf]
      simp only [Calls.bind_eq_bind, Calls.make_bind]
      exact Calls.call_congr rfl rfl
    rw [hstep, hcut, writeFrames, Calls.all]
    by_cases hbig : kBmiMaxDataSize - 12 ≤ buf.length
    · have htx : tx = kBmiMaxDataSize - 12 := min_eq_right hbig
      have hwords : (kBmiMaxDataSize - 12 + 3) / 4 * 4 = kBmiMaxDataSize - 12 := by decide
      have hfilled : filled =
          buf.take (kBmiMaxDataSize - 12) ++ payload.drop (kBmiMaxDataSize - 12) := by
        have hpoke : filled = poke payload 0 (buf.take tx) := rfl
        rw [hpoke, htx, poke, List.take_zero, List.nil_append, Nat.zero_add,
          List.length_take_of_le hbig]
      have hfirst : filled.take (kBmiMaxDataSize - 12) = buf.take (kBmiMaxDataSize - 12) := by
        rw [hfilled, List.take_left' (List.length_take_of_le hbig)]
      have hroom : kBmiMaxDataSize - 12 ≤ filled.length := by
        rw [hfilled, List.length_append, List.length_take_of_le hbig]
        exact Nat.le_add_right _ _
      have hrest := ih hroom
      rw [htx, hfilled, writePad_drop hbig payload _ hp] at hrest
      rw [htx, hwords, hfirst, hfilled, hrest, List.take_append_of_le_length hbig,
        List.drop_append_of_le_length hbig, List.length_take_of_le hbig]
    · have hsmall : buf.length ≤ kBmiMaxDataSize - 12 := Nat.le_of_not_le hbig
      have htx : tx = buf.length := min_eq_left hsmall
      have hwords : (buf.length + 3) / 4 * 4 = buf.length + wordPad buf.length := by
        rw [wordPad]
        omega
      have hfilled : filled = poke payload 0 buf := by
        have hpoke : filled = poke payload 0 (buf.take tx) := rfl
        rw [hpoke, htx, List.take_length]
      have hlen : (buf ++ writePad payload buf).length = buf.length + wordPad buf.length := by
        rw [List.length_append, writePad_length hp]
      have hall : (buf ++ writePad payload buf).length ≤ kBmiMaxDataSize - 12 := by
        rw [hlen, wordPad, hcap]
        rw [hcap] at hsmall
        omega
      rw [htx, hwords, hfilled, poke_take_pad hp hsmall, List.take_of_length_le hall, hlen,
        List.drop_of_length_le hall, pieces_nil, List.drop_length, writeChunksSends]
      rfl

def lzData (x : List UInt8) : List UInt8 := bmiCmd kBmiLzData [x.length] ++ x

/-- The payloads of the data commands: the whole words in pieces, then the rest filled up with
zeros. -/
def lzPayloads (buf : List UInt8) : List (List UInt8) :=
  pieces (kBmiMaxDataSize - 8) (buf.take (buf.length - buf.length % 4)) ++
    if buf.length % 4 = 0 then []
    else [buf.drop (buf.length - buf.length % 4) ++ List.replicate (4 - buf.length % 4) 0]

def lzStream (addr : Nat) (data : List (List UInt8)) : List (List UInt8) :=
  bmiCmd kBmiLzStreamStart [addr] :: (data.map lzData ++ [bmiCmd kBmiLzStreamStart [0]])

theorem poke_take (hp : x.length ≤ payload.length) :
    (poke payload 0 x).take x.length = x ∧ (poke payload 0 x).length = payload.length := by
  rw [poke, List.take_zero, List.nil_append, Nat.zero_add]
  refine ⟨List.take_left' rfl, ?_⟩
  rw [List.length_append, List.length_drop]
  omega

/-- The body loop reads the image and sends it in pieces; what it leaves in the payload field has
the field's size and is otherwise forgotten. -/
theorem lzDataSends_bind (payload buf : List UInt8) (p remaining : Nat)
    {k : Option (Option (List UInt8)) → Sends α} {k' : Bool → Sends α}
    (hp : kBmiMaxDataSize ≤ payload.length) (hin : p + remaining ≤ buf.length)
    (hfail : k (some none) = k' false)
    (hdone : ∀ q, kBmiMaxDataSize ≤ q.length → k (some (some q)) = k' true) :
    (lzDataSends payload buf p remaining).bind k =
      (Calls.all ((pieces (kBmiMaxDataSize - 8) ((buf.drop p).take remaining)).map lzData)).bind
        k' := by
  have hcap : kBmiMaxDataSize - 8 = 248 := rfl
  induction payload, p, remaining using lzDataSends.induct buf with
  | case1 payload p =>
    rw [lzDataSends, if_pos rfl, List.take_zero, pieces_nil]
    exact hdone payload hp
  | case2 payload p remaining hpos tx hnone =>
    have hsome : (slice buf p tx).isSome :=
      slice_isSome ((Nat.add_le_add_left (min_le_left _ _) p).trans hin)
    rw [hnone] at hsome
    cases hsome
  | case3 payload p remaining hpos tx x hx filled =>
    rename_i ih
    have htx : tx = min remaining 248 := rfl
    have hlen : x.length = tx := slice_length hx
    have hroom : x.length ≤ payload.length := by
      rw [hlen, htx]
      rw [kBmiMaxDataSize] at hp
      omega
    obtain ⟨hfirst, hsize⟩ := poke_take hroom
    rw [hlen] at hfirst
    have hbytes : x = ((buf.drop p).take remaining).take 248 := by
      rw [slice, if_pos (by omega)] at hx
      rw [← Option.some.inj hx, List.take_take, min_comm 248, htx]
    have hrest : (buf.drop (p + tx)).take (remaining - tx) =
        ((buf.drop p).take remaining).drop 248 := by
      rw [List.drop_take, List.drop_drop]
      by_cases hbig : 248 ≤ remaining
      · rw [htx, min_eq_right hbig]
      · have hnone : remaining - tx = 0 := by omega
        have hnone' : remaining - 248 = 0 := by omega
        rw [hnone, hnone', List.take_zero, List.take_zero]
    have hne : (buf.drop p).take remaining ≠ [] := by
      apply List.ne_nil_of_length_pos
      rw [List.length_take, List.length_drop]
      omega
    have hnext := ih (hp.trans hsize.ge) (by omega)
    rw [hrest] at hnext
    have hstep : lzDataSends payload buf p remaining = .call (lzData x) fun ok =>
        if ok then lzDataSends filled buf (p + tx) (remaining - tx) else .ret (some none) := by
      rw [lzDataSends, if_neg hpos, lzData, hlen]
      simp only [Calls.bind_eq_bind, Calls.make_bind]
      rw [show min remaining (kBmiMaxDataSize - 8) = tx from rfl, hx]
      dsimp only
      rw [hfirst]
      exact Calls.call_congr rfl rfl
    rw [hstep, pieces_cons (by decide) hne, hcap, ← hbytes, List.map_cons, Calls.all, Calls.bind,
      Calls.bind]
    exact Calls.call_congr hfail hnext

/-- A broken word is filled up with zeros. -/
theorem poke_word (hx : x.length < 4) :
    poke (List.replicate 4 0) 0 x = x ++ List.replicate (4 - x.length) 0 ∧
      (x ++ List.replicate (4 - x.length) 0).length = 4 := by
  constructor
  · have hzeros := poke_zeros [] x 4 rfl
    rwa [List.nil_append, List.nil_append] at hzeros
  · rw [List.length_append, List.length_replicate]
    exact Nat.add_sub_cancel' hx.le

theorem lzTailSends_all (hp : kBmiMaxDataSize ≤ payload.length) (hin : p + tail ≤ buf.length)
    (ht : tail < 4) :
    lzTailSends payload buf p tail =
      (Calls.all (if tail = 0 then []
        else [lzData ((buf.drop p).take tail ++ List.replicate (4 - tail) 0)])).bind
        fun ok => .ret (some ok) := by
  by_cases h0 : tail = 0
  · rw [lzTailSends, if_pos h0, if_pos h0]
    rfl
  · have hslice : slice buf p tail = some ((buf.drop p).take tail) := if_pos hin
    have hlen : ((buf.drop p).take tail).length = tail := slice_length hslice
    obtain ⟨hword, hfour⟩ := poke_word (hlen.trans_lt ht)
    rw [hlen] at hword hfour
    have hfirst := (poke_take (hfour.trans_le ((by decide : 4 ≤ kBmiMaxDataSize).trans hp))).1
    rw [hfour] at hfirst
    rw [lzTailSends, if_neg h0, if_neg h0, hslice]
    dsimp only
    rw [hword, hfirst, lzData, hfour]
    simp only [Calls.bind_eq_bind, Calls.make_bind, Calls.pure_eq_ret, Calls.all, Calls.bind]
    exact Calls.call_congr rfl rfl

theorem fastDownloadSends_all (addr : Nat) (buf : List UInt8)
    (hs : kBmiMaxDataSize ≤ stack.length) (hbuf : buf ≠ []) :
    fastDownloadSends stack addr buf =
      (Calls.all (lzStream addr (lzPayloads buf))).bind fun ok => .ret (some ok) := by
  have ht : buf.length % 4 < 4 := Nat.mod_lt _ (by decide)
  have hin : buf.length - buf.length % 4 + buf.length % 4 ≤ buf.length := by omega
  have htake : (buf.drop (buf.length - buf.length % 4)).take (buf.length % 4) =
      buf.drop (buf.length - buf.length % 4) := by
    apply List.take_of_length_le
    rw [List.length_drop]
    omega
  have hframes : (lzPayloads buf).map lzData =
      (pieces (kBmiMaxDataSize - 8)
          ((buf.drop 0).take (buf.length - buf.length % 4))).map lzData ++
        if buf.length % 4 = 0 then []
        else [lzData ((buf.drop (buf.length - buf.length % 4)).take (buf.length % 4) ++
          List.replicate (4 - buf.length % 4) 0)] := by
    rw [lzPayloads, List.map_append, htake, List.drop_zero]
    split
    · rfl
    · rfl
  have hflush : (Calls.call (bmiCmd kBmiLzStreamStart [0]) fun ok =>
      if (!ok) = true then pure (some false) else pure (some true) : Sends (Option Bool)) =
        (Calls.all [bmiCmd kBmiLzStreamStart [0]]).bind fun ok => .ret (some ok) := by
    rw [Calls.all, Calls.bind]
    exact Calls.call_congr rfl rfl
  unfold fastDownloadSends
  rw [if_neg hbuf, lzStream, hframes, Calls.all, Calls.bind]
  simp only [Calls.bind_eq_bind, Calls.make_bind]
  congr
  funext ok
  cases ok with
  | false => rfl
  | true =>
    rw [if_pos rfl, Calls.all_append_bind, Calls.all_append_bind]
    apply lzDataSends_bind stack buf 0 _ hs (by omega)
    · rfl
    · intro q hq
      dsimp only
      rw [lzTailSends_all hq hin ht, hflush]
      split
      · rfl
      · simp only [Calls.all, Calls.bind, if_true]
        exact Calls.call_congr rfl rfl

theorem lzChunks_all (buf : List UInt8) :
    lzChunks buf =
      (Calls.all ((pieces (kBmiMaxDataSize - 8) buf).map lzData)).run CEManager.send := by
  induction buf using lzChunks.induct with
  | case1 =>
    rw [lzChunks, pieces_nil]
    rfl
  | case2 buf hbuf tx =>
    rename_i ih
    have htx : min (kBmiMaxDataSize - 8) buf.length = tx := min_comm _ _
    have hlen : (buf.take (kBmiMaxDataSize - 8)).length = tx := by rw [List.length_take, htx]
    have htake : buf.take (kBmiMaxDataSize - 8) = buf.take tx := by
      rw [List.take_eq_take_min, htx]
    have hdrop : buf.drop (kBmiMaxDataSize - 8) = buf.drop tx := by
      rw [List.drop_eq_drop_min, htx]
    rw [lzChunks, dif_neg hbuf, pieces_cons (by decide) hbuf, List.map_cons, Calls.all, Calls.run,
      lzData, hlen, htake, hdrop]
    simp only [bind_eq_bind]
    exact Prog.bind_congr _ rfl ih

theorem fastDownload_all (addr : Nat) (hbuf : buf ≠ []) :
    fastDownload addr buf = (Calls.all (lzStream addr (lzPayloads buf))).run CEManager.send := by
  unfold fastDownload
  rw [if_neg hbuf, lzStream, lzPayloads, List.map_append, Calls.all, Calls.run]
  simp only [bind_eq_bind]
  congr
  funext ok
  cases ok with
  | false => rfl
  | true =>
    rw [if_pos rfl, Calls.run_all_append, Calls.run_all_append, ← lzChunks_all, Prog.bind_assoc]
    simp only [Bool.not_true, Bool.false_eq_true, if_false]
    congr
    funext ok
    cases ok with
    | false => rfl
    | true =>
      have hflush : ((CEManager.send (bmiCmd kBmiLzStreamStart [0])).bind fun ok =>
          if (!ok) = true then pure false else pure true) =
            (Calls.all [bmiCmd kBmiLzStreamStart [0]]).run CEManager.send := by
        rw [Calls.all, Calls.run]
        exact Prog.bind_congr _ rfl rfl
      rw [hflush]
      by_cases htail : buf.length % 4 = 0
      · rw [if_pos htail]
        simp only [htail, ne_eq, not_true_eq_false, if_false]
        rfl
      · have hlen : (buf.drop (buf.length - buf.length % 4)).length = buf.length % 4 := by
          rw [List.length_drop]
          have := Nat.mod_le buf.length 4
          omega
        obtain ⟨hword, hfour⟩ := poke_word (hlen.trans_lt (Nat.mod_lt _ (by decide)))
        rw [hlen] at hword hfour
        rw [if_neg htail, hword]
        simp only [htail, ne_eq, not_false_eq_true, if_true, List.map_cons, List.map_nil,
          Calls.all, Calls.run, lzData, hfour, Prog.bind_assoc, Bool.not_true, Bool.false_eq_true,
          if_false]
        exact Prog.bind_congr _ rfl rfl

/-- `fastDownload` makes its sends with `CEManager::send`, and none of its reads leaves the
image. -/
theorem fastDownload_run (addr : Nat) (buf : List UInt8) (hs : kBmiMaxDataSize ≤ stack.length) :
    (fastDownloadSends stack addr buf).run CEManager.send =
      (fastDownload addr buf).bind fun ok => .ret (some ok) := by
  by_cases hbuf : buf = []
  · unfold fastDownloadSends fastDownload
    rw [if_pos hbuf, if_pos hbuf]
    rfl
  · rw [fastDownloadSends_all addr buf hs hbuf, fastDownload_all addr hbuf, Calls.run_bind]
    rfl

end Bmi

end Qca9377
