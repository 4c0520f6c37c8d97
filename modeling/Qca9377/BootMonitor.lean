import Qca9377.Areas
import Qca9377.BmiStream
import Qca9377.BootOrder

namespace Qca9377
open Bytes Interleaving
set_option autoImplicit true

/-- What a target does by itself: what it tells of itself, what a finished stream and what executed
code make of its memory, and what that code returns. -/
structure Target where
  info : List UInt8
  unpack : (Nat → UInt8) → Nat → List UInt8 → Nat → UInt8
  run : (Nat → UInt8) → Nat → Nat → (Nat → UInt8) × Nat

/-- The boot monitor of a target, as far as the commands tell. -/
structure Monitor where
  mem : Nat → UInt8
  stream : Option (Nat × List UInt8)
  done : Bool

/-- The first argument of a command. -/
def cmdArg (f : List UInt8) : Nat := decodeLE ((f.drop 4).take 4)

namespace Monitor

variable (T : Target)

/-- A stream that has been open is finished. -/
def close (m : Monitor) : Monitor :=
  match m.stream with
  | none => m
  | some (addr, data) => { m with mem := T.unpack m.mem addr data, stream := none }

def start (addr : Nat) (m : Monitor) : Monitor :=
  if addr = 0 then m.close T else { m.close T with stream := some (addr, []) }

def feed (data : List UInt8) (m : Monitor) : Monitor :=
  { m with stream := m.stream.map fun s => (s.1, s.2 ++ data) }

def step (m : Monitor) (f : List UInt8) : Monitor :=
  if cmdId f = kBmiWriteMemory then { m with mem := applyFrame m.mem f }
  else if cmdId f = kBmiExecute then { m with mem := (T.run m.mem (cmdArg f) (cmdLen f)).1 }
  else if cmdId f = kBmiLzStreamStart then m.start T (cmdArg f)
  else if cmdId f = kBmiLzData then m.feed ((f.drop 8).take (cmdArg f))
  else if cmdId f = kBmiDone then { m with done := true }
  else m

def reply (m : Monitor) (f : List UInt8) : List UInt8 :=
  if cmdId f = kBmiReadMemory then load m.mem (cmdArg f) (cmdLen f)
  else if cmdId f = kBmiExecute then encodeLE 4 (T.run m.mem (cmdArg f) (cmdLen f)).2
  else T.info

def after (m : Monitor) (frames : List (List UInt8)) : Monitor := frames.foldl (step T) m

/-- The answer to the last of the commands, which finds the monitor as the others have left it. -/
def answer (m : Monitor) (frames : List (List UInt8)) : List UInt8 :=
  (m.after T frames.dropLast).reply T (frames.getLastD [])

variable {T} {m : Monitor}

@[simp] theorem after_nil (m : Monitor) : m.after T [] = m := rfl

@[simp] theorem after_cons (m : Monitor) (f : List UInt8) (fs : List (List UInt8)) :
    m.after T (f :: fs) = (m.step T f).after T fs := rfl

theorem after_append (m : Monitor) (fs gs : List (List UInt8)) :
    m.after T (fs ++ gs) = (m.after T fs).after T gs := List.foldl_append

theorem answer_concat (m : Monitor) (fs : List (List UInt8)) (f : List UInt8) :
    m.answer T (fs ++ [f]) = (m.after T fs).reply T f := by
  rw [answer, List.dropLast_concat, List.getLastD_concat]

end Monitor

section Commands

variable {T : Target} {m : Monitor} {id a b : Nat}

theorem drop_bmiCmd (id a : Nat) (args : List Nat) (rest : List UInt8) :
    (bmiCmd id (a :: args) ++ rest).drop 4 = encodeLE 4 a ++ (encodeWords 4 args ++ rest) := by
  have hcmd : bmiCmd id (a :: args) ++ rest =
      encodeLE 4 id ++ (encodeLE 4 a ++ (encodeWords 4 args ++ rest)) := by
    simp only [bmiCmd, encodeWords, List.flatMap_cons, List.append_assoc]
  rw [hcmd]
  exact List.drop_left' (encodeLE_length 4 _)

theorem cmdArg_bmiCmd (args : List Nat) (rest : List UInt8) (ha : a < 2 ^ 32) :
    cmdArg (bmiCmd id (a :: args) ++ rest) = a := by
  rw [cmdArg, drop_bmiCmd, List.take_left' (encodeLE_length 4 _), decodeLE_encodeLE_of_lt ha]

theorem drop_args (args : List Nat) (rest : List UInt8) :
    (bmiCmd id (a :: args) ++ rest).drop 8 = encodeWords 4 args ++ rest := by
  rw [← List.drop_drop (i := 4) (j := 4), drop_bmiCmd]
  exact List.drop_left' (encodeLE_length 4 _)

theorem cmdLen_bmiCmd (args : List Nat) (rest : List UInt8) (hb : b < 2 ^ 32) :
    cmdLen (bmiCmd id (a :: b :: args) ++ rest) = b := by
  have hwords : encodeWords 4 (b :: args) ++ rest =
      encodeLE 4 b ++ (encodeWords 4 args ++ rest) := by
    simp only [encodeWords, List.flatMap_cons, List.append_assoc]
  rw [cmdLen, drop_args, hwords, List.take_left' (encodeLE_length 4 _),
    decodeLE_encodeLE_of_lt hb]

theorem cmdId_of_lt (args : List Nat) (rest : List UInt8) (hid : id < 2 ^ 32) :
    cmdId (bmiCmd id args ++ rest) = id := by
  rw [cmdId_bmiCmd]
  exact Nat.mod_eq_of_lt hid

theorem bmiCmd_bare (id : Nat) (args : List Nat) : bmiCmd id args = bmiCmd id args ++ [] :=
  (List.append_nil _).symm

/-- A command that the monitor only answers. -/
theorem Monitor.step_read (addr len : Nat) :
    m.step T (bmiCmd kBmiReadMemory [addr, len]) = m := by
  have hid : cmdId (bmiCmd kBmiReadMemory [addr, len]) = kBmiReadMemory := by
    rw [bmiCmd_bare]
    exact cmdId_of_lt _ _ (by decide)
  rw [Monitor.step, hid]
  rfl

theorem Monitor.reply_read {addr len : Nat} (haddr : addr < 2 ^ 32) (hlen : len < 2 ^ 32) :
    m.reply T (bmiCmd kBmiReadMemory [addr, len]) = load m.mem addr len := by
  rw [bmiCmd_bare, Monitor.reply, if_pos (cmdId_of_lt _ _ (by decide)), cmdArg_bmiCmd _ _ haddr,
    cmdLen_bmiCmd _ _ hlen]

theorem Monitor.step_lzStart {addr : Nat} (haddr : addr < 2 ^ 32) :
    m.step T (bmiCmd kBmiLzStreamStart [addr]) = m.start T addr := by
  have hid : cmdId (bmiCmd kBmiLzStreamStart [addr]) = kBmiLzStreamStart := by
    rw [bmiCmd_bare]
    exact cmdId_of_lt _ _ (by decide)
  have harg : cmdArg (bmiCmd kBmiLzStreamStart [addr]) = addr := by
    rw [bmiCmd_bare]
    exact cmdArg_bmiCmd _ _ haddr
  rw [Monitor.step, hid, harg]
  rfl

theorem Monitor.step_lzData {x : List UInt8} (hx : x.length < 2 ^ 32) :
    m.step T (Bmi.lzData x) = m.feed x := by
  have hid : cmdId (Bmi.lzData x) = kBmiLzData := cmdId_of_lt _ _ (by decide)
  have hlen : cmdArg (Bmi.lzData x) = x.length := cmdArg_bmiCmd _ _ hx
  have hdrop : (Bmi.lzData x).drop 8 = x := drop_args _ _
  rw [Monitor.step, hid, hlen, hdrop, List.take_length]
  rfl

theorem Monitor.step_done : m.step T (bmiCmd kBmiDone []) = { m with done := true } := by
  have hid : cmdId (bmiCmd kBmiDone []) = kBmiDone := by decide
  rw [Monitor.step, hid]
  rfl

/-- Write commands reach the memory only. -/
theorem Monitor.after_writes {fs : List (List UInt8)} (hfs : ∀ f ∈ fs, cmdId f = kBmiWriteMemory) :
    m.after T fs = { m with mem := fs.foldl applyFrame m.mem } := by
  induction fs generalizing m with
  | nil => rfl
  | cons f fs ih =>
    rw [Monitor.after_cons, ih fun g hg => hfs g (List.mem_cons_of_mem f hg), Monitor.step,
      if_pos (hfs f List.mem_cons_self)]
    rfl

theorem writeFrames_id (hf : f ∈ Bmi.writeFrames addr xs) : cmdId f = kBmiWriteMemory := by
  obtain ⟨a, x, -, rfl⟩ := mem_writeFrames hf
  exact cmdId_of_lt _ _ (by decide)

/-- The commands of a complete `writeMemory`. -/
def writeMemoryCmds (stack : List UInt8) (addr : Nat) (buf : List UInt8) : List (List UInt8) :=
  Bmi.writeFrames addr (pieces (kBmiMaxDataSize - 12) (buf ++ Bmi.writePad stack buf))

theorem Monitor.after_writeMemory (hs : stack.length = kBmiMaxDataSize)
    (haddr : addr + buf.length + 3 < 2 ^ 32) :
    m.after T (writeMemoryCmds stack addr buf) =
      { m with mem := store m.mem addr (buf ++ Bmi.writePad stack buf) } := by
  have hpad : (Bmi.writePad stack buf).length = Bmi.wordPad buf.length :=
    Bmi.writePad_length ((Nat.sub_le _ _).trans hs.ge) buf
  have hall := applied_all hpad haddr m.mem
  rw [applied, acknowledged_all] at hall
  rw [writeMemoryCmds, Monitor.after_writes fun f hf => writeFrames_id hf]
  exact congrArg (fun mem => ({ m with mem := mem } : Monitor)) hall

theorem Monitor.step_writeWord {itemOffset : Nat} (val : Nat)
    (ho : kHostInterestAddress + itemOffset < 2 ^ 32) :
    m.step T (writeWord itemOffset val) =
      { m with mem := store m.mem (kHostInterestAddress + itemOffset) (encodeLE 4 val) } := by
  have hid : cmdId (writeWord itemOffset val) = kBmiWriteMemory := cmdId_of_lt _ _ (by decide)
  have hstore := applyFrame_write m.mem ho ((encodeLE_length 4 val).trans_lt (by decide))
  rw [encodeLE_length] at hstore
  rw [Monitor.step, if_pos hid, writeWord, hstore]

theorem Monitor.after_feed {m : Monitor} {addr : Nat} {old : List UInt8} {data : List (List UInt8)}
    (hm : m.stream = some (addr, old)) (hdata : ∀ x ∈ data, x.length < 2 ^ 32) :
    m.after T (data.map Bmi.lzData) = { m with stream := some (addr, old ++ data.flatten) } := by
  induction data generalizing m old with
  | nil =>
    cases m
    cases hm
    exact congrArg (fun s => Monitor.mk _ (some (addr, s)) _) (List.append_nil old).symm
  | cons x data ih =>
    have hstep : m.step T (Bmi.lzData x) = { m with stream := some (addr, old ++ x) } := by
      rw [Monitor.step_lzData (hdata x List.mem_cons_self), Monitor.feed, hm]
      rfl
    rw [List.map_cons, Monitor.after_cons, hstep,
      ih rfl fun y hy => hdata y (List.mem_cons_of_mem x hy), List.flatten_cons, List.append_assoc]

/-- A complete stream, whatever was open before, is unpacked as one. -/
theorem Monitor.after_stream {data : List (List UInt8)} (h0 : addr ≠ 0) (haddr : addr < 2 ^ 32)
    (hdata : ∀ x ∈ data, x.length < 2 ^ 32) :
    m.after T (Bmi.lzStream addr data) =
      { m with mem := T.unpack (m.close T).mem addr data.flatten, stream := none } := by
  have hdone : (m.close T).done = m.done := by
    unfold Monitor.close
    split
    · rfl
    · rfl
  have hopen : m.start T addr = { m.close T with stream := some (addr, []) } := if_neg h0
  have hfed := Monitor.after_feed (T := T) (m := { m.close T with stream := some (addr, []) })
    rfl hdata
  rw [Bmi.lzStream, Monitor.after_cons, Monitor.step_lzStart haddr, hopen, Monitor.after_append,
    hfed, Monitor.after_cons, Monitor.step_lzStart (by decide), Monitor.after_nil, Monitor.start,
    if_pos rfl, Monitor.close]
  exact congrArg (Monitor.mk _ none) hdone

end Commands

section Boot

variable {T : Target} {m : Monitor} {stack : List UInt8}

/-- A word of the host-interest area. -/
def hiWord (mem : Nat → UInt8) (itemOffset : Nat) : Nat :=
  decodeLE (load mem (kHostInterestAddress + itemOffset) 4)

/-- What `configureTarget` writes to the target that has these option flags. -/
def configureWrites (opt : Nat) : List (Nat × List UInt8) :=
  [(0x00, 2), (0x10, Fw.optionFlags opt), (0x44, 0), (0x104, 0), (0xbc, Fw.kPciDevId)].map
    fun w => (kHostInterestAddress + w.1, encodeLE 4 w.2)

def boardCmds (stack : List UInt8) (boardAddr : Nat) (data : List UInt8) : List (List UInt8) :=
  readWord Fw.kHiBoardDataOff ::
    (writeMemoryCmds stack boardAddr data ++ [writeWord Fw.kHiBoardDataInitOff 1])

/-- All writes of a boot: the configuration, the board data, the flag that says it is there. -/
def bootWrites (stack : List UInt8) (opt boardAddr : Nat) (data : List UInt8) :
    List (Nat × List UInt8) :=
  configureWrites opt ++ [(boardAddr, data ++ Bmi.writePad stack data),
    (kHostInterestAddress + Fw.kHiBoardDataInitOff, encodeLE 4 1)]

theorem after_configure (opt : Nat) :
    m.after T (configureCmds opt) = { m with mem := storeAll m.mem (configureWrites opt) } := by
  simp only [configureCmds, Monitor.after_cons, Monitor.after_nil, readWord, Monitor.step_read]
  rw [Monitor.step_writeWord _ (by decide), Monitor.step_writeWord _ (by decide),
    Monitor.step_writeWord _ (by decide), Monitor.step_writeWord _ (by decide),
    Monitor.step_writeWord _ (by decide)]
  rfl

theorem after_board {data : List UInt8} (hs : stack.length = kBmiMaxDataSize)
    (haddr : boardAddr + data.length + 3 < 2 ^ 32) :
    m.after T (boardCmds stack boardAddr data) =
      { m with mem := storeAll m.mem [(boardAddr, data ++ Bmi.writePad stack data),
        (kHostInterestAddress + Fw.kHiBoardDataInitOff, encodeLE 4 1)] } := by
  rw [boardCmds, readWord, Monitor.after_cons, Monitor.step_read, Monitor.after_append,
    Monitor.after_writeMemory hs haddr, Monitor.after_cons, Monitor.step_writeWord _ (by decide)]
  rfl

theorem hiWord_flagged (mem : Nat → UInt8) :
    hiWord (store mem (kHostInterestAddress + 0x00) (encodeLE 4 2)) 0x10 = hiWord mem 0x10 := by
  rw [hiWord, load_store_apart]
  · rfl
  · rw [encodeLE_length]
    decide

/-- The configuration leaves the words alone that the boot reads. -/
theorem hiWord_configured (mem : Nat → UInt8) (opt : Nat) :
    hiWord (storeAll mem (configureWrites opt)) Fw.kHiBoardDataOff =
      hiWord mem Fw.kHiBoardDataOff := by
  have hall : ∀ o ∈ [0x00, 0x10, 0x44, 0x104, 0xbc],
      Apart (kHostInterestAddress + Fw.kHiBoardDataOff) 4 (kHostInterestAddress + o) 4 := by
    decide
  rw [hiWord, load_storeAll_apart]
  · rfl
  · intro w hw
    obtain ⟨x, hx, rfl⟩ := List.mem_map.1 hw
    rw [encodeLE_length]
    exact hall x.1 (List.mem_map_of_mem hx)

/-- The frames that the OTP stage posts when nothing fails. -/
def otpCmds (E : Embedded) : List (List UInt8) :=
  if E.parseFirmware.2.otp.ptr ≠ none ∧ E.parseFirmware.2.otp.len ≠ 0 ∧ E.otp ≠ [] then
    Bmi.lzStream Fw.kPatchLoadAddr (Bmi.lzPayloads E.otp) ++
      [bmiCmd kBmiExecute [Fw.kPatchLoadAddr, 0x10]]
  else []

/-- A monitor that has been handed all of a boot, up to BMI_DONE: its memory holds what the boot
writes, and behind whatever came of the OTP stage the whole firmware has been unpacked. -/
structure Booted (T : Target) (E : Embedded) (stack : Payload) (data : List UInt8)
    (m m' : Monitor) : Prop where
  board : data ≠ [] ∧ hiWord m.mem Fw.kHiBoardDataOff ≠ 0
  firmware : E.firmware ≠ []
  booted : ∃ otp, otp <+: otpCmds E ∧ ∃ k, IsLeast {k | 4 ∣ E.firmware.length + k} k ∧
    let ready := { m with
      mem := storeAll m.mem (bootWrites stack.1 (hiWord m.mem 0x10)
        (hiWord m.mem Fw.kHiBoardDataOff) data) }
    m' = {
      mem := T.unpack ((ready.after T otp).close T).mem Fw.kPatchLoadAddr
        (E.firmware ++ List.replicate k 0)
      stream := none
      done := true }

end Boot

end Qca9377
