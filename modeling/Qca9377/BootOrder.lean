import Qca9377.Posting
import Qca9377.ResponsiveTarget

namespace Qca9377
open Bytes Interleaving
set_option autoImplicit true

section Stages

variable {R : Host → Host → Prop}

theorem posts_write32 (hR : KeepsPosted R) (stack : List UInt8) (itemOffset val : Nat) :
    PostsOnly R NotDone (Bmi.write32 stack itemOffset val) := posts_writeMemory hR _ _ _

theorem posts_read32 (hR : KeepsPosted R) (itemOffset : Nat) :
    PostsOnly R NotDone (Bmi.read32 itemOffset) := by
  have hlen : ¬ (4 = 0 ∨ kBmiMaxDataSize < 4) := by decide
  rw [Bmi.read32, readMemory_query hlen]
  apply PostsOnly.bind
  · exact (posts_exchangeWait hR _ _).bind fun _ => .ret hR _
  · intro r
    cases r with
    | none => exact .ret hR _
    | some out => exact .ret hR _

theorem posts_execute (hR : KeepsPosted R) (addr param : Nat) :
    PostsOnly R NotDone (Bmi.execute addr param) := by
  apply (posts_exchangeWait hR (.execute addr param) 4).bind
  intro r
  cases r with
  | none => exact .ret hR _
  | some out => exact .ret hR _

theorem posts_configureTarget (hR : KeepsPosted R) (stack : Payload) :
    PostsOnly R NotDone (Fw.configureTarget stack) := by
  apply PostsOnly.orFail hR (posts_write32 hR _ _ _)
  apply (posts_read32 hR _).bind
  intro r
  cases r with
  | none => exact .ret hR _
  | some opt =>
    apply PostsOnly.orFail hR (posts_write32 hR _ _ _)
    apply PostsOnly.orFail hR (posts_write32 hR _ _ _)
    apply PostsOnly.orFail hR (posts_write32 hR _ _ _)
    exact .orFail hR (posts_write32 hR _ _ _) (.ret hR _)

theorem posts_downloadBoardData (hR : KeepsPosted R) (stack : Payload) (boardData : List UInt8) :
    PostsOnly R NotDone (Fw.downloadBoardData stack boardData) := by
  apply (posts_read32 hR _).bind
  intro r
  cases r with
  | none => exact .ret hR _
  | some boardAddr =>
    dsimp only
    split
    · exact .ret hR _
    · apply PostsOnly.orFail hR (posts_writeMemory hR _ _ _)
      exact .orFail hR (posts_write32 hR _ _ _) (.ret hR _)

theorem posts_runOtp (hR : KeepsPosted R) (otp : List UInt8) :
    PostsOnly R NotDone (Fw.runOtp otp) := by
  unfold Fw.runOtp
  split
  · exact .ret hR _
  · apply PostsOnly.orFail hR (posts_fastDownload hR _ _)
    apply (posts_execute hR _ _).bind
    intro r
    cases r with
    | none => exact .ret hR _
    | some result => exact .ret hR _

theorem posts_otpStage (hR : KeepsPosted R) (E : Embedded) :
    PostsOnly R NotDone (Boot.otpStage E) := by
  unfold Boot.otpStage
  split
  · exact posts_runOtp hR _
  · exact .ret hR _

def readWord (itemOffset : Nat) : List UInt8 :=
  bmiCmd kBmiReadMemory [kHostInterestAddress + itemOffset, 4]

theorem sent_read32 (hR : KeepsPosted R)
    (h : Stretch R (Bmi.read32 itemOffset) s L (.ret (some val)) t) :
    SentInOrder R s L [readWord itemOffset] t := by
  have hlen : ¬ (4 = 0 ∨ kBmiMaxDataSize < 4) := by decide
  rw [Bmi.read32, readMemory_query hlen] at h
  obtain ⟨out, u, L₁, L₂, rfl, hread, hout⟩ := h.bind_ret
  obtain ⟨r, v, L₁, L₃, rfl, hwait, hr⟩ := hread.bind_ret
  cases r with
  | none =>
    cases hr.of_ret.1
    cases hout.of_ret.1
  | some x =>
    cases hr.of_ret.1
    exact ((sent_exchangeWait hR hwait).right (hR.moves hr.of_ret.2).2).right
      (hR.moves hout.of_ret.2).2

def configureCmds (opt : Nat) : List (List UInt8) :=
  [writeWord 0x00 2, readWord 0x10, writeWord 0x10 (Fw.optionFlags opt), writeWord 0x44 0,
    writeWord 0x104 0, writeWord 0xbc Fw.kPciDevId]

theorem sent_configureTarget (hR : KeepsPosted R)
    (h : Stretch R (Fw.configureTarget stack) s L (.ret true) t) :
    ∃ opt, SentInOrder R s L (configureCmds opt) t := by
  obtain ⟨s₁, L₁, M, rfl, h₁, h⟩ := h.passed nofun
  obtain ⟨r, s₂, L₂, M, rfl, h₂, h⟩ := h.bind_ret
  cases r with
  | none => cases h.of_ret.1
  | some opt =>
    obtain ⟨s₃, L₃, M, rfl, h₃, h⟩ := h.passed nofun
    obtain ⟨s₄, L₄, M, rfl, h₄, h⟩ := h.passed nofun
    obtain ⟨s₅, L₅, M, rfl, h₅, h⟩ := h.passed nofun
    obtain ⟨s₆, L₆, M, rfl, h₆, h⟩ := h.passed nofun
    have hend : SentInOrder R s₆ M [] t := .nil (hR.moves h.of_ret.2).2
    refine ⟨opt, ?_⟩
    exact (sent_write32 hR h₁).append ((sent_read32 hR h₂).append ((sent_write32 hR h₃).append
      ((sent_write32 hR h₄).append ((sent_write32 hR h₅).append
        ((sent_write32 hR h₆).append hend)))))

/-- The commands of a complete `downloadBoardData`: the address read, all of the data written to
it, the flag written. -/
def BoardCmds (boardData : List UInt8) (fs : List (List UInt8)) : Prop :=
  ∃ boardAddr data, boardAddr ≠ 0 ∧ boardData ≠ [] ∧
    CarriesWrite boardAddr (boardData.take Fw.kBoardDataSz) data ∧
    fs = readWord Fw.kHiBoardDataOff :: data ++ [writeWord Fw.kHiBoardDataInitOff 1]

theorem sent_downloadBoardData (hR : KeepsPosted R)
    (h : Stretch R (Fw.downloadBoardData stack boardData) s L (.ret true) t) :
    ∃ fs, BoardCmds boardData fs ∧ SentInOrder R s L fs t := by
  obtain ⟨r, s₁, L₁, M, rfl, h₁, h⟩ := h.bind_ret
  cases r with
  | none => cases h.of_ret.1
  | some boardAddr =>
    dsimp only at h
    split at h
    · cases h.of_ret.1
    · next haddr =>
      obtain ⟨s₂, L₂, M, rfl, h₂, h⟩ := h.passed nofun
      obtain ⟨s₃, L₃, M, rfl, h₃, h⟩ := h.passed nofun
      obtain ⟨hne, data, hcarry, hsent⟩ := sent_writeMemory hR stack.2 h₂
      have hdata : boardData ≠ [] := by
        intro he
        rw [he, List.take_nil] at hne
        exact hne rfl
      have hend : SentInOrder R s₃ M [] t := .nil (hR.moves h.of_ret.2).2
      refine ⟨_, ⟨boardAddr, data, haddr, hdata, hcarry, rfl⟩, ?_⟩
      exact (sent_read32 hR h₁).append (hsent.append ((sent_write32 hR h₃).append hend))

theorem done_posted (hR : KeepsPosted R) (h : Stretch R Bmi.done s L q t) :
    t.posted = s.posted ∨ t.posted = s.posted ++ [bmiCmd kBmiDone []] := by
  rcases h.bind with ⟨u, n, -, hsend⟩ | ⟨ok, u, L₁, L₂, -, hsend, h⟩
  · exact (hR.send_posted hsend).1
  · have hsilent : Silent u L₂ t := by
      refine PostsOnly.silent ?_ h
      cases ok with
      | false => exact .ret hR _
      | true => exact .op hR (fun _ => rfl) fun _ => .ret hR _
    rw [hsilent.posted]
    exact (hR.send_posted hsend).1

theorem done_sent (hR : KeepsPosted R) (h : Stretch R Bmi.done s L (.ret true) t) :
    t.posted = s.posted ++ [bmiCmd kBmiDone []] := by
  obtain ⟨u, L₁, L₂, -, hsend, h⟩ := h.passed nofun
  have hsilent : Silent u L₂ t := by
    refine PostsOnly.silent ?_ h
    exact .op hR (fun _ => rfl) fun _ => .ret hR _
  rw [hsilent.posted]
  exact (hR.send_posted hsend).2 rfl

end Stages

/-- An environment that rings no doorbell of CE0 and leaves the record of readings alone. -/
def KeepsRecord (R : Boot → Boot → Prop) : Prop :=
  ∀ s t, R s t → t.host.posted = s.host.posted ∧ t.readings = s.readings

/-- Along these states, a stage of the boot has run to its end, begun before anything more was
posted. -/
def Ran (R : Host → Host → Prop) (p : Prog Host α) (s : Host) (L : List Host) (a : α)
    (t : Host) : Prop :=
  ∃ L₀ L₁ s', L = L₀ ++ L₁ ∧ Silent s L₀ s' ∧ Stretch R p s' L₁ (.ret a) t

section Order

variable (R : Host → Host → Prop) (E : Embedded) (fSubVendor fSubDevice : UInt16)
  (stack : Payload) (h₀ : Host)

/-- Along these states BMI_DONE has been sent, behind all the commands that have to come before it;
what the OTP stage came to does not matter. -/
inductive BootOrder : List Host → Host → Prop
  | sent (hparse : E.parseFirmware.1 = true)
      (hconfigured : SentInOrder R h₀ L₁ (configureCmds opt) h₁)
      (hboard : BoardCmds (E.boardData fSubVendor fSubDevice) board)
      (hwritten : SentInOrder R h₁ L₂ board h₂)
      (hotp : Ran R (Boot.otpStage E) h₂ L₃ ids h₃)
      (hposted : h₃.posted = h₂.posted ++ otp) (hnotDone : ∀ f ∈ otp, NotDone f)
      (hstream : LzStream Fw.kPatchLoadAddr E.firmware stream)
      (hstreamed : SentInOrder R h₃ L₄ stream h₄)
      (hdone : h.posted = h₄.posted ++ [bmiCmd kBmiDone []]) :
      BootOrder (L₁ ++ (L₂ ++ (L₃ ++ (L₄ ++ L₅)))) h

/-- How a run of `bootFirmware` along these states has returned: behind the OTP stage, whatever
came of it, the firmware download has been run. -/
inductive BootExit : Bool → List Host → Host → Prop
  | unparsed (hparse : E.parseFirmware.1 = false) (hend : Silent h₀ L h) : BootExit false L h
  | unconfigured (hconfigure : Ran R (Fw.configureTarget stack) h₀ L₁ false h₁)
      (hend : Silent h₁ L₂ h) : BootExit false (L₁ ++ L₂) h
  | noBoardData (hconfigure : Ran R (Fw.configureTarget stack) h₀ L₁ true h₁)
      (hboard : Ran R (Fw.downloadBoardData stack (E.boardData fSubVendor fSubDevice)) h₁ L₂ false
        h₂) (hend : Silent h₂ L₃ h) : BootExit false (L₁ ++ (L₂ ++ L₃)) h
  | downloaded (hconfigure : Ran R (Fw.configureTarget stack) h₀ L₁ true h₁)
      (hboard : Ran R (Fw.downloadBoardData stack (E.boardData fSubVendor fSubDevice)) h₁ L₂ true
        h₂) (hotp : Ran R (Boot.otpStage E) h₂ L₃ ids h₃)
      (hfirmware : Ran R (Fw.downloadFirmware E.firmware) h₃ L₄ streamed h₄)
      (hok : ok = true → streamed = true)
      (hend : h.posted = h₄.posted ∨ h.posted = h₄.posted ++ [bmiCmd kBmiDone []]) :
      BootExit ok (L₁ ++ (L₂ ++ (L₃ ++ (L₄ ++ L₅)))) h

end Order

/-- A reading that tells: not all-ones, and bit 0 or bit 1 set. -/
def telling (val : UInt32) : Bool :=
  val ≠ 0xffffffff ∧ (val &&& Boot.kFwIndEventPending ≠ 0 ∨ val &&& Boot.kFwIndInitialized ≠ 0)

def Initialized (readings : List UInt32) : Prop :=
  ∃ val, readings.find? telling = some val ∧ val &&& Boot.kFwIndInitialized ≠ 0 ∧
    val &&& Boot.kFwIndEventPending = 0

section Record

variable {R : Boot → Boot → Prop}

theorem KeepsRecord.posted (hR : KeepsRecord R) : KeepsPosted (Seen R Boot.host) := by
  rintro _ _ ⟨s, t, hst, rfl, rfl⟩
  exact (hR s t hst).1

theorem KeepsRecord.moves (hR : KeepsRecord R) (h : Moves R s L t) :
    Silent s.host (L.map Boot.host) t.host ∧ t.readings = s.readings := by
  induction h with
  | refl => exact ⟨silent_nil _, rfl⟩
  | tail _ hs ih =>
    obtain ⟨hp, hr⟩ := hR _ _ hs
    rw [List.map_append, List.map_singleton]
    exact ⟨ih.1.append (silent_single hp), hr.trans ih.2⟩

theorem Stretch.onHost {p : Prog Host α} (h : Stretch R (Boot.onHost p) s L q t) :
    ∃ p', q = Boot.onHost p' ∧
      Stretch (Seen R Boot.host) p s.host (L.map Boot.host) p' t.host :=
  Stretch.zoom (fun _ _ => rfl) h

theorem Stretch.onHost_ret {p : Prog Host α} (h : Stretch R (Boot.onHost p) s L (.ret a) t) :
    Stretch (Seen R Boot.host) p s.host (L.map Boot.host) (.ret a) t.host := by
  obtain ⟨p', hq, hp⟩ := Stretch.onHost h
  cases p' with
  | ret b =>
    cases hq
    exact hp
  | op u n => cases hq

theorem Stretch.published {k : Prog Boot α} (hR : KeepsRecord R)
    (h : Stretch R ((Boot.publishStage text).bind fun _ => k) s L q t) :
    (Silent s.host (L.map Boot.host) t.host ∧ ∀ a, q ≠ .ret a) ∨
      ∃ s' L₁ L₂, L = L₁ ++ L₂ ∧ Silent s.host (L₁.map Boot.host) s'.host ∧
        L₁.getLastD s = s' ∧ Stretch R k s' L₂ q t := by
  rcases h.of_op with ⟨hq, hst⟩ | ⟨s', L₁, L₂, rfl, hst, hk⟩
  · left
    refine ⟨(hR.moves hst).1, ?_⟩
    rw [hq]
    exact nofun
  · right
    refine ⟨_, L₁ ++ [_], L₂, List.append_cons _ _ _, ?_, List.getLastD_concat, hk⟩
    rw [List.map_append, List.map_singleton]
    exact (hR.moves hst).1.append (silent_single rfl)

theorem Stretch.failed (hR : KeepsRecord R) (h : Stretch R (Boot.fail text) s L q t) :
    Silent s.host (L.map Boot.host) t.host ∧ q ≠ .ret true := by
  rcases Stretch.published hR h with ⟨hsame, hq⟩ | ⟨u, L₁, L₂, rfl, hu, -, h⟩
  · exact ⟨hsame, hq true⟩
  · rw [List.map_append]
    rcases h.of_op with ⟨hq, hst⟩ | ⟨v, L₂, L₃, rfl, hv, h⟩
    · refine ⟨hu.append (hR.moves hst).1, ?_⟩
      rw [hq]
      exact nofun
    · obtain ⟨hq, hvt⟩ := h.of_ret
      rw [List.map_append, List.map_cons, ← List.singleton_append]
      refine ⟨hu.append ((hR.moves hv).1.append ((silent_single rfl).append (hR.moves hvt).1)), ?_⟩
      rw [hq]
      exact nofun

/-- A stage on the host whose failure ends the boot: under way, failed, or passed. -/
theorem Stretch.attempt {p : Prog Host Bool} {k : Prog Boot Bool} (hR : KeepsRecord R)
    (h : Stretch R ((Boot.onHost p).bind fun ok =>
      if (!ok) = true then Boot.fail text else k) s L q t) :
    ((∀ ok, q ≠ .ret ok) ∧
        ∃ p', Stretch (Seen R Boot.host) p s.host (L.map Boot.host) p' t.host) ∨
      (q ≠ .ret true ∧ ∃ u L₁ L₂, L = L₁ ++ L₂ ∧
        Stretch (Seen R Boot.host) p s.host (L₁.map Boot.host) (.ret false) u ∧
        Silent u (L₂.map Boot.host) t.host) ∨
      ∃ u L₁ L₂, L = L₁ ++ L₂ ∧ L₁.getLastD s = u ∧
        Stretch (Seen R Boot.host) p s.host (L₁.map Boot.host) (.ret true) u.host ∧
        Stretch R k u L₂ q t := by
  rcases h.bind with ⟨u, n, hq, hp⟩ | ⟨ok, u, L₁, L₂, hL, hp, hk⟩
  · left
    obtain ⟨p', -, hp'⟩ := Stretch.onHost hp
    refine ⟨?_, p', hp'⟩
    rw [hq]
    exact fun _ => nofun
  · cases ok with
    | false =>
      obtain ⟨hsame, hfalse⟩ := Stretch.failed hR hk
      exact .inr (.inl ⟨hfalse, u.host, L₁, L₂, hL, Stretch.onHost_ret hp, hsame⟩)
    | true => exact .inr (.inr ⟨u, L₁, L₂, hL, hp.last, Stretch.onHost_ret hp, hk⟩)

theorem Stretch.reading {k : UInt32 → Prog Boot α} (hR : KeepsRecord R)
    (h : Stretch R (Boot.readIndicator.bind k) s L q t) :
    (t.host.posted = s.host.posted ∧ ∀ a, q ≠ .ret a) ∨
      ∃ val s' L', s'.host.posted = s.host.posted ∧ s'.readings = s.readings ++ [val] ∧
        Stretch R (k val) s' L' q t := by
  rcases h.of_op with ⟨hq, hst⟩ | ⟨s', L₁, L₂, -, hst, hk⟩
  · refine .inl ⟨(hR.moves hst).1.posted, ?_⟩
    rw [hq]
    exact nofun
  · obtain ⟨hp, hr⟩ := hR.moves hst
    refine .inr ⟨_, _, L₂, ?_, ?_, hk⟩
    · exact hp.posted
    · exact congrArg (· ++ [s'.fwIndicator]) hr

theorem pollIndicator_posted (hR : KeepsRecord R)
    (h : Stretch R (Boot.pollIndicator n v) s L q t) : t.host.posted = s.host.posted := by
  have hret {val : UInt32} {s L} (h : Stretch R (.ret val) s L q t) :
      t.host.posted = s.host.posted := (hR.moves h.of_ret.2).1.posted
  induction n generalizing v s L with
  | zero => exact hret h
  | succ n ih =>
    rcases Stretch.reading hR h with ⟨hsame, -⟩ | ⟨val, s', L', hsame, -, h⟩
    · exact hsame
    · rw [← hsame]
      split at h
      · exact ih h
      · split at h
        · exact hret h
        · split at h
          · exact hret h
          · exact ih h

/-- A telling value that the loop ends with is the first telling reading. -/
theorem pollIndicator_first (hR : KeepsRecord R) (hv : telling v = false)
    (h : Stretch R (Boot.pollIndicator n v) s L (.ret val) t) :
    ∃ l, t.readings = s.readings ++ l ∧
      (telling val = true → l.find? telling = some val) := by
  induction n generalizing v s L with
  | zero =>
    obtain ⟨hq, hst⟩ := h.of_ret
    obtain rfl := Prog.ret.inj hq
    refine ⟨[], ?_, fun ht => ?_⟩
    · rw [(hR.moves hst).2, List.append_nil]
    · rw [hv] at ht
      cases ht
  | succ n ih =>
    rcases Stretch.reading hR h with ⟨-, hq⟩ | ⟨x, s', L', -, hread, h⟩
    · exact absurd rfl (hq val)
    · have hagain (hx : telling x = false)
          (h : Stretch R (Boot.pollIndicator n x) s' L' (.ret val) t) :
          ∃ l, t.readings = s.readings ++ l ∧
            (telling val = true → l.find? telling = some val) := by
        obtain ⟨l, hl, hfirst⟩ := ih hx h
        refine ⟨x :: l, ?_, fun ht => ?_⟩
        · rw [hl, hread, List.append_assoc, List.singleton_append]
        · rw [List.find?_cons_of_neg (by rw [hx]; exact Bool.false_ne_true)]
          exact hfirst ht
      have hstop (h : Stretch R (.ret x) s' L' (.ret val) t) :
          ∃ l, t.readings = s.readings ++ l ∧
            (telling val = true → l.find? telling = some val) := by
        obtain ⟨hq, hst⟩ := h.of_ret
        obtain rfl := Prog.ret.inj hq
        refine ⟨[val], ?_, fun ht => List.find?_cons_of_pos ht⟩
        rw [(hR.moves hst).2, hread]
      split at h
      · next hx => exact hagain (decide_eq_false fun ht => ht.1 hx) h
      · next hx =>
        split at h
        · exact hstop h
        · next hpending =>
          split at h
          · exact hstop h
          · next hinit =>
            exact hagain (decide_eq_false fun ht => ht.2.elim hpending hinit) h

theorem doneAndWait_posted (hR : KeepsRecord R)
    (h : Stretch R Boot.doneAndWaitTargetInit s L q t) :
    t.host.posted = s.host.posted ∨ t.host.posted = s.host.posted ++ [bmiCmd kBmiDone []] := by
  have hret {ok : Bool} {s L} (h : Stretch R (.ret ok) s L q t) :
      t.host.posted = s.host.posted := (hR.moves h.of_ret.2).1.posted
  rcases h.bind with ⟨u, n, -, hp⟩ | ⟨ok, u, L₁, L₂, -, hp, h⟩
  · obtain ⟨p', -, hp'⟩ := Stretch.onHost hp
    exact done_posted hR.posted hp'
  · have hu := done_posted hR.posted (Stretch.onHost_ret hp)
    have hsilent : t.host.posted = u.host.posted := by
      cases ok with
      | false => exact hret h
      | true =>
        rcases h.bind with ⟨w, n, -, hpoll⟩ | ⟨val, w, L₂, L₃, -, hpoll, h⟩
        · exact pollIndicator_posted hR hpoll
        · rw [← pollIndicator_posted hR hpoll]
          split at h
          · exact hret h
          · split at h
            · exact hret h
            · split at h
              · exact hret h
              · exact hret h
    rw [hsilent]
    exact hu

/-- It returns true only on a first telling reading, behind BMI_DONE, that tells of an initialized
target. -/
theorem doneAndWait_initialized (hR : KeepsRecord R)
    (h : Stretch R Boot.doneAndWaitTargetInit s L (.ret true) t) :
    ∃ u L₁ L₂ l, L = L₁ ++ L₂ ∧ L₁.getLastD s = u ∧
      u.host.posted = s.host.posted ++ [bmiCmd kBmiDone []] ∧
      t.readings = u.readings ++ l ∧ Initialized l := by
  obtain ⟨u, L₁, L₂, hL, hp, h⟩ := h.passed nofun
  obtain ⟨val, w, L₃, L₄, -, hpoll, h⟩ := h.bind_ret
  have hdone := done_sent hR.posted (Stretch.onHost_ret hp)
  obtain ⟨l, hl, hfirst⟩ := pollIndicator_first hR (by decide) hpoll
  split at h
  · cases h.of_ret.1
  · next hgone =>
    split at h
    · cases h.of_ret.1
    · next hpending =>
      split at h
      · cases h.of_ret.1
      · next hinit =>
        have htelling : telling val = true := decide_eq_true ⟨hgone, .inr hinit⟩
        refine ⟨u, L₁, L₂, l, hL, hp.last, hdone, ?_, val, hfirst htelling, hinit,
          not_not.1 hpending⟩
        rw [(hR.moves h.of_ret.2).2, hl]

end Record

/-- Between two states BMI_DONE has not been sent. -/
def Undone (s t : Host) : Prop := ∃ l, t.posted = s.posted ++ l ∧ ∀ f ∈ l, NotDone f

theorem Silent.undone (h : Silent s L t) : Undone s t :=
  ⟨[], by rw [h.posted, List.append_nil], fun _ hf => absurd hf List.not_mem_nil⟩

theorem Undone.trans (h : Undone s t) (h' : Undone t u) : Undone s u := by
  obtain ⟨l, hl, hnot⟩ := h
  obtain ⟨l', hl', hnot'⟩ := h'
  refine ⟨l ++ l', by rw [hl', hl, List.append_assoc], ?_⟩
  intro f hf
  exact (List.mem_append.1 hf).elim (hnot f) (hnot' f)

theorem Undone.not_done (h : Undone s t) (hl : t.posted = s.posted ++ l) (hf : f ∈ l)
    (hid : cmdId f = kBmiDone) : False := by
  obtain ⟨l', hl', hnot⟩ := h
  obtain rfl := List.append_cancel_left (hl.symm.trans hl')
  exact hnot f hf hid

theorem PostsOnly.undone {p : Prog Host α} {R : Host → Host → Prop} (hp : PostsOnly R NotDone p)
    (h : Stretch R p s L q t) : Undone s t := hp _ _ _ _ h

theorem Ran.undone {p : Prog Host α} {R : Host → Host → Prop} (h : Ran R p s L a t)
    (hp : PostsOnly R NotDone p) : Undone s t := by
  obtain ⟨L₀, L₁, s', -, hs, h⟩ := h
  exact hs.undone.trans (hp.undone h)

section Run

variable {R : Boot → Boot → Prop} {E : Embedded} {fSubVendor fSubDevice : UInt16}
  {stack : Payload} {s₀ t : Boot}

/-- What is to be shown of a point in a run of `bootFirmware`. -/
structure BootFacts (R : Boot → Boot → Prop) (E : Embedded) (fSubVendor fSubDevice : UInt16)
    (stack : Payload) (s₀ : Boot) (L : List Boot) (q : Prog Boot Bool) (t : Boot) : Prop where
  order : Undone s₀.host t.host ∨
    BootOrder (Seen R Boot.host) E fSubVendor fSubDevice s₀.host (L.map Boot.host) t.host
  exit : ∀ ok, q = .ret ok →
    BootExit (Seen R Boot.host) E fSubVendor fSubDevice stack s₀.host ok (L.map Boot.host) t.host
  initialized : q = .ret true → ∃ u M N l, L = M ++ N ∧ M.getLastD s₀ = u ∧
    BootOrder (Seen R Boot.host) E fSubVendor fSubDevice s₀.host (M.map Boot.host) u.host ∧
      t.readings = u.readings ++ l ∧ Initialized l

theorem bootFacts_pending (hu : Undone s₀.host t.host) (hq : ∀ ok, q ≠ .ret ok) :
    BootFacts R E fSubVendor fSubDevice stack s₀ L q t :=
  ⟨.inl hu, fun ok h => absurd h (hq ok), fun h => absurd h (hq true)⟩

theorem bootFacts_failed (hu : Undone s₀.host t.host) (hq : q ≠ .ret true)
    (hexit : BootExit (Seen R Boot.host) E fSubVendor fSubDevice stack s₀.host false
      (L.map Boot.host) t.host) :
    BootFacts R E fSubVendor fSubDevice stack s₀ L q t := by
  refine ⟨.inl hu, ?_, fun h => absurd h hq⟩
  intro ok h
  cases ok with
  | false => exact hexit
  | true => exact absurd h hq

/-- Along these states the boot has written the board data. -/
structure BoardWritten (R : Host → Host → Prop) (E : Embedded) (fSubVendor fSubDevice : UInt16)
    (stack : Payload) (h₀ : Host) (L₁ : List Host) (h₁ : Host) (L₂ : List Host) (h₂ : Host) :
    Prop where
  parsed : E.parseFirmware.1 = true
  undone : Undone h₀ h₂
  configure : Ran R (Fw.configureTarget stack) h₀ L₁ true h₁
  configured : ∃ opt, SentInOrder R h₀ L₁ (configureCmds opt) h₁
  board : Ran R (Fw.downloadBoardData stack (E.boardData fSubVendor fSubDevice)) h₁ L₂ true h₂
  written : ∃ fs, BoardCmds (E.boardData fSubVendor fSubDevice) fs ∧ SentInOrder R h₁ L₂ fs h₂

/-- Once DONE is out, the whole order stands. -/
theorem BoardWritten.order (hR : KeepsRecord R) {h₁ h₂ h₃ : Host}
    (hboard : BoardWritten (Seen R Boot.host) E fSubVendor fSubDevice stack h₀ L₁ h₁ L₂ h₂)
    (hotp : Ran (Seen R Boot.host) (Boot.otpStage E) h₂ L₃ ids h₃)
    (hfirmware : Ran (Seen R Boot.host) (Fw.downloadFirmware E.firmware) h₃ L₄ true h₄)
    (hv : v.posted = h₄.posted ++ [bmiCmd kBmiDone []]) (N : List Host) :
    BootOrder (Seen R Boot.host) E fSubVendor fSubDevice h₀
      (L₁ ++ (L₂ ++ (L₃ ++ (L₄ ++ N)))) v := by
  obtain ⟨opt, hopt⟩ := hboard.configured
  obtain ⟨board, hcmds, hwritten⟩ := hboard.written
  obtain ⟨otp, hposted, hnot⟩ := hotp.undone (posts_otpStage hR.posted E)
  obtain ⟨M₀, M₁, s', rfl, hs', hfw⟩ := hfirmware
  obtain ⟨stream, hstream, hsent⟩ := sent_fastDownload hR.posted hfw
  exact .sent hboard.parsed hopt hcmds hwritten hotp hposted hnot hstream (.left hs' hsent) hv

theorem bootFacts_wait (hR : KeepsRecord R) {h₁ h₂ h₃ : Host} {M : List Boot}
    (hboard : BoardWritten (Seen R Boot.host) E fSubVendor fSubDevice stack s₀.host L₁ h₁ L₂ h₂)
    (hotp : Ran (Seen R Boot.host) (Boot.otpStage E) h₂ L₃ ids h₃)
    (hfirmware : Ran (Seen R Boot.host) (Fw.downloadFirmware E.firmware) h₃ L₄ true h₄)
    (hM : M.map Boot.host = L₁ ++ (L₂ ++ (L₃ ++ (L₄ ++ N)))) (hs : M.getLastD s₀ = s)
    (hsame : s.host.posted = h₄.posted)
    (h : Stretch R (Boot.doneAndWaitTargetInit.bind fun ok =>
      if (!ok) = true then Boot.fail "M3-FAIL-init-wait"
      else (Boot.publishStage "M3-booted").bind fun _ => .ret true) s L q t) :
    BootFacts R E fSubVendor fSubDevice stack s₀ (M ++ L) q t := by
  have hP := hR.posted
  have hu : Undone s₀.host h₄ := (hboard.undone.trans (hotp.undone (posts_otpStage hP E))).trans
    (hfirmware.undone (posts_fastDownload hP _ _))
  have hmap (L : List Boot) :
      (M ++ L).map Boot.host = L₁ ++ (L₂ ++ (L₃ ++ (L₄ ++ (N ++ L.map Boot.host)))) := by
    simp only [List.map_append, hM, List.append_assoc]
  have horder (L : List Boot) (v : Host) (hv : v.posted = h₄.posted ++ [bmiCmd kBmiDone []]) :
      BootOrder (Seen R Boot.host) E fSubVendor fSubDevice s₀.host ((M ++ L).map Boot.host) v := by
    rw [hmap]
    exact hboard.order hR hotp hfirmware hv _
  have hpoint (L : List Boot) (v : Host)
      (hv : v.posted = h₄.posted ∨ v.posted = h₄.posted ++ [bmiCmd kBmiDone []]) :
      Undone s₀.host v ∨
        BootOrder (Seen R Boot.host) E fSubVendor fSubDevice s₀.host ((M ++ L).map Boot.host)
          v := by
    rcases hv with hv | hv
    · have hsilent : Silent h₄ [v] v := silent_single hv
      exact .inl (hu.trans hsilent.undone)
    · exact .inr (horder L v hv)
  rcases h.bind with ⟨u, n, hq, hp⟩ | ⟨ok, u, N₁, N₂, rfl, hp, hk⟩
  · have hposted := doneAndWait_posted hR hp
    rw [hsame] at hposted
    have hq' (ok : Bool) : q ≠ .ret ok := by
      rw [hq]
      exact nofun
    exact ⟨hpoint _ _ hposted, fun ok h => absurd h (hq' ok), fun h => absurd h (hq' true)⟩
  · have hposted := doneAndWait_posted hR hp
    rw [hsame] at hposted
    have hsilent : t.host.posted = u.host.posted := by
      cases ok with
      | false => exact (Stretch.failed hR hk).1.posted
      | true =>
        rcases Stretch.published hR hk with ⟨hv, -⟩ | ⟨v, N₃, N₄, -, hv, -, hk⟩
        · exact hv.posted
        · rw [(hR.moves hk.of_ret.2).1.posted, hv.posted]
    rw [← hsilent] at hposted
    refine ⟨hpoint _ _ hposted, ?_, ?_⟩
    · intro ok _
      rw [hmap]
      exact .downloaded hboard.configure hboard.board hotp hfirmware (fun _ => rfl) hposted
    · intro hq
      cases ok with
      | false => exact absurd hq (Stretch.failed hR hk).2
      | true =>
        rw [hq] at hk
        obtain ⟨v, N₃, N₄, l, rfl, hlast, hv, hl, hinit⟩ := doneAndWait_initialized hR hp
        rw [hsame] at hv
        obtain ⟨w, N₅, N₆, -, hw, hk⟩ := hk.after_op
        have hread : t.readings = w.readings := (hR.moves hk.of_ret.2).2
        refine ⟨v, M ++ N₃, N₄ ++ N₂, l, ?_, ?_, horder N₃ _ hv, ?_, hinit⟩
        · simp only [List.append_assoc]
        · rw [getLastD_append, hs, hlast]
        · rw [hread, (hR.moves hw).2, hl]

theorem bootFacts_start (hR : KeepsRecord R) {h₁ : Host} {M : List Boot} {s : Boot}
    (hboard : BoardWritten (Seen R Boot.host) E fSubVendor fSubDevice stack s₀.host L₁ h₁ L₂ h₂)
    (hM : M.map Boot.host = L₁ ++ (L₂ ++ N)) (hs : M.getLastD s₀ = s) (hN : Silent h₂ N s.host)
    (h : Stretch R (Boot.startFirmware E) s L q t) :
    BootFacts R E fSubVendor fSubDevice stack s₀ (M ++ L) q t := by
  have hP := hR.posted
  have hu := hboard.undone.trans hN.undone
  have hotp := posts_otpStage hP E
  have hfw := posts_fastDownload hP Fw.kPatchLoadAddr E.firmware
  rcases h.bind with ⟨u, n, hq, hp⟩ | ⟨ids, s₁, A, L, rfl, hp₁, h⟩
  · obtain ⟨p', -, hp'⟩ := Stretch.onHost hp
    apply bootFacts_pending (hu.trans (hotp.undone hp'))
    rw [hq]
    exact fun _ => nofun
  have h₁ := Stretch.onHost_ret hp₁
  have hu₁ := hu.trans (hotp.undone h₁)
  have hran : Ran (Seen R Boot.host) (Boot.otpStage E) h₂ (N ++ A.map Boot.host) ids s₁.host :=
    ⟨_, _, _, rfl, hN, h₁⟩
  rcases Stretch.attempt hR h with
    ⟨hq, p', hp⟩ | ⟨hq, u, B, C, rfl, hp, hend⟩ | ⟨s₂, B, L, rfl, hs₂, h₂, h⟩
  · exact bootFacts_pending (hu₁.trans (hfw.undone hp)) hq
  · apply bootFacts_failed ((hu₁.trans (hfw.undone hp)).trans hend.undone) hq
    have hmap : (M ++ (A ++ (B ++ C))).map Boot.host = L₁ ++ (L₂ ++ ((N ++ A.map Boot.host) ++
        (B.map Boot.host ++ C.map Boot.host))) := by
      simp only [List.map_append, hM, List.append_assoc]
    rw [hmap]
    exact .downloaded hboard.configure hboard.board hran ⟨_, _, _, rfl, silent_nil _, hp⟩ nofun
      (.inl hend.posted)
  have hu₂ := hu₁.trans (hfw.undone h₂)
  rcases Stretch.published hR h with ⟨hend, hq⟩ | ⟨s₃, C, L, rfl, hC, hs₃, h⟩
  · exact bootFacts_pending (hu₂.trans hend.undone) hq
  have hmap : (M ++ (A ++ (B ++ C))).map Boot.host = L₁ ++ (L₂ ++ ((N ++ A.map Boot.host) ++
      (B.map Boot.host ++ C.map Boot.host))) := by
    simp only [List.map_append, hM, List.append_assoc]
  have hlast : (M ++ (A ++ (B ++ C))).getLastD s₀ = s₃ := by
    simp only [getLastD_append, hs, hp₁.last, hs₂, hs₃]
  have hfacts := bootFacts_wait hR hboard hran ⟨_, _, _, rfl, silent_nil _, h₂⟩ hmap hlast
    hC.posted h
  simp only [List.append_assoc] at hfacts
  exact hfacts

theorem bootFacts (hR : KeepsRecord R)
    (h : Stretch R (Boot.bootFirmware E fSubVendor fSubDevice stack) s₀ L q t) :
    BootFacts R E fSubVendor fSubDevice stack s₀ L q t := by
  have hP := hR.posted
  unfold Boot.bootFirmware at h
  cases hparse : E.parseFirmware.1 with
  | false =>
    rw [if_pos (by rw [hparse]; rfl)] at h
    obtain ⟨hend, hq⟩ := Stretch.failed hR h
    exact bootFacts_failed hend.undone hq (.unparsed hparse hend)
  | true =>
    rw [if_neg (by rw [hparse]; exact Bool.false_ne_true)] at h
    rcases Stretch.published hR h with ⟨hend, hq⟩ | ⟨s₁, A, L, rfl, hA, hs₁, h⟩
    · exact bootFacts_pending hend.undone hq
    have hconfigure := posts_configureTarget hP stack
    rcases Stretch.attempt hR h with
      ⟨hq, p', hp⟩ | ⟨hq, u, B, C, rfl, hp, hend⟩ | ⟨s₂, B, L, rfl, hs₂, h₂, h⟩
    · exact bootFacts_pending (hA.undone.trans (hconfigure.undone hp)) hq
    · apply bootFacts_failed ((hA.undone.trans (hconfigure.undone hp)).trans hend.undone) hq
      rw [List.map_append, List.map_append, ← List.append_assoc]
      exact .unconfigured ⟨_, _, _, rfl, hA, hp⟩ hend
    have hu₂ := hA.undone.trans (hconfigure.undone h₂)
    obtain ⟨opt, hsent₂⟩ := sent_configureTarget hP h₂
    rcases Stretch.published hR h with ⟨hend, hq⟩ | ⟨s₃, C, L, rfl, hC, hs₃, h⟩
    · exact bootFacts_pending (hu₂.trans hend.undone) hq
    have hboard := posts_downloadBoardData hP stack (E.boardData fSubVendor fSubDevice)
    rcases Stretch.attempt hR h with
      ⟨hq, p', hp⟩ | ⟨hq, u, D, F, rfl, hp, hend⟩ | ⟨s₄, D, L, rfl, hs₄, h₄, h⟩
    · exact bootFacts_pending ((hu₂.trans hC.undone).trans (hboard.undone hp)) hq
    · apply bootFacts_failed
        (((hu₂.trans hC.undone).trans (hboard.undone hp)).trans hend.undone) hq
      have hmap : (A ++ (B ++ (C ++ (D ++ F)))).map Boot.host =
          (A.map Boot.host ++ B.map Boot.host) ++
            ((C.map Boot.host ++ D.map Boot.host) ++ F.map Boot.host) := by
        simp only [List.map_append, List.append_assoc]
      rw [hmap]
      exact .noBoardData ⟨_, _, _, rfl, hA, h₂⟩ ⟨_, _, _, rfl, hC, hp⟩ hend
    have hu₄ := (hu₂.trans hC.undone).trans (hboard.undone h₄)
    obtain ⟨board, hcmds, hsent₄⟩ := sent_downloadBoardData hP h₄
    rcases Stretch.published hR h with ⟨hend, hq⟩ | ⟨s₅, F, L, rfl, hF, hs₅, h⟩
    · exact bootFacts_pending (hu₄.trans hend.undone) hq
    have hwritten : BoardWritten (Seen R Boot.host) E fSubVendor fSubDevice stack s₀.host
        (A.map Boot.host ++ B.map Boot.host) s₂.host (C.map Boot.host ++ D.map Boot.host)
        s₄.host := {
      parsed := hparse
      undone := hu₄
      configure := ⟨_, _, _, rfl, hA, h₂⟩
      configured := ⟨opt, .left hA hsent₂⟩
      board := ⟨_, _, _, rfl, hC, h₄⟩
      written := ⟨board, hcmds, .left hC hsent₄⟩ }
    have hmap : (A ++ (B ++ (C ++ (D ++ F)))).map Boot.host =
        (A.map Boot.host ++ B.map Boot.host) ++
          ((C.map Boot.host ++ D.map Boot.host) ++ F.map Boot.host) := by
      simp only [List.map_append, List.append_assoc]
    have hlast : (A ++ (B ++ (C ++ (D ++ F)))).getLastD s₀ = s₅ := by
      simp only [getLastD_append, hs₁, hs₂, hs₃, hs₄, hs₅]
    have hfacts := bootFacts_start hR hwritten hmap hlast hF h
    simp only [List.append_assoc] at hfacts
    exact hfacts

/-- In every run, along the states it visits: BMI_DONE is only sent behind the configuration, the
board data and the firmware stream, all of them complete; no failure of the OTP stage keeps the
stream from being sent; and the boot succeeds only on a first telling reading, behind BMI_DONE, that
tells of an initialized target. -/
theorem bootFirmware_order (hR : KeepsRecord R)
    (h : Stretch R (Boot.bootFirmware E fSubVendor fSubDevice stack) s₀ L q t) :
    (∀ l f, t.host.posted = s₀.host.posted ++ l → f ∈ l → cmdId f = kBmiDone →
      BootOrder (Seen R Boot.host) E fSubVendor fSubDevice s₀.host (L.map Boot.host) t.host) ∧
      (∀ ok, q = .ret ok → BootExit (Seen R Boot.host) E fSubVendor fSubDevice stack s₀.host ok
        (L.map Boot.host) t.host) ∧
      (q = .ret true → ∃ u M N l, L = M ++ N ∧ M.getLastD s₀ = u ∧
        BootOrder (Seen R Boot.host) E fSubVendor fSubDevice s₀.host (M.map Boot.host) u.host ∧
          t.readings = u.readings ++ l ∧ Initialized l) := by
  have hfacts := bootFacts hR h
  refine ⟨?_, hfacts.exit, hfacts.initialized⟩
  intro l f hl hf hid
  exact hfacts.order.resolve_left fun hu => hu.not_done hl hf hid

end Run

def sampleImages : Embedded where
  firmware6 := ⟨fwFile 0 (encodeBody true sampleElements), fun _ => 0⟩
  board2 := ⟨[], fun _ => 0⟩
  board := [1, 2, 3]
  strayImage := (false, freshImage)
  strayBoard := (false, ⟨none, 0⟩)

theorem sampleImages_firmware :
    sampleImages.parseFirmware.1 = true ∧ sampleImages.firmware ≠ [] := by
  have hid : ∀ e ∈ sampleElements, e.id < 2 ^ 32 := by
    intro e he
    simp only [sampleElements, List.mem_cons, List.not_mem_nil, or_false] at he
    rcases he with rfl | rfl | rfl
    · decide
    · decide
    · decide
  obtain ⟨ok, img, hparse, hok, himg⟩ :=
    parseFirmware_body true 0 sampleElements hid (by decide +kernel)
  have hlast : ∃ e, lastWith isFirmware sampleElements = some e ∧ e.payload ≠ [] :=
    ⟨_, rfl, by decide⟩
  obtain ⟨hptr, hlen⟩ := himg.accepted.2 hlast
  have hall : sampleImages.parseFirmware = (ok, img) := by
    rw [Embedded.parseFirmware]
    exact congrArg (·.getD sampleImages.strayImage) hparse
  refine ⟨?_, ?_⟩
  · rw [hall]
    exact hok.2 hlast
  · obtain ⟨off, hoff⟩ := Option.ne_none_iff_exists'.1 hptr
    rw [Embedded.firmware, hall, Blob.load]
    simp only [hoff]
    intro hnil
    rw [List.map_eq_nil_iff, List.range_eq_nil] at hnil
    exact hlen hnil

theorem sampleImages_boardData (fSubVendor fSubDevice : UInt16) :
    sampleImages.boardData fSubVendor fSubDevice = [1, 2, 3] := rfl

def sampleStack : Payload := ⟨List.replicate kBmiMaxDataSize 0, List.length_replicate⟩

def sampleBoot : Boot := ⟨freshHost, 0, [], [], true⟩

def Hushed (s t : Boot) : Prop := t.host.posted = s.host.posted ∧ t.readings = s.readings

theorem bootFirmware_order_sample :
    ∃ (L : List Boot) (t : Boot),
      BootExit (Seen Hushed Boot.host) sampleImages 0 0 sampleStack freshHost true
        (L.map Boot.host) t.host ∧
      ∃ u M N l, L = M ++ N ∧ M.getLastD sampleBoot = u ∧
        BootOrder (Seen Hushed Boot.host) sampleImages 0 0 freshHost (M.map Boot.host) u.host ∧
          t.readings = u.readings ++ l ∧ Initialized l := by
  have hable : freshHost.Able := ⟨by decide, by decide, rfl⟩
  have hresult := bootFirmware_boots sampleImages 0 0 sampleStack (b := sampleBoot)
    sampleImages_firmware.1 (by rw [sampleImages_boardData]; decide) sampleImages_firmware.2 hable
  obtain ⟨L, h⟩ := Stretch.exec (R := Hushed) (e := Boot.ready) (fun _ => ⟨rfl, rfl⟩)
    (Boot.bootFirmware sampleImages 0 0 sampleStack) sampleBoot
  rw [hresult] at h
  obtain ⟨-, hexit, hinit⟩ := bootFirmware_order (fun _ _ hst => hst) h
  exact ⟨L, _, hexit true rfl, hinit rfl⟩

end Qca9377
