import Qca9377.BringUp
import Qca9377.Handshake

namespace Qca9377
open Bytes Interleaving Wmi
set_option autoImplicit true

namespace Handshake

/-- The calls of a handshake, answered by the frames that arrive in time; where they end the
receive wait expires. -/
def replay (sendWmi : Htc → List UInt8 → Bool × Htc) :
    WmiCalls α → Handshake → List (List UInt8) → Option (α × Handshake × List (List UInt8))
  | .ret a, s, frames => some (a, s, frames)
  | .call .armRecv k, s, frames => replay sendWmi (k .armed) (s.call .armRecv) frames
  | .call (.sendWmi payload) k, s, frames =>
    let (ok, htc) := sendWmi s.htc payload
    replay sendWmi (k (.sent ok)) ({ s with htc }.call (.sendInit ok)) frames
  | .call (.recvWmi _ _) k, s, [] =>
    replay sendWmi (k (.got (some []))) (s.call (.recvWmi 0)) []
  | .call (.recvWmi _ _) k, s, f :: fs => do
    let (buf, s) ← s.recvWmi f
    replay sendWmi (k (.got (some buf))) s fs

def setWmi (w : Wmi) (s : Handshake) : Handshake := { s with wmi := w }

theorem setWmi_recvWmi (w : Wmi) (s : Handshake) (f : List UInt8) :
    (s.setWmi w).recvWmi f = (s.recvWmi f).map fun r => (r.1, r.2.setWmi w) := by
  simp only [recvWmi, setWmi, Option.bind_eq_bind, Option.pure_def]
  cases s.htc.recvFrame (poke s.rxBuf 0 f) f.length 2048 with
  | none => rfl
  | some r => rfl

variable {sendWmi : Htc → List UInt8 → Bool × Htc}

theorem replay_bind (t : WmiCalls α) (k : α → WmiCalls β) (s : Handshake)
    (frames : List (List UInt8)) :
    replay sendWmi (t.bind k) s frames =
      (replay sendWmi t s frames).bind fun r => replay sendWmi (k r.1) r.2.1 r.2.2 := by
  induction t generalizing s frames with
  | ret a => rfl
  | call c n ih =>
    cases c with
    | armRecv => exact ih _ _ _
    | sendWmi payload => exact ih _ _ _
    | recvWmi bufLen timeoutMs =>
      cases frames with
      | nil => exact ih _ _ _
      | cons f fs =>
        simp only [Calls.bind, replay, Option.bind_eq_bind, Option.bind_assoc, ih]

theorem replay_armRecv (k : Unit → WmiCalls α) (s : Handshake) (frames : List (List UInt8)) :
    replay sendWmi (armRecv.bind k) s frames = replay sendWmi (k ()) (s.call .armRecv) frames :=
  rfl

theorem replay_recvEvent (h : s.recvWmi f = some (buf, t)) (timeoutMs : Nat)
    (k : List UInt8 → WmiCalls α) (fs : List (List UInt8)) :
    replay sendWmi ((recvEvent timeoutMs).bind k) s (f :: fs) = replay sendWmi (k buf) t fs := by
  simp only [recvEvent, Calls.bind_eq_bind, Calls.make_bind, Calls.bind, replay, h,
    Option.bind_eq_bind, Option.bind_some]
  rfl

variable (sendWmi)

theorem waitServiceCalls_over (hw : ¬ (w.fFwBuild = 0 ∧ w.fAbi 0 = 0)) (deadlineMs events : Nat)
    (s : Handshake) (frames : List (List UInt8)) :
    replay sendWmi (w.waitServiceCalls deadlineMs events) s frames =
        some (some (true, w), s, frames) ∧
      (s.setWmi w).waitService frames = some (true, s.setWmi w, frames) := by
  have hs : ¬ ((s.setWmi w).wmi.fFwBuild = 0 ∧ (s.setWmi w).wmi.fAbi 0 = 0) := hw
  rw [Wmi.waitServiceCalls.eq_def, Handshake.waitService.eq_def, if_neg hw, if_neg hs]
  exact ⟨rfl, rfl⟩

/-- Phase 1, for a wait that ends within its events. -/
theorem waitServiceCalls_replay (w : Wmi) (deadlineMs : Nat) (s : Handshake)
    (h : frames.length < events) : ∃ ok w' u fs,
      replay sendWmi (w.waitServiceCalls deadlineMs events) s frames =
        some (some (ok, w'), u, fs) ∧
      (s.setWmi w).waitService frames = some (ok, u.setWmi w', fs) := by
  induction frames generalizing w deadlineMs s events with
  | nil =>
    cases events with
    | zero => cases h
    | succ events =>
      by_cases hw : w.fFwBuild = 0 ∧ w.fAbi 0 = 0
      · have hs : (s.setWmi w).wmi.fFwBuild = 0 ∧ (s.setWmi w).wmi.fAbi 0 = 0 := hw
        rw [Wmi.waitServiceCalls.eq_def, Handshake.waitService.eq_def, if_pos hw, if_pos hs]
        exact ⟨_, _, _, _, rfl, rfl⟩
      · exact ⟨_, _, _, _, waitServiceCalls_over sendWmi hw _ _ _ _⟩
  | cons f frames ih =>
    cases events with
    | zero => cases h
    | succ events =>
    have hmore : frames.length < events := Nat.lt_of_succ_lt_succ h
    by_cases hw : w.fFwBuild = 0 ∧ w.fAbi 0 = 0
    · have hs : (s.setWmi w).wmi.fFwBuild = 0 ∧ (s.setWmi w).wmi.fAbi 0 = 0 := hw
      rw [Wmi.waitServiceCalls.eq_def, Handshake.waitService.eq_def, if_pos hw, if_pos hs]
      obtain ⟨n, rxBuf, hrecv⟩ := s.recvWmi_total f
      simp only [setWmi_recvWmi, hrecv, Calls.bind_eq_bind, Calls.pure_eq_ret,
        replay_recvEvent hrecv, Option.map_some, Option.bind_eq_bind, Option.bind_some]
      by_cases hlen : (rxPayload s.htc.fWmiEid f).length < 4
      · rw [if_pos hlen, if_pos hlen]
        exact ⟨_, _, _, _, rfl, rfl⟩
      · obtain ⟨word, hword, -⟩ := eventId_word (Nat.le_of_not_lt hlen)
        rw [if_neg hlen, if_neg hlen, replay_armRecv, hword]
        simp only [Option.bind_some]
        by_cases hid : word &&& kWmiCmdIdMask = kWmiTlvEvtServiceReady
        · rw [if_pos hid, if_pos hid]
          obtain ⟨⟨ok, v⟩, hparse⟩ :=
            parseServiceReady_isSome w ((rxPayload s.htc.fWmiEid f).drop 4)
          rw [hparse]
          simp only [call, setWmi, hparse, Option.bind_some]
          cases ok with
          | false => exact ⟨_, _, _, _, rfl, rfl⟩
          | true => exact ih v _ _ hmore
        · rw [if_neg hid, if_neg hid]
          exact ih w _ _ hmore
    · exact ⟨_, _, _, _, waitServiceCalls_over sendWmi hw _ _ _ _⟩

theorem sendInitCalls_replay (k : Bool → WmiCalls α) (w : Wmi) (s : Handshake)
    (frames : List (List UInt8)) : ∃ ok u,
      replay sendWmi (sendInitCalls.bind k) s frames = replay sendWmi (k ok) u frames ∧
      (s.setWmi w).sendInit sendWmi = (ok, u.setWmi w) := by
  have hlen : (initFrame kAbiWords kRsrcCfg).2 = 4 + 36 + 184 + 8 := by decide +kernel
  obtain ⟨ok, htc, hsent⟩ : ∃ ok htc, sendWmi s.htc (initFrame kAbiWords kRsrcCfg).1 = (ok, htc) :=
    ⟨_, _, rfl⟩
  refine ⟨ok, { s with htc }.call (.sendInit ok), ?_, ?_⟩
  · rw [sendInitCalls]
    dsimp only
    rw [if_neg (not_not.2 hlen), Calls.bind_eq_bind, Calls.make_bind, Calls.bind, replay, hsent]
    rfl
  · have hsent' : sendWmi (s.setWmi w).htc (initFrame kAbiWords kRsrcCfg).1 = (ok, htc) := hsent
    rw [sendInit]
    dsimp only
    rw [if_neg (not_not.2 hlen), hsent']
    rfl

theorem waitReadyCalls_replay (w : Wmi) (tries : Nat) (s : Handshake)
    (frames : List (List UInt8)) : ∃ ok w' u fs,
      replay sendWmi (w.waitReadyCalls tries) s frames = some (some (ok, w'), u, fs) ∧
      (s.setWmi w).waitReady tries frames = some (ok, u.setWmi w') := by
  induction tries generalizing s frames with
  | zero => exact ⟨_, _, _, _, rfl, rfl⟩
  | succ tries ih =>
    cases frames with
    | nil => exact ⟨_, _, _, _, rfl, rfl⟩
    | cons f fs =>
      obtain ⟨n, rxBuf, hrecv⟩ := s.recvWmi_total f
      rw [Wmi.waitReadyCalls, Handshake.waitReady]
      simp only [setWmi_recvWmi, hrecv, Calls.bind_eq_bind, Calls.pure_eq_ret,
        replay_recvEvent hrecv, Option.map_some, Option.bind_eq_bind, Option.bind_some]
      by_cases hlen : (rxPayload s.htc.fWmiEid f).length < 4
      · rw [if_pos hlen, if_pos hlen]
        exact ⟨_, _, _, _, rfl, rfl⟩
      · obtain ⟨word, hword, -⟩ := eventId_word (Nat.le_of_not_lt hlen)
        rw [if_neg hlen, if_neg hlen, replay_armRecv, hword]
        simp only [Option.bind_some]
        by_cases hid : word &&& kWmiCmdIdMask = kWmiTlvEvtReady
        · rw [if_pos hid, if_pos hid]
          obtain ⟨⟨ok, v⟩, hparse⟩ := parseReady_isSome w ((rxPayload s.htc.fWmiEid f).drop 4)
          simp only [call, setWmi, hparse, Option.bind_some]
          exact ⟨_, _, _, _, rfl, rfl⟩
        · rw [if_neg hid, if_neg hid]
          exact ih _ _

/-- The calls of `waitServiceAndReady` are those of the handshake: answered by the same frames, both
end with the same verdict, object and log. -/
theorem waitServiceAndReadyCalls_replay (w : Wmi) (timeoutMs : Nat) (s : Handshake)
    (h : frames.length < events) : ∃ ok w' u fs,
      replay sendWmi (w.waitServiceAndReadyCalls events timeoutMs) s frames =
        some (some (ok, w'), u, fs) ∧
      (s.setWmi w).waitServiceAndReady sendWmi frames = some (ok, u.setWmi w') := by
  obtain ⟨ok, v, t, rest, hservice, hframes⟩ :=
    waitServiceCalls_replay sendWmi w timeoutMs (s.call .armRecv) h
  have hframes' : ((s.setWmi w).call .armRecv).waitService frames = some (ok, t.setWmi v, rest) :=
    hframes
  rw [waitServiceAndReadyCalls, Handshake.waitServiceAndReady, hframes']
  rw [Calls.bind_eq_bind, replay_armRecv, Calls.bind_eq_bind, replay_bind, hservice,
    Option.bind_eq_bind, Option.bind_some, Option.bind_some]
  cases ok with
  | false => exact ⟨_, _, _, _, rfl, rfl⟩
  | true =>
    obtain ⟨sent, u, hinit, hsent⟩ := sendInitCalls_replay sendWmi
      (fun ok => if !ok then .ret (some (false, v)) else v.waitReadyCalls 5) v t rest
    simp only [Calls.bind_eq_bind, Calls.pure_eq_ret]
    rw [hinit, hsent, Bool.not_true, if_neg Bool.false_ne_true]
    cases sent with
    | false => exact ⟨_, _, _, _, rfl, rfl⟩
    | true => exact waitReadyCalls_replay sendWmi v 5 u rest

end Handshake

end Qca9377
