import Qca9377.Polling
import Qca9377.Transmit

namespace Qca9377
open Bytes Interleaving
set_option autoImplicit true

def SrcRing.shown (x : UInt32) (s : SrcRing) : SrcRing :=
  { s with currentSRRI := x.toNat, gone := x == 0xffffffff }

/-- SRRI reads as `r n` from the `n`-th access on, up to the next one. -/
def shows (r : Nat → UInt32) (n : Nat) : SrcRing → SrcRing := SrcRing.shown (r n)

/-- From the `v`-th access on, every read finds a dead bus. -/
def Vanishes (r : Nat → UInt32) (v : Nat) : Prop := ∀ n, v ≤ n → r n = 0xffffffff

/-- The index that a reading shows. -/
def index (x : UInt32) : Nat := x.toNat % kRingN

variable {s t : SrcRing} {r : Nat → UInt32}

theorem shown_srri (x : UInt32) (s : SrcRing) : (s.shown x).srri = index x := by
  by_cases hx : x = 0xffffffff
  · subst hx
    rfl
  · simp only [SrcRing.srri, SrcRing.shown, index, beq_iff_eq, hx, if_false]

theorem shows_later (n : Nat) (r : Nat → UInt32) :
    later n (shows r) = shows fun k => r (k + n) := rfl

theorem shows_foundAt (r : Nat → UInt32) (s : SrcRing) (k : Nat) :
    foundAt (shows r) id s k = s.shown (r k) :=
  foundAt_induct (P := fun k t => t = s.shown (r k)) rfl (fun _ _ ht => ht ▸ rfl) k

def SrcRing.caughtUp (s : SrcRing) : Option (Nat × Nat) :=
  if s.srri = s.fSrcWrite then some (s.srri, s.fSrcWrite) else none

theorem pollSRRI_eq (n : Nat) : pollSRRI n = (pollFor id SrcRing.caughtUp n).bind fun seen =>
    match seen with
    | some x => .ret x
    | none => read fun s => (s.srri, s.fSrcWrite) := by
  induction n with
  | zero => rfl
  | succ n ih =>
    simp only [pollSRRI, pollFor, read_bind, bind_eq_bind, Prog.op_bind, pure_eq_ret]
    congr 1
    funext s
    by_cases hs : s.srri = s.fSrcWrite
    · simp only [SrcRing.caughtUp, if_pos hs, Prog.ret_bind]
    · simp only [SrcRing.caughtUp, if_neg hs]
      exact ih

/-- The `i`-th reading is the first that equals the write index. -/
def Catches (r : Nat → UInt32) (w i : Nat) : Prop := FirstAt (fun k => index (r k) = w) i

theorem caughtUp_shown (x : UInt32) (s : SrcRing) :
    (s.shown x).caughtUp = if index x = s.fSrcWrite then some (index x, s.fSrcWrite) else none := by
  rw [SrcRing.caughtUp, shown_srri]
  rfl

theorem pollSRRI_catches (hi : i ≤ n) (h : Catches r s.fSrcWrite i) :
    along (shows r) (pollSRRI n) s = ((s.fSrcWrite, s.fSrcWrite), s.shown (r i)) ∧
      found (shows r) (pollSRRI n) s = (List.range (i + 1)).map fun k => s.shown (r k) := by
  have hbefore : ∀ k < i, (foundAt (shows r) id s k).caughtUp = none := by
    intro k hk
    rw [shows_foundAt, caughtUp_shown, if_neg (h.2 k hk)]
  have hfound (m : Nat) : (List.range m).map (foundAt (shows r) id s) =
      (List.range m).map fun k => s.shown (r k) :=
    List.map_congr_left fun k _ => shows_foundAt r s k
  rw [pollSRRI_eq, along_bind, found_bind]
  rcases Nat.lt_or_eq_of_le hi with hlt | rfl
  · have hat : (foundAt (shows r) id s i).caughtUp = some (s.fSrcWrite, s.fSrcWrite) := by
      rw [shows_foundAt, caughtUp_shown, h.1, if_pos rfl]
    obtain ⟨hret, hseen⟩ := pollFor_some hlt hbefore hat
    rw [hret, hseen, hfound, shows_foundAt]
    exact ⟨rfl, List.append_nil _⟩
  · obtain ⟨hret, hnext, hseen⟩ := pollFor_none hbefore
    rw [shows_foundAt] at hnext
    rw [hret, hseen, hfound, List.length_map, List.length_range, List.range_succ, List.map_append]
    have hlast : later i (shows r) 0
        (along (shows r) (pollFor id SrcRing.caughtUp i) s).2 = s.shown (r i) := by
      rw [later, Nat.zero_add, hnext]
    constructor
    · simp only [Interleaving.read, along_op, along_ret, hlast, id_eq, shown_srri, h.1]
      rfl
    · simp only [Interleaving.read, found_op, found_ret, hlast, List.map_singleton]

theorem pollSRRI_misses (h : ∀ k ≤ n, index (r k) ≠ s.fSrcWrite) :
    along (shows r) (pollSRRI n) s = ((index (r n), s.fSrcWrite), s.shown (r n)) := by
  have hbefore : ∀ k < n, (foundAt (shows r) id s k).caughtUp = none := by
    intro k hk
    rw [shows_foundAt, caughtUp_shown, if_neg (h k (Nat.le_of_lt hk))]
  obtain ⟨hret, hnext, hseen⟩ := pollFor_none hbefore
  rw [shows_foundAt] at hnext
  rw [pollSRRI_eq, along_bind, hret, hseen, List.length_map, List.length_range]
  have hlast : later n (shows r) 0
      (along (shows r) (pollFor id SrcRing.caughtUp n) s).2 = s.shown (r n) := by
    rw [later, Nat.zero_add, hnext]
  simp only [Interleaving.read, along_op, along_ret, hlast, id_eq, shown_srri]
  rfl

def SrcRing.post (buf : List UInt8) (s : SrcRing) : SrcRing :=
  (((s.copyIn buf).writeDesc buf.length).stepWrite).ring buf

/-- The part of `send` that waits for the completion. -/
def awaitSent : Prog SrcRing Bool :=
  (pollSRRI (pollDeadline kQCAExchangeTimeout_ms)).bind fun x =>
    if x.1 ≠ x.2 then .op (SrcRing.log (.sendCompletionTimeout x.1 x.2)) fun _ => .ret false
    else .ret true

theorem posting_along (r : Nat → UInt32) (buf : List UInt8) (p : Prog SrcRing α) (s : SrcRing) :
    let posting := Prog.op (SrcRing.copyIn buf) fun _ => .op (SrcRing.writeDesc buf.length) fun _ =>
      .op SrcRing.stepWrite fun _ => .op (SrcRing.ring buf) fun _ => p
    along (shows r) posting s =
        along (shows fun k => r (k + 4)) p ((s.post buf).shown (r 3)) ∧
      ∃ L, L.length = 4 ∧ (∀ t ∈ L, t.posted = s.posted) ∧
        found (shows r) posting s =
          L ++ found (shows fun k => r (k + 4)) p ((s.post buf).shown (r 3)) := by
  refine ⟨rfl, [s.shown (r 0), (s.copyIn buf).shown (r 1),
    ((s.copyIn buf).writeDesc buf.length).shown (r 2),
    ((s.copyIn buf).writeDesc buf.length).stepWrite.shown (r 3)], rfl, ?_, rfl⟩
  intro t ht
  simp only [List.mem_cons, List.not_mem_nil, or_false] at ht
  rcases ht with rfl | rfl | rfl | rfl
  · rfl
  · rfl
  · rfl
  · rfl

/-- A `send` whose pre-wait ends with the `i`-th reading. -/
theorem send_posts (hlen : ¬ BadLen buf.length) (hi : i ≤ pollDeadline kQCAExchangeTimeout_ms)
    (h : Catches r s.fSrcWrite i) :
    (along (shows r) (SrcRing.send buf) s).1 =
        (along (shows fun k => r (k + (i + 5))) awaitSent ((s.post buf).shown (r (i + 4)))).1 ∧
      ∃ L, L.length = i + 5 ∧ (∀ t ∈ L, t.posted = s.posted) ∧
        found (shows r) (SrcRing.send buf) s =
          L ++ found (shows fun k => r (k + (i + 5))) awaitSent
            ((s.post buf).shown (r (i + 4))) := by
  obtain ⟨hret, hseen⟩ := pollSRRI_catches hi h
  have hbad : ¬ (buf.length = 0 ∨ kTxBufSz < buf.length ∨ 0xFFFF < buf.length) := hlen
  have hshift : (fun k => r (k + 4 + (i + 1))) = fun k => r (k + (i + 5)) := by
    funext k
    rw [Nat.add_assoc, Nat.add_comm 4]
  obtain ⟨hpost, L, hL, hposted, hposting⟩ :=
    posting_along (fun k => r (k + (i + 1))) buf awaitSent (s.shown (r i))
  rw [hshift, Nat.add_comm 3] at hpost hposting
  unfold SrcRing.send
  simp only [bind_eq_bind, modify_bind, pure_eq_ret, if_neg hbad]
  rw [along_bind, found_bind, hret, hseen, List.length_map, List.length_range, shows_later]
  dsimp only
  rw [if_neg (not_not.2 rfl)]
  refine ⟨congrArg Prod.fst hpost,
    ((List.range (i + 1)).map fun k => s.shown (r k)) ++ L, ?_, ?_, ?_⟩
  · rw [List.length_append, List.length_map, List.length_range, hL]
  · intro t ht
    rcases List.mem_append.1 ht with ht | ht
    · obtain ⟨k, -, rfl⟩ := List.mem_map.1 ht
      rfl
    · exact hposted t ht
  · rw [List.append_assoc]
    exact congrArg _ hposting

theorem awaitSent_catches (hj : j ≤ pollDeadline kQCAExchangeTimeout_ms)
    (h : Catches r s.fSrcWrite j) :
    (along (shows r) awaitSent s).1 = true ∧
      found (shows r) awaitSent s = (List.range (j + 1)).map fun k => s.shown (r k) := by
  obtain ⟨hret, hseen⟩ := pollSRRI_catches hj h
  rw [awaitSent, along_bind, found_bind, hret, hseen]
  dsimp only
  rw [if_neg (not_not.2 rfl)]
  exact ⟨rfl, List.append_nil _⟩

theorem awaitSent_misses
    (h : ∀ k ≤ pollDeadline kQCAExchangeTimeout_ms, index (r k) ≠ s.fSrcWrite) :
    (along (shows r) awaitSent s).1 = false := by
  rw [awaitSent, along_bind, pollSRRI_misses h]
  dsimp only
  rw [if_pos (h _ (Nat.le_refl _))]
  rfl

theorem send_refused (h : BadLen buf.length ∨
    ∀ k ≤ pollDeadline kQCAExchangeTimeout_ms, index (r k) ≠ s.fSrcWrite) :
    (along (shows r) (SrcRing.send buf) s).1 = false := by
  unfold SrcRing.send
  simp only [bind_eq_bind, modify_bind, pure_eq_ret]
  split
  · rfl
  · next hlen =>
    rcases h with hbad | hmiss
    · exact absurd hbad hlen
    · rw [along_bind, pollSRRI_misses hmiss]
      dsimp only
      rw [if_pos (hmiss _ (Nat.le_refl _))]
      rfl

/-- With the frame posted, SRRI equals the write index. -/
def SeenSent (buf : List UInt8) (s t : SrcRing) : Prop :=
  t.posted = s.posted ++ [buf] ∧ t.srri = t.fSrcWrite

/-- A `send` that returns true has seen SRRI at the write index, after its post and before the
device vanished. -/
def SentIsSeen (r : Nat → UInt32) (v : Nat) (buf : List UInt8) (s : SrcRing) : Prop :=
  (along (shows r) (SrcRing.send buf) s).1 = true →
    ∃ n < v, ∃ t, (found (shows r) (SrcRing.send buf) s)[n]? = some t ∧ SeenSent buf s t

/-- The entry posted is number 14, and the device vanishes within the completion wait without
having shown 15. -/
def Aliased (r : Nat → UInt32) (v : Nat) (buf : List UInt8) (s : SrcRing) : Prop :=
  ¬ BadLen buf.length ∧ s.fSrcWrite = 14 ∧ ∃ i ≤ pollDeadline kQCAExchangeTimeout_ms,
    Catches r 14 i ∧ v ≤ i + 5 + pollDeadline kQCAExchangeTimeout_ms ∧
      ∀ k, i + 5 ≤ k → k < v → index (r k) ≠ 15

theorem found_sent {L : List SrcRing} (hL : L.length = m) (hposted : ∀ t ∈ L, t.posted = s.posted)
    (hn : (L ++ (List.range (j + 1)).map fun k => (s.post buf).shown (r k))[n]? = some t)
    (ht : SeenSent buf s t) :
    ∃ k ≤ j, n = m + k ∧ index (r k) = (s.fSrcWrite + 1) % kRingN := by
  have hne : t.posted ≠ s.posted := by
    rw [ht.1]
    exact fun h => List.cons_ne_nil _ _ (List.append_right_eq_self.1 h)
  rcases Nat.lt_or_ge n L.length with hlt | hge
  · rw [List.getElem?_append_left hlt] at hn
    exact absurd (hposted t (List.mem_of_getElem? hn)) hne
  · rw [List.getElem?_append_right hge, List.getElem?_map] at hn
    obtain ⟨k, hk, rfl⟩ := Option.map_eq_some_iff.1 hn
    obtain ⟨hlt, hk⟩ := List.getElem?_eq_some_iff.1 hk
    rw [List.length_range] at hlt
    rw [List.getElem_range] at hk
    refine ⟨k, by omega, by omega, ?_⟩
    exact (shown_srri _ _).symm.trans ht.2

theorem catches_or (r : Nat → UInt32) (w n : Nat) :
    (∃ i ≤ n, Catches r w i) ∨ ∀ k ≤ n, index (r k) ≠ w := by
  rcases firstAt_or (fun k => index (r k) = w) (n + 1) with ⟨i, hi, h⟩ | h
  · exact .inl ⟨i, Nat.lt_succ_iff.1 hi, h⟩
  · exact .inr fun k hk => h k (Nat.lt_succ_iff.2 hk)

theorem index_vanished (hv : Vanishes r v) (hn : v ≤ n) : index (r n) = 15 := by
  rw [hv n hn]
  rfl

theorem Catches.index_lt (h : Catches r w i) : w < kRingN := by
  rw [← h.1]
  exact Nat.mod_lt _ (by decide)

/-- A completion wait that ends with its `j`-th reading. -/
theorem sentIsSeen_caught (hlen : ¬ BadLen buf.length)
    (hi : i ≤ pollDeadline kQCAExchangeTimeout_ms) (hpre : Catches r s.fSrcWrite i)
    (hj : j ≤ pollDeadline kQCAExchangeTimeout_ms)
    (hsent : Catches (fun k => r (k + (i + 5))) ((s.fSrcWrite + 1) % kRingN) j) :
    SentIsSeen r v buf s ↔ i + 5 + j < v := by
  obtain ⟨hret, L, hL, hposted, hfound⟩ := send_posts hlen hi hpre
  obtain ⟨htrue, hseen⟩ := awaitSent_catches (s := (s.post buf).shown (r (i + 4))) hj hsent
  rw [hseen] at hfound
  constructor
  · intro h
    obtain ⟨n, hn, t, ht, hs⟩ := h (hret.trans htrue)
    rw [hfound] at ht
    obtain ⟨k, hk, rfl, hindex⟩ := found_sent hL hposted ht hs
    rcases Nat.lt_or_eq_of_le hk with hlt | rfl
    · exact absurd (Nat.add_comm _ _ ▸ hindex) (hsent.2 k hlt)
    · exact hn
  · intro hlt _
    refine ⟨i + 5 + j, hlt, (s.post buf).shown (r (j + (i + 5))), ?_, rfl, ?_⟩
    · rw [hfound, List.getElem?_append_right (hL.trans_le (Nat.le_add_right _ _)), hL,
        Nat.add_sub_cancel_left, List.getElem?_map, List.getElem?_range (Nat.lt_succ_self j)]
      rfl
    · exact (shown_srri _ _).trans hsent.1

/-- A device that vanishes is taken for a completed transfer exactly when all-ones reads as the
index that is waited for. -/
theorem sentIsSeen_iff (buf : List UInt8) (s : SrcRing) (hv : Vanishes r v) :
    SentIsSeen r v buf s ↔ ¬ Aliased r v buf s := by
  by_cases hlen : BadLen buf.length
  · have hfalse := send_refused (r := r) (s := s) (.inl hlen)
    exact ⟨fun _ h => h.1 hlen, fun _ htrue => absurd (hfalse.symm.trans htrue) nofun⟩
  rcases catches_or r s.fSrcWrite (pollDeadline kQCAExchangeTimeout_ms) with
    ⟨i, hi, hpre⟩ | hmiss
  case inr =>
    have hfalse : (along (shows r) (SrcRing.send buf) s).1 = false := send_refused (.inr hmiss)
    refine ⟨?_, fun _ htrue => absurd (hfalse.symm.trans htrue) nofun⟩
    rintro - ⟨-, hw, i, hi, hpre, -⟩
    exact hmiss i hi (hpre.1.trans hw.symm)
  have hlast : Aliased r v buf s ↔ s.fSrcWrite = 14 ∧
      v ≤ i + 5 + pollDeadline kQCAExchangeTimeout_ms ∧
        ∀ k, i + 5 ≤ k → k < v → index (r k) ≠ 15 := by
    constructor
    · rintro ⟨-, hw, i', -, hpre', hrest⟩
      obtain rfl := hpre'.unique (hw ▸ hpre)
      exact ⟨hw, hrest⟩
    · rintro ⟨hw, hrest⟩
      exact ⟨hlen, hw, i, hi, hw ▸ hpre, hrest⟩
  rw [hlast]
  rcases catches_or (fun k => r (k + (i + 5))) ((s.fSrcWrite + 1) % kRingN)
    (pollDeadline kQCAExchangeTimeout_ms) with ⟨j, hj, hsent⟩ | hmiss
  · rw [sentIsSeen_caught hlen hi hpre hj hsent, ← not_le, not_iff_not]
    constructor
    · intro hvj
      -- the reading that ends the wait is all-ones
      have hones := index_vanished hv hvj
      rw [Nat.add_comm] at hones
      have hw : (s.fSrcWrite + 1) % kRingN = 15 := hsent.1.symm.trans hones
      have hlt := hpre.index_lt
      rw [kRingN] at hw hlt
      refine ⟨by omega, by omega, fun k hk hkv h15 => ?_⟩
      obtain ⟨k, rfl⟩ := Nat.exists_eq_add_of_le' hk
      exact hsent.2 k (by omega) (h15.trans hw.symm)
    · rintro ⟨hw, -, hnone⟩
      refine not_lt.1 fun hlt => ?_
      have h15 := hsent.1
      rw [hw] at h15
      exact hnone (j + (i + 5)) (by omega) (by omega) h15
  · obtain ⟨hret, -⟩ := send_posts hlen hi hpre
    have hfalse := awaitSent_misses (s := (s.post buf).shown (r (i + 4))) hmiss
    refine ⟨?_, fun _ htrue => absurd (hfalse.symm.trans (hret.symm.trans htrue)) nofun⟩
    rintro - ⟨hw, hvi, -⟩
    -- the device is gone before the wait is over
    have h15 := index_vanished hv (n := pollDeadline kQCAExchangeTimeout_ms + (i + 5)) (by omega)
    have hne := hmiss _ (Nat.le_refl _)
    rw [hw] at hne
    exact hne h15

/-- The readings of a device that shows `w` and vanishes right after a frame has been posted. -/
def goneAfterPost (w : UInt32) (n : Nat) : UInt32 := if n < 5 then w else 0xffffffff

theorem goneAfterPost_vanishes (w : UInt32) : Vanishes (goneAfterPost w) 5 :=
  fun _ hn => if_neg (Nat.not_lt.2 hn)

theorem sentIsSeen_fresh : SentIsSeen (goneAfterPost 0) 5 [7] freshSrc :=
  (sentIsSeen_iff [7] freshSrc (goneAfterPost_vanishes 0)).2 fun h => absurd h.2.1 (by decide)

/-- The pair after `n` frames that the engine has consumed at once. -/
def afterSends : Nat → CECopyPair
  | 0 => freshPair
  | n + 1 => (exec (fun p => p.setSrc p.src.eager) (CECopyPair.send [7]) (afterSends n)).2

theorem afterSends_reachable (n : Nat) : Reachable txSystem anyCall (.idle (afterSends n)) := by
  induction n with
  | zero => exact .init ⟨rfl, rfl, rfl, rfl, rfl, rfl, rfl⟩
  | succ n ih => exact ((ih.step (.call (c := [7]) trivial)).exec eager_envs).step .finish

/-- A device that vanishes right after the post of entry 14. -/
theorem aliased_sent (hlen : ¬ BadLen buf.length) (hw : s.fSrcWrite = 14) :
    (along (shows (goneAfterPost 14)) (SrcRing.send buf) s).1 = true ∧
      ¬ SentIsSeen (goneAfterPost 14) 5 buf s := by
  have hpre : Catches (goneAfterPost 14) s.fSrcWrite 0 := by
    rw [hw]
    exact ⟨rfl, nofun⟩
  have hsent :
      Catches (fun k => goneAfterPost 14 (k + (0 + 5))) ((s.fSrcWrite + 1) % kRingN) 0 := by
    rw [hw]
    exact ⟨rfl, nofun⟩
  have hbudget := Nat.zero_le (pollDeadline kQCAExchangeTimeout_ms)
  obtain ⟨hret, -⟩ := send_posts hlen hbudget hpre
  obtain ⟨htrue, -⟩ := awaitSent_catches
    (s := (s.post buf).shown (goneAfterPost 14 (0 + 4))) hbudget hsent
  refine ⟨hret.trans htrue, fun h => ?_⟩
  exact absurd ((sentIsSeen_caught hlen hbudget hpre hbudget hsent).1 h) (by decide)

/-- After fourteen frames, a device that vanishes right after the fifteenth post is taken for one
that has sent it. -/
theorem vanished_taken_for_sent :
    Reachable txSystem anyCall (.idle (afterSends 14)) ∧ Vanishes (goneAfterPost 14) 5 ∧
      (along (shows (goneAfterPost 14)) (SrcRing.send [7]) (afterSends 14).src).1 = true ∧
      ¬ SentIsSeen (goneAfterPost 14) 5 [7] (afterSends 14).src := by
  have hw : (afterSends 14).src.fSrcWrite = 14 := by decide +kernel
  exact ⟨afterSends_reachable 14, goneAfterPost_vanishes 14, aliased_sent (by decide) hw⟩

end Qca9377
