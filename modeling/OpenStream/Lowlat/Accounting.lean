import Mathlib.Algebra.BigOperators.Group.Finset.Basic
import OpenStream.Lowlat.SendRuns

/-!
# Accounting for acknowledgements

The delivery rate is a difference of two counters of a send ring, which grow as acknowledgements move
the base. Acknowledgements are lost, repeated and reordered; what the counters come to depends on the
furthest one only.

* **`SendRing.acks_any_order`**
* **`SendRing.wrapped_uncounted`**
-/

set_option linter.unusedSectionVars false

namespace OpenStream.Lowlat

open Bytes Runs List Lowlat.Seq
open UInt32 (ofNat sub_self)

theorem satAdd_satAdd (w a b c : ℕ) : satAdd w (satAdd w a b) c = satAdd w a (b + c) := by
  unfold satAdd
  omega

theorem satAdd_zero {w a : ℕ} (h : a ≤ 2 ^ w - 1) : satAdd w a 0 = a := min_eq_left h

theorem satAdd_le (w a b : ℕ) : satAdd w a b ≤ 2 ^ w - 1 := min_le_right _ _

variable {n : ℕ} [NeZero n] {F : Type} [F64 F]

namespace SendRing

/-! ## Bytes accounted for -/

def bytesFrom (r : SendRing n F) (s : UInt32) (k : ℕ) : ℕ :=
  ∑ j ∈ Finset.range k, (r.slot (slotOf n s j)).body.length

theorem bytesFrom_add (r : SendRing n F) (s : UInt32) (d k : ℕ) :
    r.bytesFrom s (d + k) = r.bytesFrom s d + r.bytesFrom (seqAt s d) k := by
  unfold bytesFrom
  rw [Finset.sum_range_add]
  simp [slotOf_seqAt]

variable {r : SendRing n F}

def Awaited (r : SendRing n F) (i : Fin n) : Prop :=
  (r.slot i).sent = true ∧ (r.slot i).ackedAccounted = false

theorem bytesAcked_accountLoop {k : ℕ} (hk : k < 2 ^ 31) {s : UInt32} (r : SendRing n F)
    (hr : r.bytesAcked ≤ 2 ^ 64 - 1) (ha : Apart n s 0 k) (hs : ∀ j < k, r.Awaited (slotOf n s j)) :
    (accountLoop (s + ofNat k) k s r).bytesAcked =
      satAdd 64 r.bytesAcked (r.bytesFrom s k) := by
  induction k generalizing s r with
  | zero => exact (satAdd_zero hr).symm
  | succ k ih =>
    have hzero : slotOf n s 0 = slotIndex n s := congrArg (slotIndex n) (seqAt_zero s)
    obtain ⟨hsent, hacc⟩ := hs 0 (Nat.succ_pos k)
    rw [hzero] at hsent hacc
    simp only [accountLoop]
    rw [lt, gt_add (Nat.succ_pos k) hk, if_pos rfl, hsent, hacc, Bool.not_false, Bool.and_true,
      if_pos rfl, ← add_one_add]
    -- the slot accounted for now is none of those after it
    have hother (j : ℕ) (hj : j < k) : slotOf n (s + 1) j ≠ slotIndex n s := by
      intro heq
      have h1 : slotOf n (s + 1) j = slotOf n s (1 + j) := slotOf_seqAt s 1 j
      rw [h1, ← hzero] at heq
      have := ha (1 + j) 0 (Nat.zero_le _) (by omega) le_rfl (Nat.succ_pos k) heq
      omega
    have hslot (j : ℕ) (hj : j < k) (x : SendSlot F) :
        Function.update r.slot (slotIndex n s) x (slotOf n (s + 1) j) = r.slot (slotOf n s (1 + j)) :=
      (Function.update_of_ne (hother j hj) _ _).trans (congrArg r.slot (slotOf_seqAt s 1 j))
    refine (ih (s := s + 1) (by omega) _ (satAdd_le _ _ _) (ha.rest 1) fun j hj => ?_).trans ?_
    · simp only [Awaited, hslot j hj]
      exact hs (1 + j) (by omega)
    · rw [satAdd_satAdd, Nat.add_comm k 1, bytesFrom_add]
      congr 2
      · simp [bytesFrom, hzero]
      · refine Finset.sum_congr rfl fun j hj => congrArg (fun s : SendSlot F => length s.body) ?_
        exact Function.update_of_ne (hother j (Finset.mem_range.mp hj)) _ _

theorem bytesAcked_accountLoop_le (cumulative : UInt32) (k : ℕ) (s : UInt32)
    (hr : r.bytesAcked ≤ 2 ^ 64 - 1) : (accountLoop cumulative k s r).bytesAcked ≤ 2 ^ 64 - 1 := by
  induction k generalizing s r with
  | zero => exact hr
  | succ k ih =>
    simp only [accountLoop]
    split_ifs
    · exact ih _ (satAdd_le _ _ _)
    · exact ih _ hr
    · exact hr

/-! ## A list of acknowledgements -/

def onAcks (r : SendRing n F) (acks : List (Ack × F)) : SendRing n F :=
  acks.foldl (fun r a => (r.onAck a.1 a.2).1) r

/-- A ring whose `w` fragments in flight have all been sent, after acknowledgements that moved its
base by `d`. -/
structure Settled (r : SendRing n F) (w d : ℕ) (r' : SendRing n F) : Prop where
  lt : d < 2 ^ 31
  le : d ≤ w
  base : r'.base = seqAt r.base d
  next : r'.next = r.next
  channel : r'.channel = r.channel
  acked : r'.acked = satAdd 64 r.acked d
  bytesAcked : r'.bytesAcked = satAdd 64 r.bytesAcked (r.bytesFrom r.base d)
  awaited : ∀ j, d ≤ j → j < w → r'.Awaited (slotOf n r.base j) ∧
    (r'.slot (slotOf n r.base j)).body = (r.slot (slotOf n r.base j)).body

/-- An acknowledgement of this channel reports a value in the window, `e` past the base. -/
structure Reports (r : SendRing n F) (e : ℕ) (ack : Ack) : Prop where
  reported : r.channel.val < ack.reported
  lt : e < 2 ^ 31
  le : e ≤ (r.next - r.base).toNat
  within : (r.next - seqAt r.base e).toNat < 2 ^ 31
  value : ack.cumulative r.channel = seqAt r.base e

theorem Reports.of_between {ack : Ack} (hch : r.channel.val < ack.reported)
    (hge : Seq.ge (ack.cumulative r.channel) r.base = true)
    (hle : Seq.le (ack.cumulative r.channel) r.next = true) :
    Reports r (ack.cumulative r.channel - r.base).toNat ack := by
  rw [Seq.ge_eq, Serial.sge, decide_eq_true_iff] at hge
  rw [Seq.le, Seq.ge_eq, Serial.sge, decide_eq_true_iff] at hle
  have hv := seqAt_toNat_sub r.base (ack.cumulative r.channel)
  refine ⟨hch, hge, ?_, by rw [hv]; exact hle, hv.symm⟩
  rw [toNat_sub_between hge hle]
  omega

/-- **One more acknowledgement**: the base goes on if its value is further. -/
theorem Settled.onAck {r₁ : SendRing n F} {w d e : ℕ} (h : Settled r w d r₁)
    (hw : w = (r.next - r.base).toNat) (ha : Apart n r.base 0 w) {ack : Ack}
    (hr : Reports r e ack) (nowMs : F) : Settled r w (max d e) (r₁.onAck ack nowMs).1 := by
  obtain ⟨k, hk⟩ := r₁.acked_onAck ack nowMs
  have hlt := h.lt
  have hle := h.le
  have hre := hr.lt
  have hrle := hr.le
  have hw32 : w < 2 ^ 32 := by
    rw [hw]
    exact (r.next - r.base).toNat_lt
  have hvalue : r₁.reportedCumulative ack = seqAt r.base e := by
    rw [reportedCumulative, h.channel, if_pos hr.reported, hr.value]
  have hbase : r₁.base + ofNat k = seqAt r.base (d + k) := by
    rw [h.base, seqAt_add]
  have hrep := hk.reported
  rw [hvalue, hbase] at hrep
  have hmax : max d e = d + k := by
    rcases hrep with ⟨h0, heq⟩ | ⟨h0, hno⟩
    · have hkl := hk.lt
      rw [seqAt_inj (by omega) (by omega)] at heq
      omega
    · rw [h.base, h.next, gt_seqAt_iff (by omega) (by omega), Seq.le, Seq.ge_eq, Serial.sge,
        decide_eq_true_iff] at hno
      have := hr.within
      omega
  rw [hmax]
  have hwk : d + k ≤ w := by omega
  have hawait (j : ℕ) (hj : j < k) : r₁.Awaited (slotOf n r₁.base j) ∧
      (r₁.slot (slotOf n r₁.base j)).body = (r.slot (slotOf n (seqAt r.base d) j)).body := by
    rw [h.base, slotOf_seqAt]
    exact h.awaited (d + j) (Nat.le_add_right d j) (by omega)
  have hapart : Apart n r₁.base 0 k := by
    rw [h.base]
    exact (ha.rest d).mono le_rfl (by omega)
  refine ⟨by omega, hwk, hk.base.trans hbase, hk.next.trans h.next, hk.channel.trans h.channel, ?_,
    ?_, fun j hj hjw => ?_⟩
  · rw [hk.acked, h.acked, satAdd_satAdd]
    split_ifs with h0
    · rfl
    · rw [Nat.eq_zero_of_not_pos h0, Nat.add_zero]
  · have hbytes : r₁.bytesFrom r₁.base k = r.bytesFrom (seqAt r.base d) k := by
      refine Finset.sum_congr rfl fun j hj => ?_
      rw [(hawait j (Finset.mem_range.mp hj)).2]
    have hmost : r₁.bytesAcked ≤ 2 ^ 64 - 1 := by
      rw [h.bytesAcked]
      exact satAdd_le _ _ _
    rw [hk.bytesAcked, bytesAcked_accountLoop hk.lt r₁ hmost hapart fun j hj => (hawait j hj).1,
      hbytes, h.bytesAcked, satAdd_satAdd, bytesFrom_add]
  · obtain ⟨⟨hsent, hacc⟩, hbody⟩ := h.awaited j (by omega) hjw
    unfold Awaited
    rw [hk.slot]
    refine ⟨⟨hsent, ?_⟩, hbody⟩
    -- what is still in flight is in none of the slots accounted for
    have hnone : ¬∃ i < k, slotOf n r.base j = slotIndex n (r₁.base + ofNat i) := by
      rintro ⟨i, hi, heq⟩
      rw [h.base, seqAt_add] at heq
      have := ha j (d + i) (Nat.zero_le _) hjw (Nat.zero_le _) (by omega) heq
      omega
    simp [accounted, hacc, hnone]

theorem foldl_max_spec (l : List ℕ) (d : ℕ) :
    (l.foldl max d = d ∨ l.foldl max d ∈ l) ∧ ∀ e ∈ d :: l, e ≤ l.foldl max d := by
  induction l generalizing d with
  | nil => simp
  | cons a l ih =>
    obtain ⟨hmem, hle⟩ := ih (max d a)
    have hda := hle (max d a) mem_cons_self
    refine ⟨?_, fun e he => ?_⟩
    · rcases hmem with hmem | hmem
      · rcases max_choice d a with hd | hd
        · exact .inl (hmem.trans hd)
        · exact .inr (mem_cons.mpr (.inl (hmem.trans hd)))
      · exact .inr (mem_cons_of_mem a hmem)
    · rcases mem_cons.mp he with rfl | he
      · exact (le_max_left e a).trans hda
      · rcases mem_cons.mp he with rfl | he
        · exact (le_max_right d e).trans hda
        · exact hle e (mem_cons_of_mem _ he)

def furthest (r : SendRing n F) (acks : List (Ack × F)) : ℕ :=
  (acks.map fun a => (a.1.cumulative r.channel - r.base).toNat).foldl max 0

variable {acks : List (Ack × F)}

theorem Settled.onAcks {r₁ : SendRing n F} {w d : ℕ} (h : Settled r w d r₁)
    (hw : w = (r.next - r.base).toNat) (ha : Apart n r.base 0 w)
    (hr : ∀ a ∈ acks, Reports r (a.1.cumulative r.channel - r.base).toNat a.1) :
    Settled r w ((acks.map fun a => (a.1.cumulative r.channel - r.base).toNat).foldl max d)
      (r₁.onAcks acks) := by
  induction acks generalizing r₁ d with
  | nil => exact h
  | cons a acks ih =>
    exact ih (h.onAck hw ha (hr a mem_cons_self) a.2) fun b hb =>
      hr b (mem_cons_of_mem a hb)

theorem Settled.base_max {r' : SendRing n F} {w : ℕ}
    (h : Settled r w (r.furthest acks) r')
    (hr : ∀ a ∈ acks, Reports r (a.1.cumulative r.channel - r.base).toNat a.1) :
    (r'.base = r.base ∨ ∃ a ∈ acks, r'.base = a.1.cumulative r.channel) ∧
      ge r'.base r.base = true ∧
      ∀ a ∈ acks, ge r'.base (a.1.cumulative r.channel) = true := by
  obtain ⟨hmem, hle⟩ := foldl_max_spec
    (acks.map fun a => (a.1.cumulative r.channel - r.base).toNat) 0
  have hlt := h.lt
  have hge (e : ℕ) (he : e ≤ r.furthest acks) : ge r'.base (seqAt r.base e) = true := by
    rw [h.base, ge_eq, Serial.sge, decide_eq_true_iff, toNat_seqAt_sub he (by omega)]
    omega
  refine ⟨?_, ?_, fun a ha => ?_⟩
  · rw [h.base]
    rcases hmem with hmem | hmem
    · exact .inl ((congrArg (seqAt r.base) hmem).trans (seqAt_zero r.base))
    · obtain ⟨a, ha, hd⟩ := mem_map.mp hmem
      exact .inr ⟨a, ha, (congrArg (seqAt r.base) hd.symm).trans (hr a ha).value.symm⟩
  · have hzero := hge 0 (Nat.zero_le _)
    rwa [seqAt_zero] at hzero
  · rw [(hr a ha).value]
    exact hge _ (hle _ (mem_cons_of_mem _ (mem_map_of_mem ha)))

/-! ## Runs -/

/-- **The condition.** A message that is queued leaves no two fragments in flight in one slot. -/
def KeepsApart (r : SendRing n F) : Use F → Prop
  | .enqueue message =>
    let count := fragmentCount message.totalLen r.fragmentCapacity
    count ≤ r.windowFree → ∀ i < r.inFlight.toNat + count, ∀ j < r.inFlight.toNat + count,
      slotIndex n (r.base + ofNat i) = slotIndex n (r.base + ofNat j) → i = j
  | _ => True

instance (r : SendRing n F) : (u : Use F) → Decidable (r.KeepsApart u)
  | .enqueue _ => inferInstanceAs (Decidable (_ → _))
  | .beginPass | .pollSend _ | .onAck _ _ | .setFragmentCapacity _ | .discardPending =>
    .isTrue trivial

/-- Fragments in flight have slots of their own and are not accounted for. -/
structure Counted (r : SendRing n F) : Prop where
  sized : Sized r
  stands : ∃ b c x, Stands r b c x
  apart : Apart n r.base 0 (r.next - r.base).toNat
  unaccounted : ∀ j < (r.next - r.base).toNat, (r.slot (slotOf n r.base j)).ackedAccounted = false
  acked : r.acked ≤ 2 ^ 64 - 1
  bytesAcked : r.bytesAcked ≤ 2 ^ 64 - 1

section Step

variable {r : SendRing n F}

theorem Counted.congr {r' : SendRing n F} (h : Counted r) (hsized : Sized r')
    (hstands : ∃ b c x, Stands r' b c x) (hb : r'.base = r.base) (hn : r'.next = r.next)
    (ha : r'.acked = r.acked) (hba : r'.bytesAcked = r.bytesAcked)
    (hslot : ∀ i, (r'.slot i).ackedAccounted = (r.slot i).ackedAccounted) : Counted r' := by
  refine ⟨hsized, hstands, ?_, fun j hj => ?_, ha.trans_le h.acked, hba.trans_le h.bytesAcked⟩
  · rw [hb, hn]
    exact h.apart
  · rw [hb, hn] at hj
    rw [hb, hslot]
    exact h.unaccounted j hj

theorem Counted.enqueue (h : Counted r) {m : Message} (hok : r.KeepsApart (.enqueue m)) :
    Counted (Use.run r (.enqueue m)) := by
  have hsized := h.sized.run (.enqueue m)
  obtain ⟨b, c, x, hst⟩ := h.stands
  rcases enqueue_cases h.sized m with ⟨-, he⟩ | ⟨hle, slot, hq, he⟩
  · simp only [Use.run, he]
    exact h
  · simp only [Use.run, he] at hsized ⊢
    have hst' := hst.queued hle slot
    have hflight := hst.toNat_inFlight
    have hflight' : (r.next + ofNat (fragmentCount m.totalLen r.fragmentCapacity) -
        r.base).toNat = (r.next - r.base).toNat + fragmentCount m.totalLen r.fragmentCapacity := by
      have h1 := hst.base_le
      have h2 := hst.cursor_le
      rw [hst'.toNat_inFlight, hflight]
      omega
    refine ⟨hsized, ⟨b, c, _, hst'⟩, ?_, fun j hj => ?_, h.acked, h.bytesAcked⟩
    · rw [hflight']
      exact fun p q _ hp _ hq heq => hok hle p hp q hq heq
    · rw [hflight'] at hj
      rcases hq (slotOf n r.base j) with ⟨hi, hne⟩ | ⟨i, -, -, body, last, hi, -⟩
      · simp only [hi]
        refine h.unaccounted j (Nat.lt_of_not_le fun hle => ?_)
        exact hne (j - (r.next - r.base).toNat) (by omega)
          (congrArg (slotIndex n) (add_ofNat_sub hle).symm)
      · simp only [hi]
        rfl

theorem Counted.pollSend (h : Counted r) (p : Poll F) : Counted (Use.run r (.pollSend p)) := by
  obtain ⟨b, c, x, hst⟩ := h.stands
  have hsized := h.sized.run (.pollSend p)
  have hstands := hst.run h.sized (.pollSend p)
  have hscan : Scanned r p.nowMs p.srttMs (level F p.levelIndex) (r.polled p) :=
    r.scanned_pollSend p.nowMs p.srttMs p.levelIndex p.outLen
  simp only [Use.run] at hsized hstands ⊢
  generalize r.polled p = out at hscan hsized hstands
  cases hscan with
  | ended ho | refused hj ho => exact h.congr hsized hstands rfl rfl rfl rfl fun _ => rfl
  | @emits j outstanding stale hj ho hcap hocc =>
    obtain ⟨stale', ht⟩ := (r.scanned (r.cursor + ofNat j) outstanding stale).transmit_eq
      p.nowMs p.srttMs (level F p.levelIndex)
    simp only [ht] at hsized hstands ⊢
    refine h.congr hsized hstands rfl rfl rfl rfl fun i => ?_
    simp only [Function.update_apply]
    split_ifs with hi
    · rw [hi]
      unfold SendSlot.transmitted
      split_ifs <;> rfl
    · rfl

theorem Counted.onAck (h : Counted r) (ack : Ack) (nowMs : F) :
    Counted (Use.run r (.onAck ack nowMs)) := by
  obtain ⟨b, c, x, hst⟩ := h.stands
  have hsized := h.sized.run (.onAck ack nowMs)
  have hstands := hst.run h.sized (.onAck ack nowMs)
  obtain ⟨k, hk⟩ := r.acked_onAck ack nowMs
  simp only [Use.run] at hsized hstands ⊢
  obtain ⟨c', hst', -⟩ := hst.acked hk
  have hle := hk.le
  have hflight : ((r.onAck ack nowMs).1.next - (r.onAck ack nowMs).1.base).toNat =
      (r.next - r.base).toNat - k := by
    rw [hst'.toNat_inFlight, hst.toNat_inFlight]
    omega
  have hbase : (r.onAck ack nowMs).1.base = seqAt r.base k := hk.base
  refine ⟨hsized, hstands, ?_, fun j hj => ?_, ?_, ?_⟩
  · rw [hflight, hbase]
    exact h.apart.rest k
  · rw [hflight] at hj
    rw [hbase, slotOf_seqAt, hk.slot]
    have hnone : ¬∃ i < k, slotOf n r.base (k + j) = slotIndex n (r.base + ofNat i) := by
      rintro ⟨i, hi, heq⟩
      have := h.apart (k + j) i (Nat.zero_le _) (by omega) (Nat.zero_le _) (by omega) heq
      omega
    simp [accounted, h.unaccounted (k + j) (by omega), hnone]
  · rw [hk.acked]
    split_ifs
    · exact satAdd_le _ _ _
    · exact h.acked
  · rw [hk.bytesAcked]
    exact bytesAcked_accountLoop_le _ _ _ h.bytesAcked

theorem Counted.run (h : Counted r) {u : Use F} (hok : r.KeepsApart u) : Counted (u.run r) := by
  obtain ⟨b, c, x, hst⟩ := h.stands
  cases u with
  | enqueue m => exact h.enqueue hok
  | beginPass =>
    exact h.congr (h.sized.run .beginPass) (hst.run h.sized .beginPass) rfl rfl rfl rfl fun _ => rfl
  | pollSend p => exact h.pollSend p
  | onAck ack nowMs => exact h.onAck ack nowMs
  | setFragmentCapacity capacity =>
    have hsized := h.sized.run (.setFragmentCapacity capacity)
    have hstands := hst.run h.sized (.setFragmentCapacity capacity)
    simp only [Use.run, SendRing.setFragmentCapacity] at hsized hstands ⊢
    split at hsized
    · next hcan =>
      rw [if_pos hcan] at hstands ⊢
      exact h.congr hsized hstands rfl rfl rfl rfl fun _ => rfl
    · next hcan =>
      rw [if_neg hcan]
      exact h
  | discardPending =>
    have hzero : (r.discardPending.1.next - r.discardPending.1.base).toNat = 0 := by
      show (r.next - r.next).toNat = 0
      rw [sub_self]
      rfl
    refine ⟨h.sized.congr rfl rfl, ⟨x, x, x, hst.discardPending⟩, ?_, fun j hj => ?_, h.acked,
      h.bytesAcked⟩
    · intro p q _ hp
      simp only [Use.run] at hp
      omega
    · simp only [Use.run] at hj
      omega

end Step

theorem Counted.fresh {storageLen fragmentCapacity : ℕ} {channel : Channel}
    (hs : Sized (fresh storageLen fragmentCapacity channel : SendRing n F)) :
    Counted (fresh storageLen fragmentCapacity channel : SendRing n F) := by
  refine ⟨hs, ⟨0, 0, 0, .fresh _ _ _⟩, fun p q _ hp => ?_, fun _ _ => rfl, Nat.zero_le _,
    Nat.zero_le _⟩
  simp [SendRing.fresh] at hp

/-! ## The counters -/

/-- **The counters do not depend on the order of acknowledgements**, in a run that keeps fragments
in flight apart, once all have been sent. -/
theorem acks_any_order {bodiesLen storageLen fragmentCapacity : ℕ} {channel : Channel}
    {r₀ r : SendRing n F}
    (hnew : newWithCapacity n bodiesLen storageLen fragmentCapacity channel = .ok r₀)
    (h : (uses r₀).ReachVia KeepsApart r)
    (hsent : ∀ j < r.inFlight.toNat, (r.slot (slotOf n r.base j)).sent = true)
    {acks acks' : List (Ack × F)} (hperm : acks'.Perm acks)
    (hacks : ∀ a ∈ acks, r.channel.val < a.1.reported ∧
      ge (a.1.cumulative r.channel) r.base = true ∧
      le (a.1.cumulative r.channel) r.next = true) :
    let r' := r.onAcks acks
    let moved := (r'.base - r.base).toNat
    ((r.onAcks acks').base = r'.base ∧ (r.onAcks acks').acked = r'.acked ∧
      (r.onAcks acks').bytesAcked = r'.bytesAcked) ∧
    ((r'.base = r.base ∨ ∃ a ∈ acks, r'.base = a.1.cumulative r.channel) ∧
      ge r'.base r.base = true ∧
      ∀ a ∈ acks, ge r'.base (a.1.cumulative r.channel) = true) ∧
    r'.acked = satAdd 64 r.acked moved ∧
    r'.bytesAcked = satAdd 64 r.bytesAcked (r.bytesFrom r.base moved) := by
  have hc : Counted r := by
    refine h.invariant (I := Counted) ?_ ?_
    · have hsized := Sized.new hnew
      unfold newWithCapacity at hnew
      split_ifs at hnew
      cases hnew
      exact .fresh hsized
    · rintro s u s' hs hok hstep
      cases hstep
      exact hs.run hok
  have hr (a : Ack × F) (ha : a ∈ acks) :
      Reports r (a.1.cumulative r.channel - r.base).toNat a.1 := by
    obtain ⟨h1, h2, h3⟩ := hacks a ha
    exact .of_between h1 h2 h3
  have hstart : Settled r (r.next - r.base).toNat 0 r :=
    ⟨by omega, Nat.zero_le _, (seqAt_zero _).symm, rfl, rfl, (satAdd_zero hc.acked).symm,
      (satAdd_zero hc.bytesAcked).symm,
      fun j _ hj => ⟨⟨hsent j hj, hc.unaccounted j hj⟩, rfl⟩⟩
  have hone : Settled r _ (r.furthest acks) (r.onAcks acks) := hstart.onAcks rfl hc.apart hr
  have hother : Settled r _ (r.furthest acks') (r.onAcks acks') :=
    hstart.onAcks rfl hc.apart fun a ha => hr a (hperm.subset ha)
  rw [show r.furthest acks' = r.furthest acks from (hperm.map _).foldl_eq 0] at hother
  have hmoved : ((r.onAcks acks).base - r.base).toNat = r.furthest acks := by
    have hlt := hone.lt
    rw [hone.base, seqAt_sub_start, Serial.toNat_ofNat_lt (by omega)]
  intro r' moved
  refine ⟨⟨?_, ?_, ?_⟩, hone.base_max hr, ?_, ?_⟩
  · rw [hother.base, hone.base]
  · rw [hother.acked, hone.acked]
  · rw [hother.bytesAcked, hone.bytesAcked]
  · show (r.onAcks acks).acked = satAdd 64 r.acked ((r.onAcks acks).base - r.base).toNat
    rw [hmoved, hone.acked]
  · show (r.onAcks acks).bytesAcked =
      satAdd 64 r.bytesAcked (r.bytesFrom r.base ((r.onAcks acks).base - r.base).toNat)
    rw [hmoved, hone.bytesAcked]

/-- The acknowledgement of everything below `k` on channel one, which names `trigger`. -/
def ackTo (k trigger : UInt32) : Ack := ⟨.ack, false, 1, trigger, fun _ => k, CHANNEL_COUNT⟩

/-- Three fragments of four bytes are sent; the acknowledgement of the second overtakes that of the
first. -/
theorem acks_any_order_overtaken : ∃ r : SendRing 4 ℚ,
    (uses (fresh 4 4 1)).ReachVia KeepsApart r ∧
      (r.onAcks [(ackTo 2 1, 0), (ackTo 1 0, 0)]).bytesAcked = 8 ∧
      (r.onAcks [(ackTo 2 1, 0), (ackTo 1 0, 0)]).bytesAcked =
        (r.onAcks [(ackTo 1 0, 0), (ackTo 2 1, 0)]).bytesAcked := by
  obtain ⟨r, hr, hsent, hacks, h8⟩ := Machine.exists_reachVia
    (M := uses (fresh 4 4 1 : SendRing 4 ℚ)) KeepsApart
    [.enqueue ⟨[], [1, 2, 3, 4, 5, 6, 7, 8], by decide⟩, .beginPass, .pollSend ⟨0, 0, 1, 64⟩,
      .pollSend ⟨0, 0, 1, 64⟩, .pollSend ⟨0, 0, 1, 64⟩]
    (fun r => (∀ j < r.inFlight.toNat, (r.slot (slotOf 4 r.base j)).sent = true) ∧
      (∀ a ∈ [(ackTo 1 0, (0 : ℚ)), (ackTo 2 1, 0)], r.channel.val < a.1.reported ∧
        ge (a.1.cumulative r.channel) r.base = true ∧
        le (a.1.cumulative r.channel) r.next = true) ∧
      (r.onAcks [(ackTo 2 1, 0), (ackTo 1 0, 0)]).bytesAcked = 8) (by decide +kernel)
  have hnew : newWithCapacity 4 16 4 4 1 = .ok (fresh 4 4 1 : SendRing 4 ℚ) := rfl
  exact ⟨r, hr, h8, (acks_any_order hnew hr hsent (.swap _ _ _) hacks).1.2.2⟩

/-! ## Two fragments in one slot -/

def idleAt (s : UInt32) : SendRing n F := { fresh 4 4 1 with base := s, next := s, cursor := s }

theorem reach_idleAt (k : ℕ) : (uses (fresh 4 4 1 : SendRing n F)).Reach (idleAt (ofNat k)) := by
  induction k with
  | zero => exact .start
  | succ k ih =>
    have hsized : Sized (idleAt (ofNat k) : SendRing n F) :=
      ⟨Nat.succ_pos 3, le_rfl, show 4 ≤ 2 ^ 16 - 1 by decide⟩
    have hone : fragmentCount Message.empty.totalLen
        (idleAt (ofNat k) : SendRing n F).fragmentCapacity = 1 :=
      show fragmentCount Message.empty.totalLen 4 = 1 by decide
    have hfree : 1 ≤ (idleAt (ofNat k) : SendRing n F).windowFree := by
      have := NeZero.pos n
      simp only [windowFree, inFlight, idleAt, sub_self, UInt32.toNat_zero]
      omega
    rcases enqueue_cases hsized .empty with ⟨hlt, -⟩ | ⟨-, slot, -, he⟩
    · rw [hone] at hlt
      exact absurd hlt (Nat.not_lt.mpr hfree)
    · rw [hone] at he
      refine .step (a := .discardPending) (.step (a := .enqueue .empty) ih trivial rfl) trivial ?_
      simp only [uses, Use.run, he]
      rw [← Serial.ofNat_add k 1]
      rfl

/-- Five fragments of four bytes queued across the wrap of a ring of six slots, where the last shares
the slot of the first. Three go out, and everything below the last is acknowledged. -/
def acrossTheWrap : List (Use ℚ) :=
  [.enqueue ⟨[], List.replicate 16 0, by decide⟩, .beginPass, .pollSend ⟨0, 0, 1, 64⟩,
    .pollSend ⟨0, 0, 1, 64⟩, .pollSend ⟨0, 0, 1, 64⟩, .onAck (ackTo 0 0) 0]

/-- **Two fragments in one slot count once.** What is in flight has been sent, its acknowledgement
moves the base over four bytes, and none is counted. -/
theorem wrapped_uncounted : ∃ r : SendRing 6 ℚ, (uses (fresh 4 4 1)).Reach r ∧
    (∀ j < r.inFlight.toNat, (r.slot (slotOf 6 r.base j)).sent = true) ∧
    gt 1 r.base = true ∧ le 1 r.next = true ∧
    (r.onAcks [(ackTo 1 0, 0)]).base = 1 ∧ r.bytesFrom r.base 1 = 4 ∧
    (r.onAcks [(ackTo 1 0, 0)]).bytesAcked = r.bytesAcked :=
  (reach_idleAt (2 ^ 32 - 4)).exists_run acrossTheWrap _ (by decide +kernel)

end SendRing

end OpenStream.Lowlat
