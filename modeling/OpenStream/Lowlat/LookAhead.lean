import OpenStream.Lowlat.SendRuns

/-!
# The look-ahead of the pacer and the scan

Before it lets a fragment go, the session asks a ring how long the next one is. The answer is read
off a copy of the scan that changes nothing. The scan itself counts a fragment that waits for a
retransmission against the cap whether or not it is due; the copy does not.

* **`SendRing.look_ahead`**: the two agree exactly where the scan is below the cap at the first
  fragment due. **`SendRing.looks_too_far`**: a fragment announced and not emitted.
-/

namespace OpenStream.Lowlat

open Bytes Runs

set_option linter.unusedSectionVars false

variable {n : ℕ} [NeZero n] {F : Type} [F64 F]

namespace SendRing

/-! ## The first fragment due -/

/-- The first fragment due from `cursor` on, and how many are outstanding when a scan gets there. -/
def firstDue (r : SendRing n F) (nowMs srttMs : F) : ℕ → UInt32 → ℕ → Option (UInt32 × ℕ)
  | 0, _, _ => none
  | k + 1, cursor, outstanding =>
    let s := r.slot (slotIndex n cursor)
    if !s.occupied then firstDue r nowMs srttMs k (cursor + 1) outstanding
    else if r.due cursor s nowMs srttMs then some (cursor, outstanding)
    else firstDue r nowMs srttMs k (cursor + 1)
      (if s.retransmitting then outstanding + 1 else outstanding)

/-- **The condition.** Unless the cap is reached already, a scan is still below it at the first
fragment due, and that fragment does not have the sequence number the encoder refuses. -/
def Unhindered (r : SendRing n F) (nowMs srttMs : F) : Prop :=
  r.outstanding < OUTSTANDING_CAP →
    ∀ x ∈ r.firstDue nowMs srttMs (r.next - r.cursor).toNat r.cursor r.outstanding,
      x.1 ≠ SEQ_MAX ∧ x.2 < OUTSTANDING_CAP

instance (r : SendRing n F) (nowMs srttMs : F) : Decidable (r.Unhindered nowMs srttMs) :=
  inferInstanceAs (Decidable (_ → ∀ x ∈ (_ : Option (UInt32 × ℕ)), _ ∧ _))

section

variable {r r' : SendRing n F} {nowMs srttMs : F}

theorem firstDue_congr (hs : r'.slot = r.slot) (hn : r'.nackBelow = r.nackBelow) :
    ∀ (k : ℕ) (cursor : UInt32) (outstanding : ℕ),
      r'.firstDue nowMs srttMs k cursor outstanding = r.firstDue nowMs srttMs k cursor outstanding
  | 0, _, _ => rfl
  | k + 1, cursor, outstanding => by
    have hdue (s : SendSlot F) : r'.due cursor s nowMs srttMs = r.due cursor s nowMs srttMs := by
      simp only [due, nacked, hn]
      rfl
    simp [firstDue, hs, hdue, firstDue_congr hs hn k]

theorem le_of_firstDue {q : UInt32} {m : ℕ} : ∀ (k : ℕ) (cursor : UInt32) (outstanding : ℕ),
    r.firstDue nowMs srttMs k cursor outstanding = some (q, m) → outstanding ≤ m
  | 0, _, _, h => by cases h
  | k + 1, cursor, outstanding, h => by
    simp only [firstDue] at h
    split at h
    · exact le_of_firstDue k _ _ h
    split at h
    · cases h
      exact le_rfl
    · have := le_of_firstDue k _ _ h
      split_ifs at this <;> omega

theorem firstDue_fst : ∀ (k : ℕ) (cursor : UInt32) (outstanding outstanding' : ℕ),
    (r.firstDue nowMs srttMs k cursor outstanding).map Prod.fst =
      (r.firstDue nowMs srttMs k cursor outstanding').map Prod.fst
  | 0, _, _, _ => rfl
  | k + 1, cursor, outstanding, outstanding' => by
    simp only [firstDue]
    split_ifs
    · exact firstDue_fst k _ _ _
    · rfl
    · exact firstDue_fst k _ _ _
    · exact firstDue_fst k _ _ _

theorem firstDue_eq_none (k : ℕ) (cursor : UInt32) {outstanding : ℕ} (outstanding' : ℕ)
    (h : r.firstDue nowMs srttMs k cursor outstanding = none) :
    r.firstDue nowMs srttMs k cursor outstanding' = none := by
  have hfst := @firstDue_fst n _ F _ r nowMs srttMs k cursor outstanding' outstanding
  rwa [h, Option.map_none, Option.map_eq_none_iff] at hfst

/-! ## The copy -/

theorem dueLoop_eq (hcap : r.outstanding < OUTSTANDING_CAP) : ∀ (k : ℕ) (cursor : UInt32) (m : ℕ),
    (r.next - cursor).toNat = k →
      r.dueLoop nowMs srttMs k cursor = (r.firstDue nowMs srttMs k cursor m).map fun x =>
        HEADER_LEN + (r.slot (slotIndex n x.1)).body.length
  | 0, _, _, _ => rfl
  | k + 1, cursor, m, hk => by
    simp only [dueLoop, firstDue]
    rw [if_neg (ne_next hk), if_neg (Nat.not_le.mpr hcap)]
    split
    · exact dueLoop_eq hcap k _ _ (toNat_next_sub hk)
    split
    · rfl
    · exact dueLoop_eq hcap k _ _ (toNat_next_sub hk)

theorem dueLoop_of_cap (hcap : OUTSTANDING_CAP ≤ r.outstanding) : ∀ (k : ℕ) (cursor : UInt32),
    r.dueLoop nowMs srttMs k cursor = none
  | 0, _ => rfl
  | k + 1, cursor => by
    simp only [dueLoop]
    split_ifs
    · rfl
    · exact dueLoop_of_cap hcap k _
    · rfl

/-! ## The scan -/

theorem firstDue_scanned (cursor : UInt32) (outstanding stale : ℕ) (k : ℕ) (q : UInt32) (m : ℕ) :
    (r.scanned cursor outstanding stale).firstDue nowMs srttMs k q m =
      r.firstDue nowMs srttMs k q m :=
  @firstDue_congr n _ F _ r (r.scanned cursor outstanding stale) nowMs srttMs rfl rfl k q m

variable (lv : Level F) (outLen : ℕ)

theorem pollLoop_of_cap : ∀ (k : ℕ) {r : SendRing n F}, (r.next - r.cursor).toNat = k →
    OUTSTANDING_CAP ≤ r.outstanding → (pollLoop nowMs srttMs lv outLen k r).2 = none
  | 0, _, _, _ => rfl
  | k + 1, r, hk, hcap => by
    obtain ⟨outstanding, stale, hp, ho, -⟩ := pollLoop_passes nowMs srttMs lv outLen
      (k := k) (ne_next hk) fun _ hlt => absurd hcap (Nat.not_le.mpr hlt)
    rw [hp]
    refine pollLoop_of_cap k (toNat_next_sub hk) ?_
    show OUTSTANDING_CAP ≤ outstanding
    rw [ho hcap]
    exact hcap

theorem pollLoop_of_none : ∀ (k : ℕ) {r : SendRing n F} (m : ℕ), (r.next - r.cursor).toNat = k →
    r.firstDue nowMs srttMs k r.cursor m = none → (pollLoop nowMs srttMs lv outLen k r).2 = none
  | 0, _, _, _, _ => rfl
  | k + 1, r, m, hk, hnone => by
    simp only [firstDue] at hnone
    obtain ⟨outstanding, stale, hp, -⟩ := pollLoop_passes nowMs srttMs lv outLen
      (k := k) (ne_next hk) fun hocc _ => by
        rw [hocc, Bool.not_true, if_neg (by simp)] at hnone
        split at hnone
        · cases hnone
        · next hdue => exact Bool.eq_false_of_not_eq_true hdue
    rw [hp]
    have hrest : r.firstDue nowMs srttMs k (r.cursor + 1) m = none := by
      split at hnone
      · exact hnone
      split at hnone
      · cases hnone
      · exact firstDue_eq_none k _ m hnone
    refine pollLoop_of_none k m (toNat_next_sub hk) ?_
    rw [firstDue_scanned]
    exact hrest

/-- What becomes of the first fragment due: it is encoded, unless the scan is at the cap by then. -/
theorem pollLoop_of_some {q : UInt32} {m : ℕ} :
    ∀ (k : ℕ) {r : SendRing n F}, (r.next - r.cursor).toNat = k →
      r.firstDue nowMs srttMs k r.cursor r.outstanding = some (q, m) →
        (pollLoop nowMs srttMs lv outLen k r).2 =
          if m < OUTSTANDING_CAP then
            some ((encodeData outLen (packetAt { r with cursor := q })).map fun _ =>
              packetAt { r with cursor := q })
          else none
  | 0, _, _, h => by cases h
  | k + 1, r, hk, h => by
    have hle := le_of_firstDue _ _ _ h
    by_cases hcap : OUTSTANDING_CAP ≤ r.outstanding
    · rw [if_neg (Nat.not_lt.mpr (hcap.trans hle))]
      exact pollLoop_of_cap lv outLen _ hk hcap
    rw [Nat.not_le] at hcap
    simp only [firstDue] at h
    by_cases hemit : (r.slot (slotIndex n r.cursor)).occupied = true ∧
        r.due r.cursor (r.slot (slotIndex n r.cursor)) nowMs srttMs = true
    · obtain ⟨hocc, hdue⟩ := hemit
      simp only [hocc, hdue, Bool.not_true, Bool.false_eq_true, if_false, if_true] at h
      cases h
      simp only [pollLoop]
      rw [if_neg (ne_next hk), hocc, hdue, if_neg (by simp), if_neg (Nat.not_le.mpr hcap),
        if_neg (by simp), if_pos hcap]
      cases encodeData outLen r.packetAt <;> rfl
    · obtain ⟨outstanding, stale, hp, -, ho⟩ := pollLoop_passes nowMs srttMs lv outLen
        (k := k) (ne_next hk) fun hocc _ =>
          Bool.eq_false_of_not_eq_true fun hdue => hemit ⟨hocc, hdue⟩
      have hrest : r.firstDue nowMs srttMs k (r.cursor + 1) outstanding = some (q, m) := by
        rw [ho hcap]
        cases hocc : (r.slot (slotIndex n r.cursor)).occupied with
        | false =>
          simp only [hocc, Bool.not_false, if_true] at h
          simpa using h
        | true =>
          have hdue := Bool.eq_false_of_not_eq_true fun hdue => hemit ⟨hocc, hdue⟩
          simp only [hocc, hdue, Bool.not_true, Bool.false_eq_true, if_false] at h
          simpa using h
      rw [hp]
      refine pollLoop_of_some k (r := r.scanned (r.cursor + 1) outstanding stale)
        (toNat_next_sub hk) ?_
      rw [firstDue_scanned]
      exact hrest

end

/-! ## Agreement -/

/-- **The look-ahead agrees with the scan exactly where the scan is unhindered**, for a buffer that
takes every fragment held: one announces what the other emits, and one announces nothing when the
other emits nothing. -/
theorem look_ahead (r : SendRing n F) (nowMs srttMs : F) (levelIndex outLen : ℕ)
    (hout : ∀ i, HEADER_LEN + (r.slot i).body.length ≤ outLen) :
    ((∀ len, r.nextDueLen nowMs srttMs = some len ↔
        ∃ d, (r.pollSend nowMs srttMs levelIndex outLen).2 = some (.ok d) ∧
          encodeData outLen d = .ok len) ∧
      (r.nextDueLen nowMs srttMs = none ↔
        (r.pollSend nowMs srttMs levelIndex outLen).2 = none)) ↔ r.Unhindered nowMs srttMs := by
  refine ⟨?_, fun hfree => ?_⟩
  · rintro ⟨hsome, -⟩ hcap ⟨q, m⟩ hdue
    have hlook := @dueLoop_eq n _ F _ r nowMs srttMs hcap _ r.cursor r.outstanding rfl
    rw [hdue] at hlook
    -- what is announced is emitted, so the scan reached it and encoded it
    obtain ⟨d, hd, -⟩ := (hsome _).mp hlook
    have hscan := pollLoop_of_some (level F levelIndex) outLen _ rfl hdue
    change (r.pollSend nowMs srttMs levelIndex outLen).2 = _ at hscan
    rw [hd] at hscan
    split_ifs at hscan with hm
    refine ⟨fun hq => ?_, hm⟩
    have hrefused : encodeData outLen (packetAt { r with cursor := q }) = .error .malformed :=
      if_pos hq
    rw [hrefused] at hscan
    cases hscan
  have key : (r.nextDueLen nowMs srttMs = none ∧
        (r.pollSend nowMs srttMs levelIndex outLen).2 = none) ∨
      ∃ d len, r.nextDueLen nowMs srttMs = some len ∧ encodeData outLen d = .ok len ∧
        (r.pollSend nowMs srttMs levelIndex outLen).2 = some (.ok d) := by
    by_cases hcap : r.outstanding < OUTSTANDING_CAP
    · have hlook := @dueLoop_eq n _ F _ r nowMs srttMs hcap _ r.cursor r.outstanding rfl
      cases hdue : r.firstDue nowMs srttMs (r.next - r.cursor).toNat r.cursor r.outstanding with
      | none =>
        rw [hdue, Option.map_none] at hlook
        exact .inl ⟨hlook, pollLoop_of_none _ outLen _ r.outstanding rfl hdue⟩
      | some x =>
        obtain ⟨q, m⟩ := x
        obtain ⟨hq, hm⟩ := hfree hcap (q, m) hdue
        have hscan := pollLoop_of_some (level F levelIndex) outLen _ rfl hdue
        have henc := encodeData_ok (d := packetAt { r with cursor := q }) hq (hout _)
        rw [hdue, Option.map_some] at hlook
        rw [henc, if_pos hm] at hscan
        exact .inr ⟨_, _, hlook, henc, hscan⟩
    · have hcap := Nat.le_of_not_lt hcap
      exact .inl ⟨dueLoop_of_cap hcap _ _, pollLoop_of_cap _ outLen _ rfl hcap⟩
  obtain ⟨h1, h2⟩ | ⟨d, len, h1, h2, h3⟩ := key
  · simp [h1, h2]
  · rw [h1, h3]
    refine ⟨fun len' => ⟨fun h => ⟨d, rfl, ?_⟩, ?_⟩, by simp⟩
    · rw [h2, Option.some.inj h]
    · rintro ⟨d', hd, he⟩
      cases hd
      rw [h2] at he
      cases he
      rfl

def zeros (k : ℕ) (h : k < 2 ^ 32) : Message := ⟨[], List.replicate k 0, by simpa using h⟩

def pollAt (nowMs : ℚ) : Call ℚ := .pollSend ⟨nowMs, 0, 1, 64⟩

/-- The second of two fragments, the first of them on its way. -/
theorem look_ahead_second : ∃ r : SendRing 4 ℚ,
    (sending (fresh 4 4 1)).Reach r ∧ r.Unhindered 0 0 ∧
      ((r.pollSend 0 0 1 64).2 = none ↔ r.nextDueLen 0 0 = none) := by
  obtain ⟨r, hr, hfree, hout⟩ := Machine.exists_reachVia
    (M := sending (fresh 4 4 1 : SendRing 4 ℚ)) (fun _ _ => True)
    [.enqueue (zeros 4 (by decide)), .beginPass, pollAt 0]
    (fun r => r.Unhindered 0 0 ∧ ∀ i, HEADER_LEN + (r.slot i).body.length ≤ 64) (by decide +kernel)
  exact ⟨r, hr, hfree, ((look_ahead r 0 0 1 64 hout).mpr hfree).2.symm⟩

def sentTwice : List (Call ℚ) :=
  [.enqueue (zeros 97 (by decide)), .beginPass] ++ List.replicate 100 (pollAt 0) ++
    [.beginPass] ++ List.replicate 100 (pollAt 100) ++ [.beginPass]

/-- **The look-ahead looks too far.** A hundred fragments have been sent twice, one has never been
sent, and a new pass begins: it is announced, and the scan ends without it. -/
theorem looks_too_far : ∃ r : SendRing 101 ℚ,
    (sending (fresh 1 1 1)).Reach r ∧ r.cursor ≠ SEQ_MAX ∧
      r.nextDueLen 100 0 = some (HEADER_LEN + 1) ∧ (r.pollSend 100 0 1 64).2.isNone = true := by
  exact Machine.exists_reachVia (M := sending (fresh 1 1 1 : SendRing 101 ℚ)) (fun _ _ => True)
    sentTwice (fun r => r.cursor ≠ SEQ_MAX ∧ r.nextDueLen 100 0 = some (HEADER_LEN + 1) ∧
      (r.pollSend 100 0 1 64).2.isNone = true) (by decide +kernel)

end SendRing

end OpenStream.Lowlat
