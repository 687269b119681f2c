import OpenStream.Lib.Runs
import OpenStream.Lowlat.Wrap

/-!
# Runs of the receive ring

What each call can do to a ring, in any state and across the wrap of the sequence numbers.

* **`RecvRing.escapes`**: when an escape takes a stalled reader where it is to go.
* **`RecvRing.stays_stalled`**: a reader that it leaves where it is.
-/

set_option linter.unusedSectionVars false

namespace OpenStream.Lowlat

open Bytes Runs Serial
open UInt32 (ofNat)

variable {n : ℕ} [NeZero n]

namespace RecvRing

variable {r : RecvRing n}

/-! ## The frontier -/

theorem advance_cases (r : RecvRing n) :
    ∃ k ≤ (r.highest - r.cumulative).toNat, r.advance = { r with cumulative := seqAt r.cumulative k } ∧
      (∀ j < k, (r.slot (slotOf n r.cumulative j)).ready = true) ∧
      (k = (r.highest - r.cumulative).toNat ∨
        (r.slot (slotOf n r.cumulative k)).ready = false) := by
  unfold advance
  generalize hk : (r.highest - r.cumulative).toNat = m
  induction m generalizing r with
  | zero => exact ⟨0, le_rfl, by rw [seqAt_zero]; rfl, by simp, .inl rfl⟩
  | succ m ih =>
    have hne : r.cumulative ≠ r.highest := by
      intro heq
      rw [heq, UInt32.sub_self] at hk
      cases hk
    have hzero : slotOf n r.cumulative 0 = slotIndex n r.cumulative :=
      congrArg (slotIndex n) (seqAt_zero _)
    simp only [advanceLoop]
    rw [if_neg hne]
    split
    · next hready =>
      have hlast : (r.highest - (r.cumulative + 1)).toNat = m := by
        have hsub : r.highest - (r.cumulative + 1) = r.highest - r.cumulative - 1 := by
          simp only [UInt32.sub_eq_add_neg, UInt32.neg_add]
          ac_rfl
        have hlt := (r.highest - r.cumulative).toNat_lt
        rw [hsub, toNat_sub, UInt32.toNat_one, hk, if_pos (by omega), Nat.add_sub_cancel]
      obtain ⟨k, hkm, hadv, hall, hend⟩ := ih { r with cumulative := r.cumulative + 1 } hlast
      have hone (j : ℕ) : slotOf n (r.cumulative + 1) j = slotOf n r.cumulative (j + 1) := by
        rw [Nat.add_comm j 1]
        exact slotOf_seqAt r.cumulative 1 j
      refine ⟨k + 1, by omega, ?_, fun j hj => ?_, ?_⟩
      · rw [hadv, Nat.add_comm k 1]
        exact congrArg (fun c => { r with cumulative := c }) (seqAt_add r.cumulative 1 k)
      · cases j with
        | zero => rw [hzero]; exact hready
        | succ j =>
          rw [← hone]
          exact hall j (by omega)
      · rw [← hone]
        exact hend.imp_left fun h => by omega
    · next hready =>
      refine ⟨0, Nat.zero_le _, by rw [seqAt_zero], by simp, .inr ?_⟩
      rw [hzero]
      exact Bool.eq_false_of_not_eq_true hready

/-! ## The reader -/

theorem takeMessage_cases (r : RecvRing n) (outLen : ℕ) :
    (r.takeMessage outLen).1 = r ∨
      ∃ k ≤ (r.cumulative - r.delivered).toNat, (r.takeMessage outLen).1 = r.release k := by
  unfold takeMessage
  split
  · exact .inl rfl
  split
  · exact .inl rfl
  split
  · exact .inl rfl
  simp only
  split
  · exact .inl rfl
  next collected fragments hcol =>
    have hle := collect_fragments_le r _ _ _ _ _ hcol
    split
    · exact .inl rfl
    split
    · exact .inl rfl
    split
    · exact .inl rfl
    · exact .inr ⟨fragments, by omega, rfl⟩

/-- A slot of the window holds a fragment. -/
def Occupied (r : RecvRing n) (j : ℕ) : Prop := (r.slotBody (seqAt r.delivered j)).isSome = true

/-- A slot of the window holds a fragment the reader can resume at. -/
def Resumes (r : RecvRing n) (resumable : Str → Bool) (j : ℕ) : Prop :=
  (r.slotBody (seqAt r.delivered j)).any resumable = true

/-- The last of the first `w` numbers with a property. -/
def Last (P : ℕ → Prop) (w : ℕ) : Option ℕ → Prop
  | none => ∀ j < w, ¬P j
  | some k => k < w ∧ P k ∧ ∀ j, k < j → j < w → ¬P j

theorem Last.yes {P : ℕ → Prop} {w : ℕ} (h : P w) : Last P (w + 1) (some w) :=
  ⟨Nat.lt_succ_self w, h, fun j h1 h2 => by omega⟩

theorem Last.no {P : ℕ → Prop} {w : ℕ} {o : Option ℕ} (ho : Last P w o) (h : ¬P w) :
    Last P (w + 1) o := by
  have hw (j : ℕ) (hj : j < w + 1) : j < w ∨ j = w := by omega
  cases o with
  | none =>
    intro j hj
    rcases hw j hj with hj | rfl
    · exact ho j hj
    · exact h
  | some k =>
    refine ⟨ho.1.trans (Nat.lt_succ_self w), ho.2.1, fun j h1 h2 => ?_⟩
    rcases hw j h2 with hj | rfl
    · exact ho.2.2 j h1 hj
    · exact h

theorem escapeScan_spec (r : RecvRing n) (resumable : Str → Bool) {k j w : ℕ}
    (hw : w = r.windowUsed.toNat) (hjk : j + k = w) {furthest best : Option ℕ}
    (hf : Last r.Occupied j furthest) (hb : Last (r.Resumes resumable) j best) :
    ∃ furthest' best', Last r.Occupied w furthest' ∧ Last (r.Resumes resumable) w best' ∧
      r.escapeScan resumable k (seqAt r.delivered j) (furthest.map (seqAt r.delivered))
        (best.map (seqAt r.delivered)) =
          (furthest'.map (seqAt r.delivered), best'.map (seqAt r.delivered)) := by
  induction k generalizing j furthest best with
  | zero =>
    obtain rfl : j = w := by omega
    exact ⟨furthest, best, hf, hb, rfl⟩
  | succ k ih =>
    have hend : seqAt r.delivered j ≠ r.highest := by
      have hlt := r.windowUsed.toNat_lt
      have hhigh : r.highest = seqAt r.delivered w := by
        rw [hw]
        exact (seqAt_toNat_sub r.delivered r.highest).symm
      rw [hhigh, Ne, seqAt_inj (by omega) (by omega)]
      omega
    simp only [escapeScan]
    rw [if_neg hend, seqAt_succ]
    cases hbody : r.slotBody (seqAt r.delivered j) with
    | none =>
      refine ih (by omega) (hf.no ?_) (hb.no ?_)
      · simp [Occupied, hbody]
      · simp [Resumes, hbody]
    | some body =>
      have hocc : r.Occupied j := by simp [Occupied, hbody]
      dsimp only
      cases hres : resumable body with
      | true =>
        refine ih (by omega) (.yes hocc) (.yes ?_)
        simp [Resumes, hbody, hres]
      | false =>
        refine ih (by omega) (.yes hocc) (hb.no ?_)
        simp [Resumes, hbody, hres]

/-- The ring after the reader jumps `k` slots ahead. -/
def jumped (r : RecvRing n) (k : ℕ) : RecvRing n :=
  { r.release k with
    cumulative := if Seq.lt r.cumulative (seqAt r.delivered k) then seqAt r.delivered k
      else r.cumulative }

/-- **What an escape does**: nothing where the scan's choice is the reader's own place, or so far
ahead that it compares as behind. -/
theorem escapeStall_cases (r : RecvRing n) (resumable : Str → Bool) :
    ∃ furthest best, Last r.Occupied r.windowUsed.toNat furthest ∧
      Last (r.Resumes resumable) r.windowUsed.toNat best ∧
      ((r.escapeStall resumable = (r, none) ∧
          (r.hasGap = true → ∀ k, best.or furthest = some k → k = 0 ∨ 2 ^ 31 < k)) ∨
        ∃ k, 0 < k ∧ k < r.windowUsed.toNat ∧ r.hasGap = true ∧ best.or furthest = some k ∧
          r.escapeStall resumable = ((r.jumped k).advance, some (seqAt r.delivered k))) := by
  have hnone (P : ℕ → Prop) : Last P 0 none := fun j hj => absurd hj (Nat.not_lt_zero j)
  obtain ⟨furthest, best, hf, hb, hscan⟩ :=
    r.escapeScan_spec resumable rfl (Nat.zero_add r.windowUsed.toNat) (hnone _) (hnone _)
  rw [seqAt_zero, Option.map_none] at hscan
  refine ⟨furthest, best, hf, hb, ?_⟩
  unfold escapeStall
  split
  · next hgap =>
    exact .inl ⟨rfl, fun h => absurd h (by simpa using hgap)⟩
  next hgap =>
    have hgap : r.hasGap = true := by simpa using hgap
    rw [show (r.highest - r.delivered).toNat = r.windowUsed.toNat from rfl, hscan]
    simp only
    rw [← Option.map_or]
    cases htarget : best.or furthest with
    | none => exact .inl ⟨rfl, fun _ _ h => by cases h⟩
    | some k =>
      have hk : k < r.windowUsed.toNat := by
        cases best with
        | none =>
          cases htarget
          exact hf.1
        | some b =>
          cases htarget
          exact hb.1
      have hlt := r.windowUsed.toNat_lt
      have hback : Seq.le (seqAt r.delivered k) r.delivered = true ↔ k = 0 ∨ 2 ^ 31 < k := by
        rw [Seq.le, Seq.ge_eq, sge, decide_eq_true_iff]
        rcases Nat.eq_zero_or_pos k with rfl | hpos
        · simp [seqAt_zero]
        · have hsub : r.delivered - seqAt r.delivered k = ofNat 0 - ofNat k := by
            rw [← seqAt_sub r.delivered, seqAt_zero]
          rw [hsub, toNat_sub_ofNat_of_lt hpos (by omega)]
          omega
      rw [Option.map_some]
      dsimp only
      split
      · next hle =>
        rw [hback] at hle
        exact .inl ⟨rfl, fun _ _ h => by cases h; exact hle⟩
      · next hle =>
        rw [hback] at hle
        have hskip : (seqAt r.delivered k - r.delivered).toNat = k := by
          rw [seqAt_sub_start, toNat_ofNat_lt (by omega)]
        refine .inr ⟨k, by omega, hk, hgap, rfl, ?_⟩
        rw [hskip, show (r.release k).cumulative = r.cumulative from rfl]
        unfold jumped
        split_ifs <;> rfl

/-! ## Runs -/

/-- The calls on a ring. -/
inductive Use
  | store (sequence : UInt32) (body : Str)
  | takeMessage (outLen : ℕ)
  | escapeStall (resumable : Str → Bool)
  | resetTo (start : UInt32)

/-- The ring after a call. -/
def Use.run (r : RecvRing n) : Use → RecvRing n
  | .store sequence body => (r.store sequence body).1
  | .takeMessage outLen => (r.takeMessage outLen).1
  | .escapeStall resumable => (r.escapeStall resumable).1
  | .resetTo start => r.resetTo start

def uses (r : RecvRing n) : Machine (RecvRing n) Use := ⟨r, fun s u => some (u.run s)⟩

/-! ## Escaping a stall -/

/-- The reader stands at the only fragment of the window it could resume at. -/
def Lured (r : RecvRing n) (resumable : Str → Bool) : Prop :=
  r.Resumes resumable 0 ∧ ∀ j, 0 < j → j < r.windowUsed.toNat → ¬r.Resumes resumable j

/-- Where the reader is to go: the last place past it that it can resume at or, where there is none,
the last that holds a fragment. -/
def Target (r : RecvRing n) (resumable : Str → Bool) (k : ℕ) : Prop :=
  0 < k ∧ k < r.windowUsed.toNat ∧
    ((r.Resumes resumable k ∧ ∀ j, k < j → j < r.windowUsed.toNat → ¬r.Resumes resumable j) ∨
      ((∀ j, 0 < j → j < r.windowUsed.toNat → ¬r.Resumes resumable j) ∧ r.Occupied k ∧
        ∀ j, k < j → j < r.windowUsed.toNat → ¬r.Occupied j))

variable {resumable : Str → Bool}

theorem Target.unique {k k' : ℕ} (h : r.Target resumable k) (h' : r.Target resumable k') :
    k = k' := by
  obtain ⟨hk0, hkw, hk⟩ := h
  obtain ⟨hk0', hkw', hk'⟩ := h'
  rcases hk with ⟨hres, hlast⟩ | ⟨hnone, hocc, hlast⟩
  · rcases hk' with ⟨hres', hlast'⟩ | ⟨hnone', -, -⟩
    · by_contra hne
      rcases Nat.lt_or_gt_of_ne hne with hlt | hlt
      · exact hlast k' hlt hkw' hres'
      · exact hlast' k hlt hkw hres
    · exact absurd hres (hnone' k hk0 hkw)
  · rcases hk' with ⟨hres', -⟩ | ⟨-, hocc', hlast'⟩
    · exact absurd hres' (hnone k' hk0' hkw')
    · by_contra hne
      rcases Nat.lt_or_gt_of_ne hne with hlt | hlt
      · exact hlast k' hlt hkw' hocc'
      · exact hlast' k hlt hkw hocc

theorem gt_delivered_iff {k : ℕ} (hk0 : 0 < k) (hkw : k < r.windowUsed.toNat) :
    Seq.gt (seqAt r.delivered k) r.delivered = true ↔ k < 2 ^ 31 := by
  have hlt := r.windowUsed.toNat_lt
  rw [Seq.gt_eq, sgt, decide_eq_true_iff, seqAt_sub_start, toNat_ofNat_lt (by omega)]
  omega

/-- **A stalled reader gets out of the hole exactly if** it does not stand at the only fragment it
could resume at, and its target is within reach of the comparison; then exactly the slots before the
target are cleared. -/
theorem escapes (resumable : Str → Bool) (hgap : r.hasGap = true)
    (hpast : ∃ j, 0 < j ∧ j < r.windowUsed.toNat ∧ r.Occupied j) :
    (∃ k, r.Target resumable k ∧ (r.escapeStall resumable).2 = some (seqAt r.delivered k) ∧
        Seq.gt (seqAt r.delivered k) r.delivered = true ∧
        ∀ i, (r.escapeStall resumable).1.slot i =
          if ∃ j < k, i = slotIndex n (seqAt r.delivered j) then {} else r.slot i) ↔
      ¬r.Lured resumable ∧ ∀ k, r.Target resumable k → k < 2 ^ 31 := by
  obtain ⟨furthest, best, hf, hb, hesc⟩ := r.escapeStall_cases resumable
  constructor
  · rintro ⟨k, htarget, hsome, hgt, -⟩
    refine ⟨fun hlured => ?_, fun k' htarget' => ?_⟩
    · -- the scan prefers the reader's own place
      have hbest : best = some 0 := by
        cases best with
        | none => exact absurd hlured.1 (hb 0 (by have := htarget.2.1; omega))
        | some b =>
          by_contra hne
          exact hlured.2 b (Nat.pos_of_ne_zero fun h => hne (by rw [h])) hb.1 hb.2.1
      subst hbest
      rcases hesc with ⟨hnone, -⟩ | ⟨k', hk0, -, -, hk', -⟩
      · rw [hnone] at hsome
        cases hsome
      · cases hk'
        exact absurd hk0 (lt_irrefl 0)
    · rw [htarget'.unique htarget]
      exact (gt_delivered_iff htarget.1 htarget.2.1).mp hgt
  · rintro ⟨hfree, hnear⟩
    obtain ⟨j, hj0, hjw, hocc⟩ := hpast
    -- what the scan prefers is past the reader
    obtain ⟨k, hk, htarget⟩ : ∃ k, best.or furthest = some k ∧ r.Target resumable k := by
      cases best with
      | some b =>
        refine ⟨b, rfl, Nat.pos_of_ne_zero ?_, hb.1, .inl hb.2⟩
        rintro rfl
        exact hfree hb.2
      | none =>
        cases furthest with
        | none => exact absurd hocc (hf j hjw)
        | some f =>
          refine ⟨f, rfl, Nat.pos_of_ne_zero ?_, hf.1, .inr ⟨fun i _ hi => hb i hi, hf.2⟩⟩
          rintro rfl
          exact hf.2.2 j hj0 hjw hocc
    have hreach := hnear k htarget
    rw [hk] at hesc
    rcases hesc with ⟨-, hno⟩ | ⟨k', -, -, -, hk', he⟩
    · have hzero := hno hgap k rfl
      have hpos := htarget.1
      omega
    · cases hk'
      refine ⟨k, htarget, by rw [he], (gt_delivered_iff htarget.1 htarget.2.1).mpr hreach,
        fun i => ?_⟩
      obtain ⟨a, -, hadv, -⟩ := (r.jumped k).advance_cases
      rw [he, hadv]
      exact slot_release r k i

def firstHalf : Str := [0, 0, 0, 8, 1]

def startsPicture (body : Str) : Bool := body = firstHalf

theorem escapes_gap : ∃ r : RecvRing 8, (uses (fresh 16)).Reach r ∧
    (r.escapeStall startsPicture).2 = some 1 ∧ ∃ k, r.Target startsPicture k ∧
      (r.escapeStall startsPicture).2 = some (seqAt r.delivered k) := by
  obtain ⟨r, hr, hgap, hw, hd, h3, h0, h1⟩ := Machine.exists_reachVia
    (M := uses (fresh 16 : RecvRing 8)) (fun _ _ => True)
    [.store 1 firstHalf, .store 3 [7]]
    (fun r => r.hasGap = true ∧ r.windowUsed.toNat = 4 ∧ r.delivered = 0 ∧
      (r.slotBody (seqAt r.delivered 3)).isSome = true ∧
      (r.slotBody (seqAt r.delivered 0)).any startsPicture = false ∧
      (r.escapeStall startsPicture).2 = some 1) (by decide +kernel)
  have hfree : ¬r.Lured startsPicture := by
    intro hl
    have hres := hl.1
    unfold Resumes at hres
    rw [h0] at hres
    cases hres
  obtain ⟨k, htarget, hk, -⟩ := (escapes startsPicture hgap ⟨3, by decide, by omega, h3⟩).mpr
    ⟨hfree, fun k hk => by have := hk.2.1; omega⟩
  exact ⟨r, hr, h1, k, htarget, hk⟩

/-- **The reader stays where it is stalled.** It has the first half of a message that starts a picture,
the second is lost, and later fragments are there: the escape finds the fragment the reader stands at,
and does nothing. -/
theorem stays_stalled : ∃ r : RecvRing 8, (uses (fresh 16)).Reach r ∧ r.hasGap = true ∧
    (r.takeMessage 64).2 = none ∧ (0 < 2 ∧ 2 < r.windowUsed.toNat ∧ r.Occupied 2) ∧
    (r.escapeStall startsPicture).2 = none := by
  exact Machine.exists_reachVia (M := uses (fresh 16 : RecvRing 8)) (fun _ _ => True)
    [.store 0 firstHalf, .store 2 [7]]
    (fun r => r.hasGap = true ∧ (r.takeMessage 64).2 = none ∧
      (0 < 2 ∧ 2 < r.windowUsed.toNat ∧ (r.slotBody (seqAt r.delivered 2)).isSome = true) ∧
      (r.escapeStall startsPicture).2 = none) (by decide +kernel)

end RecvRing

end OpenStream.Lowlat
