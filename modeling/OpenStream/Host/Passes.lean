import OpenStream.Host.Seating
import OpenStream.Lib.Rank
import Mathlib.Data.Fintype.Card
import Mathlib.Data.Finset.Card

/-!
# Seats come back

* **`Seating.seats_return`**: in an orderly run, a seat that no guest has comes back.
-/

namespace OpenStream.Host

open Function Runs

/-! ## Joins to come -/

def vacancies (seats : Place → SeatState) : ℕ := (Finset.univ.filter fun i => seats i = .free).card

def Taker.isSending : Taker → Bool
  | .sending _ => true
  | _ => false

def coming (seats : Place → SeatState) (queue : List Place) (guests : List Taker) : ℕ :=
  queue.length + guests.countP Taker.isSending + vacancies seats

section

variable {seats : Place → SeatState} {i : Place} {v : SeatState} {queue : List Place}
  {guests : List Taker} {k : ℕ} {t : Taker}

theorem vacancies_free (h : seats i ≠ .free) :
    vacancies (update seats i .free) = vacancies seats + 1 := by
  have heq : (Finset.univ.filter fun j => update seats i .free j = .free) =
      insert i (Finset.univ.filter fun j => seats j = .free) := by
    ext j
    by_cases hji : j = i
    · subst hji
      simp
    · simp [hji]
  rw [vacancies, heq, Finset.card_insert_of_notMem (by simpa using h)]
  rfl

theorem vacancies_same (h : seats i ≠ .free) (hv : v ≠ .free) :
    vacancies (update seats i v) = vacancies seats := by
  unfold vacancies
  congr 1
  ext j
  by_cases hji : j = i
  · subst hji
    simp [h, hv]
  · simp [update_of_ne hji]

theorem vacancies_claim (h : seats i = .free) (hv : v ≠ .free) :
    vacancies (update seats i v) + 1 = vacancies seats := by
  have hne : update seats i v i ≠ .free := by rw [update_self]; exact hv
  have hback := vacancies_free hne
  rw [update_idem, ← h, update_eq_self] at hback
  exact hback.symm

theorem mem_drop_iff {α : Type} {l : List α} {n : ℕ} {x : α} :
    x ∈ l.drop n ↔ ∃ m, n ≤ m ∧ l[m]? = some x := by
  rw [List.mem_iff_getElem?]
  constructor
  · rintro ⟨m, hm⟩
    exact ⟨n + m, Nat.le_add_right n m, by rwa [List.getElem?_drop] at hm⟩
  · rintro ⟨m, hnm, hm⟩
    exact ⟨m - n, by rw [List.getElem?_drop, Nat.add_sub_cancel' hnm]; exact hm⟩

theorem mem_drop_succ {α : Type} {l : List α} {n : ℕ} {x y : α} (h : l[n]? = some y) :
    x ∈ l.drop n ↔ x = y ∨ x ∈ l.drop (n + 1) := by
  obtain ⟨hn, hget⟩ := List.getElem?_eq_some_iff.mp h
  rw [List.drop_eq_getElem_cons hn, hget, List.mem_cons]

theorem countP_set_guest (h : guests[k]? = some t) (u : Taker) :
    (guests.set k u).countP Taker.isSending + (if t.isSending then 1 else 0) =
      guests.countP Taker.isSending + if u.isSending then 1 else 0 := by
  obtain ⟨hk, hget⟩ := List.getElem?_eq_some_iff.mp h
  rw [List.countP_set hk, hget]
  have hpos : t.isSending = true → 0 < guests.countP Taker.isSending :=
    fun ht => List.countP_pos_iff.mpr ⟨t, List.mem_of_getElem? h, ht⟩
  cases ht : t.isSending with
  | true =>
    have := hpos ht
    simp only [if_true]
    omega
  | false => simp

end

namespace Seating

variable {g g' : Seating} {i : Place} {k : ℕ} {a : Action}

/-! ## The rank -/

/-- Steps of the stream thread until a seat that was left is free, by where the thread is. Only a part
of a pass that has gone by the seat leads through the rest of it. -/
def rankOf (i : Place) (coming : ℕ) (roster : List Place) : Pc → ℕ :=
  let work := 5 * coming + 2 * roster.length
  let back := 2 * MAX_SEATS + 2
  fun
  | .retiring n =>
    if n ≤ i then 2 * (MAX_SEATS - n) + 1 else 7 * (MAX_SEATS - n) + MAX_SEATS + work + back + 8
  | .freeing j =>
    if j ≤ i then 2 * (MAX_SEATS - j) else 7 * (MAX_SEATS - j) + MAX_SEATS + work + back + 7
  | .occupied n => MAX_SEATS - n + work + back + 7
  | .idle => back + 1
  | .preparing => work + back + 6
  | .building => work + back + 5
  | .top => work + 3
  | .admitting => work + 2
  | .joining _ => work + 6
  | .promoting _ => work + 5
  | .scanning n =>
    if i ∈ roster.drop n then 2 * (roster.length - n) + 1
    else 6 * (roster.length - n) + work + back + 5
  | .returning n =>
    if i ∈ roster.drop n then 2 * (roster.length - n)
    else 6 * (roster.length - n) + work + back + 4
  | .passing => work + back + 4
  | .failed => back + 1
  | .stopped => 0

def rank (i : Place) (g : Seating) : ℕ := rankOf i (coming g.seats g.queue g.guests) g.roster g.pc

theorem rankOf_mono {m n : ℕ} (h : m ≤ n) (roster : List Place) (pc : Pc) :
    rankOf i m roster pc ≤ rankOf i n roster pc := by
  cases pc <;> simp only [rankOf]
  all_goals (try split_ifs) <;> omega

/-! ## A seat that was left -/

/-- A seat that was left, while the host runs. -/
structure Awaited (i : Place) (g : Seating) : Prop where
  seated : g.Seated
  leaving : g.seats i = .leaving
  running : g.stopping = false

theorem Seated.not_stopped (h : g.Seated) (hrunning : g.stopping = false) : g.pc ≠ .stopped := by
  intro hpc
  have hstop : g.stopping = true := h.sees_at hpc
  rw [hrunning] at hstop
  cases hstop

section

variable (h : Awaited i g)
include h

theorem Awaited.not_stopped : g.pc ≠ .stopped := h.seated.not_stopped h.running

theorem Awaited.ne_of_owned {t : Taker} {j : Place} (hk : g.guests[k]? = some t)
    (hj : t.seat = some j) : i ≠ j := by
  rintro rfl
  exact h.seated.not_owned (.inr h.leaving) ⟨k, (seatOf_of hk).trans hj⟩

theorem Awaited.not_refused {j : Place} (hk : g.guests[k]? = some (.refused j)) : False :=
  h.not_stopped (h.seated.refused j (List.mem_of_getElem? hk))

theorem Awaited.other_leaving (ha : ∀ turn, a ≠ .stream turn)
    (hst : g.step a = some g') : g'.seats i = .leaving := by
  cases a with
  | arrive | stop =>
    cases hst
    exact h.leaving
  | guest k =>
    cases move_moves hst with
    | claimed j hk hf =>
      have hne : i ≠ j := fun he => by
        rw [← he, h.leaving] at hf
        cases hf
      exact (update_of_ne hne _ _).trans h.leaving
    | wandered => exact h.leaving
    | sent => exact h.leaving
    | unsent => exact h.leaving
    | gaveBack j hk => exact (h.not_refused hk).elim
  | leave k =>
    obtain ⟨j, hk, rfl⟩ := leave_leaves hst
    exact (update_of_ne (h.ne_of_owned hk rfl) _ _).trans h.leaving
  | stream turn => exact absurd rfl (ha turn)

theorem Awaited.turn_leaving {turn : Turn} (ht : Turns g turn g') :
    g'.seats i = .free ∨ g'.seats i = .leaving := by
  -- a store of `free` frees the seat or another one
  have hfree (j : Place) : update g.seats j .free i = .free ∨ update g.seats j .free i = .leaving := by
    by_cases hij : i = j
    · subst hij
      exact .inl (update_self ..)
    · exact .inr ((update_of_ne hij _ _).trans h.leaving)
  cases ht with
  | freed j | returned n j => exact hfree j
  | promoted j hpc =>
    have hclaimed : g.seats j = .claimed := h.seated.sees_at hpc
    have hne : i ≠ j := fun he => by
      rw [← he, h.leaving] at hclaimed
      cases hclaimed
    exact .inr ((update_of_ne hne _ _).trans h.leaving)
  | _ => exact .inr h.leaving

end

theorem Turns.stopping {turn : Turn} (ht : Turns g turn g') : g'.stopping = g.stopping := by
  cases ht <;> rfl

theorem Turns.guests {turn : Turn} (ht : Turns g turn g') : g'.guests = g.guests := by
  cases ht <;> rfl

/-! ## Guests do not raise the rank -/

theorem Awaited.coming_le (h : Awaited i g) (ha : ∀ turn, a ≠ .stream turn)
    (hst : g.step a = some g') :
    coming g'.seats g'.queue g'.guests ≤ coming g.seats g.queue g.guests := by
  cases a with
  | arrive =>
    cases hst
    simp [coming, List.countP_append, Taker.isSending]
  | guest k =>
    cases move_moves hst with
    | claimed j hk hf =>
      have hcount := countP_set_guest hk (.sending j)
      have hvac := vacancies_claim hf (v := .claimed) (by decide)
      simp only [Taker.isSending, Bool.false_eq_true, if_false, if_true] at hcount
      simp only [coming]
      omega
    | wandered t u hk ht hu =>
      have hcount := countP_set_guest hk u
      have hnot {x : Taker} (hx : x.seat = none) : x.isSending = false := by
        cases x <;> first | rfl | cases hx
      simp only [hnot ht, hnot hu, Bool.false_eq_true, if_false] at hcount
      simp only [coming]
      omega
    | sent j hk =>
      have hcount := countP_set_guest hk (.holding j)
      simp only [Taker.isSending, Bool.false_eq_true, if_false, if_true] at hcount
      simp only [coming, List.length_append, List.length_singleton]
      omega
    | unsent j hk hpc => exact absurd hpc h.not_stopped
    | gaveBack j hk => exact (h.not_refused hk).elim
  | leave k =>
    obtain ⟨j, hk, rfl⟩ := leave_leaves hst
    have hcount := countP_set_guest hk .gone
    have hheld : g.seats j ≠ .free := by
      intro hf
      exact h.seated.not_owned (.inl hf) ⟨k, (seatOf_of hk).trans rfl⟩
    have hvac := vacancies_same hheld (v := .leaving) (by decide)
    simp only [Taker.isSending, Bool.false_eq_true, if_false] at hcount
    simp only [coming]
    omega
  | stop =>
    cases hst
    exact le_rfl
  | stream turn => exact absurd rfl (ha turn)

theorem other_frame (ha : ∀ turn, a ≠ .stream turn) (hst : g.step a = some g') :
    g'.roster = g.roster ∧ g'.pc = g.pc := by
  cases a with
  | arrive | stop =>
    cases hst
    exact ⟨rfl, rfl⟩
  | guest k =>
    cases move_moves hst <;> exact ⟨rfl, rfl⟩
  | leave k =>
    obtain ⟨j, -, rfl⟩ := leave_leaves hst
    exact ⟨rfl, rfl⟩
  | stream turn => exact absurd rfl (ha turn)

theorem Awaited.other_rank (h : Awaited i g) (ha : ∀ turn, a ≠ .stream turn)
    (hst : g.step a = some g') : rank i g' ≤ rank i g := by
  obtain ⟨hroster, hpc⟩ := other_frame ha hst
  rw [rank, rank, hroster, hpc]
  exact rankOf_mono (h.coming_le ha hst) _ _

/-! ## The stream thread lowers it -/

theorem Awaited.turn_rank (h : Awaited i g) {turn : Turn} (ht : Turns g turn g')
    (hnot : g'.seats i ≠ .free) : rank i g' < rank i g := by
  have hlt := i.isLt
  have hback : ¬ g.pc.visits i → i ∈ g.roster :=
    (h.seated.leaving h.not_stopped i h.leaving).resolve_right
  have hne {j : Place} (hj : g.seats j ≠ .leaving) : (j : ℕ) ≠ i :=
    fun he => hj (Fin.ext he ▸ h.leaving)
  unfold rank
  cases ht with
  | past j hpc hj =>
    have := hne hj
    have := j.isLt
    rw [hpc]
    simp only [rankOf]
    split_ifs <;> omega
  | seen j hpc =>
    rw [hpc]
    simp only [rankOf, Fin.le_def]
    split_ifs <;> omega
  | retired n hpc hn =>
    rw [hpc]
    simp only [rankOf]
    split_ifs <;> omega
  | freed j hpc =>
    have hji : (j : ℕ) ≠ i := fun he => hnot (by rw [Fin.ext he]; exact update_self ..)
    have hl : g.seats j ≠ .free := by
      have hl : g.seats j = .leaving := h.seated.sees_at hpc
      rw [hl]
      decide
    have hvac := vacancies_free hl
    have := j.isLt
    rw [hpc]
    simp only [rankOf, coming, hvac, Fin.le_def]
    split_ifs <;> omega
  | vacant j hpc | found j hpc =>
    have := j.isLt
    rw [hpc]
    simp only [rankOf]
    omega
  | nobody n hpc | prepared hpc | requested hpc | built hpc | began hpc | accepted j hpc
  | skipped j hpc | again hpc =>
    rw [hpc]
    simp only [rankOf]
    omega
  | waited hpc | rebuilt _ _ hpc | reverted _ hpc | reset hpc =>
    rw [hpc]
    simp only [rankOf, Nat.zero_le, if_true]
    omega
  | quit hpc hs =>
    rw [h.running] at hs
    cases hs
  | broke hpc =>
    rcases hpc with hpc | ⟨hpc, -⟩
    · rw [hpc]
      simp only [rankOf]
      omega
    · rw [hpc]
      simp only [rankOf]
      omega
  | received j rest hpc hq =>
    rw [hpc]
    simp only [rankOf, coming, hq, List.length_cons]
    omega
  | drained hpc hq =>
    have hmem := hback (by rw [hpc]; exact id)
    rw [hpc]
    simp only [rankOf, List.drop_zero, if_pos hmem]
    omega
  | promoted j hpc =>
    have hclaimed : g.seats j ≠ .free := by
      have hc : g.seats j = .claimed := h.seated.sees_at hpc
      rw [hc]
      decide
    have hvac := vacancies_same hclaimed (v := .streaming) (by decide)
    rw [hpc]
    simp only [rankOf, coming, hvac, List.length_append, List.length_singleton]
    omega
  | kept n j hpc hr hj =>
    have hlen := (List.getElem?_eq_some_iff.mp hr).1
    have hahead : i ∈ g.roster.drop n ↔ i ∈ g.roster.drop (n + 1) := by
      rw [mem_drop_succ hr]
      exact or_iff_right fun he => hj (he ▸ h.leaving)
    rw [hpc]
    simp only [rankOf, hahead]
    split_ifs <;> omega
  | noticed n j hpc hr =>
    rw [hpc]
    simp only [rankOf]
    split_ifs <;> omega
  | scanned n hpc hr =>
    have hlen : g.roster.length ≤ n := List.getElem?_eq_none_iff.mp hr
    rw [hpc]
    simp only [rankOf, List.drop_eq_nil_of_le hlen, List.not_mem_nil, if_false]
    omega
  | returned n j hpc hr =>
    have hlen := (List.getElem?_eq_some_iff.mp hr).1
    have hlen' := length_swapRemove hlen
    have hij : i ≠ j := fun he => hnot (by rw [he]; exact update_self ..)
    have hl : g.seats j ≠ .free := by
      rw [h.seated.returning hpc hr]
      decide
    have hvac := vacancies_free hl
    have hahead : i ∈ g.roster.drop n → i ∈ (swapRemove g.roster n).drop n := fun hm => by
      obtain ⟨m, hnm, hget⟩ := mem_drop_iff.mp hm
      have hmn : m ≠ n := by
        rintro rfl
        exact hij (Option.some.inj (hget.symm.trans hr))
      obtain ⟨m', hm', hle⟩ := getElem?_swapRemove hlen hget hmn
      exact mem_drop_iff.mpr ⟨m', hle hnm, hm'⟩
    rw [hpc]
    simp only [rankOf, coming, hvac]
    by_cases hm : i ∈ g.roster.drop n
    · rw [if_pos hm, if_pos (hahead hm)]
      omega
    · rw [if_neg hm]
      split_ifs <;> omega

/-! ## Every seat comes back -/

/-- A step of the stream thread. -/
def IsStream : Action → Prop
  | .stream _ => True
  | _ => False

theorem not_isStream (h : ¬ IsStream a) : ∀ turn, a ≠ .stream turn := by
  rintro turn rfl
  exact h trivial

/-- What ends the wait for a seat. -/
def Back (i : Place) (g : Seating) : Prop := g.seats i = .free ∨ g.stopping = true

theorem Awaited.step (h : Awaited i g) (hok : g.Orderly a) (hst : g.step a = some g')
    (hnot : ¬ g'.Back i) : Awaited i g' := by
  have hrunning : g'.stopping = false := Bool.eq_false_iff.mpr fun hs => hnot (.inr hs)
  refine ⟨h.seated.step hok hst, ?_, hrunning⟩
  by_cases hs : IsStream a
  · cases a with
    | stream turn => exact (h.turn_leaving (turn_turns hst)).resolve_left fun hf => hnot (.inl hf)
    | _ => cases hs
  · exact h.other_leaving (not_isStream hs) hst

/-- **A seat that was left is free within a number of steps of the stream thread**, whatever the guests
do meanwhile. -/
theorem Awaited.bounded (h : Awaited i g) {n : ℕ} {t : Seating}
    (ht : seating.Before Orderly IsStream (Back i) g n t) : n ≤ rank i g := by
  refine Machine.Before.le_rank (I := Awaited i) (fun s a s' hI hok hst _ hg => hI.step hok hst hg)
    (fun s a s' hI _ hm hst _ hg => ?_) (fun s a s' hI _ hm hst _ _ => ?_) h ht
  · cases a with
    | stream turn => exact hI.turn_rank (turn_turns hst) fun hf => hg (.inl hf)
    | _ => cases hm
  · exact hI.other_rank (not_isStream hm) hst

theorem Seated.advance (h : g.Seated) (hrun : g.pc ≠ .stopped) : ∃ g', g.advance = some g' := by
  unfold Seating.advance
  split
  all_goals try exact ⟨_, rfl⟩
  · split_ifs <;> exact ⟨_, rfl⟩
  · split_ifs <;> exact ⟨_, rfl⟩
  · split <;> exact ⟨_, rfl⟩
  · split <;> exact ⟨_, rfl⟩
  · next n hpc =>
    obtain ⟨i, hi, -⟩ := h.sees_at hpc
    rw [hi]
    exact ⟨_, rfl⟩
  · split_ifs <;> exact ⟨_, rfl⟩
  · next hpc => exact absurd hpc hrun

/-- An orderly run frees the seat. -/
abbrev Frees (g : Seating) (i : Place) : Prop :=
  ∃ t, (seating.startAt g).ReachVia Orderly t ∧ t.seats i = .free

theorem Awaited.returns (h : Awaited i g) : g.Frees i := by
  refine Machine.exists_of_rank (I := Awaited i) (rank i) (fun s hs hnot => ?_) h
  obtain ⟨s', hs'⟩ := hs.seated.advance hs.not_stopped
  have ht := advance_turns hs'
  refine ⟨.stream .plain, s', trivial, hs', ?_⟩
  by_cases hfree : s'.seats i = .free
  · exact .inl hfree
  · refine .inr ⟨?_, hs.turn_rank ht hfree⟩
    refine hs.step (a := .stream .plain) trivial hs' fun hb => ?_
    rcases hb with hb | hb
    · exact hfree hb
    · rw [ht.stopping, hs.running] at hb
      cases hb

/-! ## A seat that is claimed -/

/-- Steps of the stream thread until it admits the guest of a claimed seat, if nothing fails. -/
def rankToStream (i : Place) (g : Seating) : ℕ :=
  let work := 4 * g.queue.length
  match g.pc with
  | .retiring n => 2 * (MAX_SEATS - n) + MAX_SEATS + work + 5
  | .freeing j => 2 * (MAX_SEATS - j) + MAX_SEATS + work + 4
  | .occupied n =>
    if n ≤ i then MAX_SEATS - n + work + 4 else MAX_SEATS - n + 3 * MAX_SEATS + work + 7
  | .idle => 3 * MAX_SEATS + work + 6
  | .preparing => work + 3
  | .building => work + 2
  | .top => work + 1
  | .admitting => work
  | .joining _ => work + 3
  | .promoting _ => work + 2
  | .scanning n => 2 * (g.roster.length - n) + work + 3
  | .returning n => 2 * (g.roster.length - n) + work + 2
  | .passing => work + 2
  | .failed => 3 * MAX_SEATS + work + 6
  | .stopped => 0

/-- A seat that is claimed, with its join sent, while the host runs. -/
structure Claimed (i : Place) (g : Seating) : Prop where
  seated : g.Seated
  claimed : g.seats i = .claimed
  sent : .sending i ∉ g.guests
  running : g.stopping = false

theorem Claimed.joins (h : Claimed i g) : i ∈ g.joins :=
  (h.seated.pending (h.seated.not_stopped h.running) i h.claimed).resolve_left h.sent

theorem Claimed.turn (h : Claimed i g) (ht : Turns g .plain g') (hnot : g'.seats i ≠ .streaming) :
    Claimed i g' ∧ rankToStream i g' < rankToStream i g := by
  have hlt := i.isLt
  have hne {j : Place} {v : SeatState} (hj : g.seats j = v) (hv : v ≠ .claimed) : i ≠ j :=
    fun he => hv (hj.symm.trans (he ▸ h.claimed))
  have hjoins := h.joins
  have hok : g.Orderly (.stream .plain) := trivial
  refine ⟨⟨h.seated.turn hok ht, ?_, by rw [ht.guests]; exact h.sent,
    by rw [ht.stopping]; exact h.running⟩, ?_⟩
  · cases ht with
    | freed j hpc =>
      exact (update_of_ne (hne (h.seated.sees_at hpc) (by decide)) _ _).trans h.claimed
    | returned n j hpc hr =>
      have hl := h.seated.returning hpc hr
      exact (update_of_ne (hne hl (by decide)) _ _).trans h.claimed
    | promoted j hpc =>
      have hij : i ≠ j := fun he => hnot (by rw [he]; exact update_self ..)
      exact (update_of_ne hij _ _).trans h.claimed
    | _ => exact h.claimed
  · unfold rankToStream
    cases ht with
    | past j hpc | freed j hpc =>
      have := j.isLt
      simp only [hpc]
      omega
    | seen j hpc | accepted j hpc | skipped j hpc | promoted j hpc
    | waited hpc | prepared hpc | built hpc | began hpc | again hpc | reverted _ hpc | reset hpc
    | noticed n j hpc | scanned n hpc =>
      simp only [hpc]
      omega
    | retired n hpc hn =>
      simp only [hpc, Nat.zero_le, if_true]
      omega
    | vacant j hpc hf =>
      have hij : (i : ℕ) ≠ j := fun he => hne hf (by decide) (Fin.ext he)
      have := j.isLt
      simp only [hpc]
      split_ifs <;> omega
    | found j hpc | nobody n hpc hn =>
      simp only [hpc]
      split_ifs <;> omega
    | quit hpc hs =>
      rw [h.running] at hs
      cases hs
    | received j rest hpc hq =>
      simp only [hpc, hq, List.length_cons]
      omega
    | drained hpc hq =>
      rw [Seating.joins, hpc, hq] at hjoins
      cases hjoins
    | kept n j hpc hr =>
      have hlen := (List.getElem?_eq_some_iff.mp hr).1
      simp only [hpc]
      omega
    | returned n j hpc hr =>
      have hlen := (List.getElem?_eq_some_iff.mp hr).1
      have hlen' := length_swapRemove hlen
      simp only [hpc]
      omega
    | rebuilt _ _ _ _ hplain => exact absurd rfl hplain

theorem Claimed.streams (h : Claimed i g) :
    ∃ t, (seating.startAt g).ReachVia Orderly t ∧
      t.seats i = .streaming ∧ t.Seated ∧ t.stopping = false := by
  refine Machine.exists_of_rank (I := Claimed i) (rankToStream i) (fun s hs hnot => ?_) h
  obtain ⟨s', hs'⟩ := hs.seated.advance (hs.seated.not_stopped hs.running)
  have ht := advance_turns hs'
  have hok : s.Orderly (.stream .plain) := trivial
  refine ⟨.stream .plain, s', hok, hs', ?_⟩
  by_cases hstream : s'.seats i = .streaming
  · exact .inl ⟨hstream, hs.seated.turn hok ht, by rw [ht.stopping]; exact hs.running⟩
  · exact .inr (hs.turn ht hstream)

/-! ## The guest of a seat -/

section

variable (h : g.Seated) (hrunning : g.stopping = false)

include h hrunning

theorem Seated.guest (hs : g.seats i = .claimed ∨ g.seats i = .streaming) :
    ∃ k : ℕ, g.guests[k]? = some (.sending i) ∨ g.guests[k]? = some (.holding i) := by
  obtain ⟨k, hk⟩ := (h.owned i).mp hs
  obtain ⟨t, ht, hseat⟩ := Option.bind_eq_some_iff.mp hk
  refine ⟨k, ?_⟩
  cases t with
  | sending j =>
    cases hseat
    exact .inl ht
  | holding j =>
    cases hseat
    exact .inr ht
  | refused j => exact absurd (h.refused j (List.mem_of_getElem? ht)) (h.not_stopped hrunning)
  | scanning n | gone => cases hseat

theorem Seated.send (hk : g.guests[k]? = some (.sending i)) :
    ∃ t, (seating.startAt g).ReachVia Orderly t ∧ t.Seated ∧ t.stopping = false ∧
      t.seats = g.seats ∧ t.guests[k]? = some (.holding i) := by
  have hlen : k < g.guests.length := (List.getElem?_eq_some_iff.mp hk).1
  have hst : g.step (.guest k) =
      some { g with queue := g.queue ++ [i], guests := g.guests.set k (.holding i) } := by
    simp [Seating.step, Seating.move, hk, if_neg (h.not_stopped hrunning)]
  have hok : g.Orderly (.guest k) := trivial
  exact ⟨_, .step .start hok hst, h.step hok hst, hrunning, rfl, List.getElem?_set_self hlen⟩

theorem Seated.held_returns (hs : g.seats i = .streaming) (hk : g.guests[k]? = some (.holding i)) :
    g.Frees i := by
  have hst : g.step (.leave k) =
      some { g with seats := update g.seats i .leaving, guests := g.guests.set k .gone } := by
    simp [Seating.step, Seating.leave, hk]
  have hok : g.Orderly (.leave k) := fun j hj => by
    cases Option.some.inj (hk.symm.trans hj)
    exact .inl hs
  have hawaited : Awaited i { g with
      seats := update g.seats i .leaving
      guests := g.guests.set k .gone } := ⟨h.step hok hst, update_self .., hrunning⟩
  obtain ⟨t, ht, hfree⟩ := hawaited.returns
  have hone : (seating.startAt g).ReachVia Orderly _ := .step .start hok hst
  exact ⟨t, hone.trans ht, hfree⟩

theorem Seated.streaming_returns (hs : g.seats i = .streaming) : g.Frees i := by
  obtain ⟨k, hk | hk⟩ := h.guest hrunning (.inr hs)
  · obtain ⟨t, ht, hseated, hrun, hseats, hheld⟩ := h.send hrunning hk
    obtain ⟨u, hu, hfree⟩ := hseated.held_returns hrun (by rw [hseats]; exact hs) hheld
    exact ⟨u, ht.trans hu, hfree⟩
  · exact h.held_returns hrunning hs hk

omit h hrunning in
theorem Claimed.returns (h : Claimed i g) : g.Frees i := by
  obtain ⟨t, ht, hs, hseated, hrun⟩ := h.streams
  obtain ⟨u, hu, hfree⟩ := hseated.streaming_returns hrun hs
  exact ⟨u, ht.trans hu, hfree⟩

theorem Seated.claimed_returns (hs : g.seats i = .claimed) : g.Frees i := by
  -- only the guest that has the seat can be about to send its join
  have hsent {t : Seating} {k : ℕ} (ht : t.Seated) (hk : t.guests[k]? = some (.holding i)) :
      .sending i ∉ t.guests := fun hmem => by
    obtain ⟨l, hl⟩ := List.mem_iff_getElem?.mp hmem
    obtain rfl := ht.unique k l i ((seatOf_of hk).trans rfl) ((seatOf_of hl).trans rfl)
    cases hk.symm.trans hl
  obtain ⟨k, hk | hk⟩ := h.guest hrunning (.inl hs)
  · obtain ⟨t, ht, hseated, hrun, hseats, hheld⟩ := h.send hrunning hk
    have hclaimed : Claimed i t := ⟨hseated, by rw [hseats]; exact hs, hsent hseated hheld, hrun⟩
    obtain ⟨u, hu, hfree⟩ := hclaimed.returns
    exact ⟨u, ht.trans hu, hfree⟩
  · exact Claimed.returns ⟨h, hs, hsent h hk, hrunning⟩

theorem Seated.returns (i : Place) : g.Frees i := by
  cases hs : g.seats i with
  | free => exact ⟨g, .start, hs⟩
  | claimed => exact h.claimed_returns hrunning hs
  | streaming => exact h.streaming_returns hrunning hs
  | leaving => exact Awaited.returns ⟨h, hs, hrunning⟩

end

/-- **Seats never leak in an orderly run**: what no guest's thread has comes back after a bounded
number of steps of the stream thread, and can be taken again. -/
theorem seats_return (h : seating.ReachVia Orderly g) :
    (∀ i, (∀ k, seatOf g.guests k ≠ some i) → g.seats i = .free ∨ g.seats i = .leaving) ∧
    (g.pc ≠ .stopped → ∀ i, g.seats i ≠ .free → .sending i ∉ g.guests →
      i ∈ g.roster ∨ i ∈ g.joins ∨ g.seats i = .leaving) ∧
    (g.stopping = false → ∀ i, g.seats i = .leaving →
      ∃ bound, ∀ n t, seating.Before Orderly IsStream (Back i) g n t → n ≤ bound) ∧
    (g.stopping = false → ∀ i, ∃ t, (seating.startAt g).ReachVia Orderly t ∧ t.seats i = .free) := by
  have hseated := seated h
  refine ⟨fun i hnone => ?_, fun hrun i hi hsent => ?_, fun hrun i hl => ?_,
    fun hrun i => hseated.returns hrun i⟩
  · have hnot : ¬ (g.seats i = .claimed ∨ g.seats i = .streaming) := fun hs => by
      obtain ⟨k, hk⟩ := (hseated.owned i).mp hs
      exact hnone k hk
    cases hs : g.seats i with
    | free => exact .inl rfl
    | leaving => exact .inr rfl
    | claimed => exact absurd (.inl hs) hnot
    | streaming => exact absurd (.inr hs) hnot
  · cases hs : g.seats i with
    | free => exact absurd hs hi
    | claimed => exact .inr (.inl ((hseated.pending hrun i hs).resolve_left hsent))
    | streaming => exact .inl (hseated.listed i hs)
    | leaving => exact .inr (.inr rfl)
  · exact ⟨rank i g, fun n t ht => Awaited.bounded ⟨hseated, hl, hrun⟩ ht⟩

/-- A guest that was admitted and has left. -/
theorem seats_return_front : ∃ g, seating.ReachVia Orderly g ∧ g.seats front = .leaving ∧
    (∃ bound, ∀ n t, seating.Before Orderly IsStream (Back front) g n t → n ≤ bound) ∧
    ∃ t, (seating.startAt g).ReachVia Orderly t ∧ t.seats front = .free := by
  obtain ⟨g, hg, hl, hrun⟩ := seating.exists_reachVia Orderly (arrival 24 ++ [.leave 0])
    (fun g => g.seats front = .leaving ∧ g.stopping = false) (by decide +kernel)
  obtain ⟨-, -, hbound, hagain⟩ := seats_return hg
  exact ⟨g, hg, hl, hbound hrun front hl, hagain hrun front⟩

end Seating

end OpenStream.Host
