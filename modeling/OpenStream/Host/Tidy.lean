import OpenStream.Host.Rings
import Mathlib.Data.List.Nodup

/-!
# A fresh seat starts clean

* **`Rings.clean`**: in a tidy run, a guest finds only what was published for it.
* **`Rings.unclean`**: in others, it finds what was left over.
-/

namespace OpenStream.Host

open Function Runs List

/-- The stream thread is in `encode_loop`. -/
def Pc.encoding : Pc → Bool
  | .top | .admitting | .joining _ | .promoting _ | .scanning _ | .returning _ | .passing => true
  | _ => false

/-- The seat of a thread that has not sent its join. -/
def Taker.unsent : Taker → Option Place
  | .sending i | .refused i => some i
  | _ => none

theorem Taker.seat_of_unsent {t : Taker} {i : Place} (h : t.unsent = some i) : t.seat = some i := by
  cases t <;> simp_all [Taker.unsent, Taker.seat]

theorem perm_swapRemove {α : Type} {l : List α} {n : ℕ} {x : α} (h : l[n]? = some x) :
    l.Perm (x :: swapRemove l n) := by
  obtain ⟨hn, hx⟩ := List.getElem?_eq_some_iff.mp h
  have hnil : l ≠ [] := ne_nil_of_length_pos (by omega)
  obtain ⟨d, y, rfl⟩ := (eq_nil_or_concat' l).resolve_left hnil
  have hrem : swapRemove (d ++ [y]) n = ((d ++ [y]).set n y).dropLast := by
    rw [swapRemove, getLast?_concat]
  rw [hrem]
  by_cases hlast : n < d.length
  · have hd : d[n]? = some x := by rw [← h, getElem?_append_left hlast]
    rw [set_append_left _ _ hlast, dropLast_concat]
    have hsplit : d = d.take n ++ x :: d.drop (n + 1) := by
      rw [← (List.getElem?_eq_some_iff.mp hd).2, getElem_cons_drop, take_append_drop]
    rw [set_eq_take_append_cons_drop, if_pos hlast]
    conv_lhs => rw [hsplit]
    calc (d.take n ++ x :: d.drop (n + 1) ++ [y]).Perm (y :: (d.take n ++ x :: d.drop (n + 1))) :=
          perm_append_singleton y _
      _ |>.Perm (y :: x :: (d.take n ++ d.drop (n + 1))) := perm_middle.cons y
      _ |>.Perm (x :: y :: (d.take n ++ d.drop (n + 1))) := List.Perm.swap x y _
      _ |>.Perm (x :: (d.take n ++ y :: d.drop (n + 1))) := (perm_middle.symm).cons x
  · have hnd : n = d.length := by simp only [length_append, length_singleton] at hn; omega
    subst hnd
    have hxy : y = x := by simpa using h
    subst hxy
    simp

namespace Seating

/-- The part of the condition that is about the seats. -/
def Settled (g : Seating) : Action → Prop
  | .leave k => ∀ i, g.guests[k]? = some (.holding i) →
      g.pc = .stopped ∨ g.seats i = .streaming ∧ g.pc.encoding = true
  | .stream turn => g.pc = .passing → turn ≠ .plain → ∀ i ∈ g.roster, g.seats i ≠ .leaving
  | _ => True

structure Apart (g : Seating) : Prop where
  distinct : (g.roster ++ g.joins).Nodup
  rostered : ∀ i ∈ g.roster, g.seats i = .streaming ∨ g.seats i = .leaving
  joined : ∀ i ∈ g.joins, g.seats i = .claimed ∨ g.pc = .stopped ∧ g.seats i = .leaving
  unsent : ∀ t ∈ g.guests, ∀ i, t.unsent = some i → g.seats i = .claimed ∧ i ∉ g.joins
  inside : g.pc.encoding = false → g.pc ≠ .stopped → ∀ i ∈ g.roster, g.seats i ≠ .leaving

variable {g g' : Seating} {i : Place} {k : ℕ}

/-! ## Steps of guests -/

theorem Seated.ne_of_unsent (h : g.Seated) {t u v : Taker} (hk : g.guests[k]? = some t)
    (hseat : t.seat = some i) (hu : u.unsent ≠ some i) (hv : v ∈ g.guests.set k u) {j : Place}
    (hj : v.unsent = some j) : v ∈ g.guests ∧ j ≠ i ∨ v = u := by
  obtain ⟨l, hl⟩ := mem_iff_getElem?.mp hv
  by_cases hlk : l = k
  · subst hlk
    rw [getElem?_set_self (List.getElem?_eq_some_iff.mp hk).1] at hl
    exact .inr (Option.some.inj hl).symm
  · rw [getElem?_set_ne (Ne.symm hlk)] at hl
    refine .inl ⟨mem_of_getElem? hl, ?_⟩
    rintro rfl
    exact hlk (h.unique l k j ((seatOf_of hl).trans (Taker.seat_of_unsent hj))
      ((seatOf_of hk).trans hseat))

section

variable (h : Apart g)

include h

theorem Apart.write (hs : g.Seated) {t u : Taker} {v : SeatState}
    (hk : g.guests[k]? = some t) (hseat : t.seat = some i) (hu : u.unsent = none)
    (hroster : i ∈ g.roster → v = .leaving) (hjoins : i ∈ g.joins → g.pc = .stopped ∧ v = .leaving)
    (hinside : i ∈ g.roster → g.pc.encoding = true ∨ g.pc = .stopped) :
    Apart { g with seats := update g.seats i v, guests := g.guests.set k u } where
  distinct := h.distinct
  rostered j hj := by
    by_cases hji : j = i
    · subst hji
      simp only [update_self]
      exact .inr (hroster hj)
    · simp only [update_of_ne hji]
      exact h.rostered j hj
  joined j hj := by
    by_cases hji : j = i
    · subst hji
      simp only [update_self]
      exact .inr (hjoins hj)
    · simp only [update_of_ne hji]
      exact h.joined j hj
  unsent x hx j hj := by
    rcases hs.ne_of_unsent hk hseat (by simp [hu]) hx hj with ⟨hmem, hji⟩ | rfl
    · simp only [update_of_ne hji]
      exact h.unsent x hmem j hj
    · rw [hu] at hj
      cases hj
  inside he hns j hj := by
    by_cases hji : j = i
    · subst hji
      rcases hinside hj with h1 | h1
      · rw [h1] at he
        cases he
      · exact absurd h1 hns
    · simp only [update_of_ne hji]
      exact h.inside he hns j hj

theorem Apart.unsent_notMem {t : Taker} (ht : t ∈ g.guests) (hi : t.unsent = some i) :
    g.seats i = .claimed ∧ i ∉ g.joins ∧ i ∉ g.roster := by
  obtain ⟨hc, hnj⟩ := h.unsent t ht i hi
  refine ⟨hc, hnj, fun hm => ?_⟩
  rcases h.rostered i hm with he | he <;> rw [hc] at he <;> cases he

theorem Apart.claimed (hrun : g.pc ≠ .stopped) (hi : i ∈ g.joins) : g.seats i = .claimed :=
  (h.joined i hi).resolve_right fun hstop => hrun hstop.1

theorem Apart.move (hs : g.Seated) (hm : Moves g k g') : Apart g' := by
  cases hm with
  | claimed i hk hf =>
    have hroster : ∀ j ∈ g.roster, j ≠ i := by
      rintro j hj rfl
      rcases h.rostered j hj with he | he <;> rw [hf] at he <;> cases he
    have hjoins : ∀ j ∈ g.joins, j ≠ i := by
      rintro j hj rfl
      rcases h.joined j hj with he | ⟨-, he⟩ <;> rw [hf] at he <;> cases he
    refine ⟨h.distinct, fun j hj => ?_, fun j hj => ?_, fun x hx j hj => ?_, fun he hns j hj => ?_⟩
    · simp only [update_of_ne (hroster j hj)]
      exact h.rostered j hj
    · simp only [update_of_ne (hjoins j hj)]
      exact h.joined j hj
    · rcases mem_or_eq_of_mem_set hx with hx | rfl
      · obtain ⟨h1, h2⟩ := h.unsent x hx j hj
        have hji : j ≠ i := by
          rintro rfl
          rw [hf] at h1
          cases h1
        simp only [update_of_ne hji]
        exact ⟨h1, h2⟩
      · cases hj
        simp only [update_self]
        exact ⟨trivial, fun hm => hjoins i hm rfl⟩
    · simp only [update_of_ne (hroster j hj)]
      exact h.inside he hns j hj
  | wandered t u hk ht hu =>
    refine { h with unsent := fun x hx j hj => ?_ }
    rcases mem_or_eq_of_mem_set hx with hx | rfl
    · exact h.unsent x hx j hj
    · rw [Taker.seat_of_unsent hj] at hu
      cases hu
  | sent i hk hr =>
    obtain ⟨hc, hnj, hnr⟩ := h.unsent_notMem (mem_of_getElem? hk) rfl
    have hj' : g.pc.inHand ++ (g.queue ++ [i]) = g.joins ++ [i] := (append_assoc _ _ _).symm
    refine ⟨?_, h.rostered, fun j hj => ?_, fun x hx j hj => ?_, h.inside⟩
    · show (g.roster ++ (g.pc.inHand ++ (g.queue ++ [i]))).Nodup
      rw [hj', ← append_assoc]
      refine nodup_append.mpr ⟨h.distinct, by simp, ?_⟩
      intro a ha b hb hab
      rw [mem_singleton] at hb
      subst hb
      subst hab
      rcases mem_append.mp ha with ha | ha
      · exact hnr ha
      · exact hnj ha
    · change j ∈ g.pc.inHand ++ (g.queue ++ [i]) at hj
      rw [hj'] at hj
      rcases mem_append.mp hj with hj | hj
      · exact h.joined j hj
      · rw [mem_singleton] at hj
        subst hj
        exact .inl hc
    · rcases hs.ne_of_unsent hk rfl (by simp [Taker.unsent]) hx hj with ⟨hmem, hji⟩ | rfl
      · obtain ⟨h1, h2⟩ := h.unsent x hmem j hj
        refine ⟨h1, ?_⟩
        show j ∉ g.pc.inHand ++ (g.queue ++ [i])
        rw [hj']
        simp [h2, hji]
      · cases hj
  | unsent i hk hr =>
    refine { h with unsent := fun x hx j hj => ?_ }
    rcases mem_or_eq_of_mem_set hx with hx | rfl
    · exact h.unsent x hx j hj
    · cases hj
      exact h.unsent _ (mem_of_getElem? hk) i rfl
  | gaveBack i hk =>
    obtain ⟨-, hnj, hnr⟩ := h.unsent_notMem (mem_of_getElem? hk) rfl
    exact h.write hs hk rfl rfl (fun hm => absurd hm hnr) (fun hm => absurd hm hnj)
      fun hm => absurd hm hnr

theorem Apart.move_seats (hm : Moves g k g') (j : Place) :
    g'.seats j = g.seats j ∨ g.seats j = .free ∨ g.seats j = .claimed := by
  cases hm with
  | claimed i hk hf =>
    by_cases hji : j = i
    · exact .inr (.inl (hji ▸ hf))
    · exact .inl (update_of_ne hji ..)
  | wandered | sent | unsent => exact .inl rfl
  | gaveBack i hk =>
    by_cases hji : j = i
    · exact .inr (.inr (hji ▸ (h.unsent _ (mem_of_getElem? hk) i rfl).1))
    · exact .inl (update_of_ne hji ..)

theorem Apart.leave (hs : g.Seated) (hok : g.Settled (.leave k))
    (hl : g.leave k = some g') : Apart g' := by
  obtain ⟨i, hk, rfl⟩ := leave_leaves hl
  refine h.write hs hk rfl rfl (fun _ => rfl) (fun hm => ?_) fun _ => ?_
  · rcases hok i hk with hstop | ⟨hst, -⟩
    · exact ⟨hstop, rfl⟩
    · rcases h.joined i hm with he | ⟨-, he⟩ <;> rw [hst] at he <;> cases he
  · exact (hok i hk).symm.imp_left And.right

/-! ## Steps of the stream thread -/

theorem Apart.goto (hrun : g.pc ≠ .stopped) (hseats : g'.seats = g.seats)
    (hroster : g'.roster = g.roster) (hguests : g'.guests = g.guests) (hjoins : g'.joins = g.joins)
    (hinside : g'.pc.encoding = false → g'.pc ≠ .stopped → ∀ j ∈ g.roster, g.seats j ≠ .leaving) :
    Apart g' where
  distinct := by rw [hroster, hjoins]; exact h.distinct
  rostered := by rw [hroster, hseats]; exact h.rostered
  joined j hj := by
    rw [hjoins] at hj
    rw [hseats]
    exact .inl (h.claimed hrun hj)
  unsent := by rw [hguests, hseats, hjoins]; exact h.unsent
  inside := by rw [hroster, hseats]; exact hinside

theorem Apart.promoted (hpc : g.pc = .promoting i) :
    Apart { g with
      seats := update g.seats i .streaming
      roster := g.roster ++ [i]
      pc := .admitting } := by
  have hjoins : g.joins = i :: g.queue := by rw [joins, hpc]; rfl
  have hd := h.distinct
  rw [hjoins] at hd
  have hni : i ∉ g.roster ∧ i ∉ g.queue := by
    rw [nodup_append] at hd
    obtain ⟨-, h1, h2⟩ := hd
    exact ⟨fun hm => h2 i hm i mem_cons_self rfl, (nodup_cons.mp h1).1⟩
  refine ⟨?_, fun j hj => ?_, fun j hj => ?_, fun x hx j hj => ?_, fun he => ?_⟩
  · show ((g.roster ++ [i]) ++ ([] ++ g.queue)).Nodup
    rw [append_assoc]
    exact hd
  · by_cases hji : j = i
    · subst hji
      simp
    · simp only [update_of_ne hji]
      rcases mem_append.mp hj with hj | hj
      · exact h.rostered j hj
      · exact absurd (mem_singleton.mp hj) hji
  · have hj' : j ∈ g.queue := hj
    have hji : j ≠ i := fun he => hni.2 (he ▸ hj')
    simp only [update_of_ne hji]
    exact .inl (h.claimed (by simp [hpc]) (by rw [hjoins]; exact mem_cons_of_mem i hj'))
  · obtain ⟨h1, h2⟩ := h.unsent x hx j hj
    rw [hjoins] at h2
    have hji : j ≠ i := fun he => h2 (he ▸ mem_cons_self)
    simp only [update_of_ne hji]
    exact ⟨h1, fun hm => h2 (mem_cons_of_mem i hm)⟩
  · cases he

theorem Apart.free (hrun : g.pc ≠ .stopped) (hl : g.seats i = .leaving)
    {roster : List Place} {pc : Pc} (hhand : pc.inHand = g.pc.inHand)
    (hroster : ∀ j ∈ roster, j ∈ g.roster ∧ j ≠ i) (hdistinct : (roster ++ g.joins).Nodup)
    (hinside : pc.encoding = false → ∀ j ∈ roster, g.seats j ≠ .leaving) :
    Apart { g with seats := update g.seats i .free, roster := roster, pc := pc } := by
  have hjoins : ({ g with seats := update g.seats i .free, roster := roster, pc := pc } :
      Seating).joins = g.joins := by
    simp [joins, hhand]
  have hne {j : Place} (hc : g.seats j = .claimed) : j ≠ i := by
    rintro rfl
    rw [hl] at hc
    cases hc
  refine ⟨?_, fun j hj => ?_, fun j hj => ?_, fun x hx j hj => ?_, fun he hns j hj => ?_⟩
  · rw [hjoins]
    exact hdistinct
  · simp only [update_of_ne (hroster j hj).2]
    exact h.rostered j (hroster j hj).1
  · rw [hjoins] at hj
    have hc := h.claimed hrun hj
    simp only [update_of_ne (hne hc)]
    exact .inl hc
  · obtain ⟨h1, h2⟩ := h.unsent x hx j hj
    rw [hjoins]
    simp only [update_of_ne (hne h1)]
    exact ⟨h1, h2⟩
  · simp only [update_of_ne (hroster j hj).2]
    exact hinside he j hj

theorem Apart.not_leaving {pc : Pc} (hpc : g.pc = pc) (he : pc.encoding = false)
    (hns : pc ≠ .stopped) : ∀ j ∈ g.roster, g.seats j ≠ .leaving :=
  h.inside (by rw [hpc]; exact he) (by rw [hpc]; exact hns)

theorem Apart.freed (hs : g.Seated) (hpc : g.pc = .freeing i) :
    Apart { g with seats := update g.seats i .free, pc := .retiring (i + 1) } := by
  have hl : g.seats i = .leaving := hs.sees_at hpc
  have hin := h.not_leaving hpc rfl (by simp)
  refine h.free (by simp [hpc]) hl (by rw [hpc]; rfl) (fun j hj => ⟨hj, ?_⟩) h.distinct
    fun _ => hin
  rintro rfl
  exact hin j hj hl

theorem Apart.returned (hs : g.Seated) {n : ℕ} (hpc : g.pc = .returning n)
    (hr : g.roster[n]? = some i) :
    Apart { g with
      seats := update g.seats i .free
      roster := swapRemove g.roster n
      pc := .scanning n } := by
  have hl := hs.returning hpc hr
  have hperm := perm_swapRemove hr
  have hd : (i :: (swapRemove g.roster n ++ g.joins)).Nodup :=
    (hperm.append_right g.joins).nodup_iff.mp h.distinct
  obtain ⟨hnot, hnodup⟩ := nodup_cons.mp hd
  refine h.free (by simp [hpc]) hl (by rw [hpc]; rfl) (fun j hj => ⟨?_, ?_⟩) hnodup
    fun he => by cases he
  · exact hperm.mem_iff.mpr (mem_cons_of_mem i hj)
  · rintro rfl
    exact hnot (mem_append_left _ hj)

theorem Apart.reset (hpc : g.pc = .failed) : Apart { g with roster := [], pc := .retiring 0 } := by
  have hjoins : ({ g with roster := [], pc := .retiring 0 } : Seating).joins = g.joins := by
    simp [joins, hpc, Pc.inHand]
  refine ⟨?_, by simp, fun j hj => ?_, ?_, by simp⟩
  · rw [hjoins]
    exact (nodup_append.mp h.distinct).2.1
  · rw [hjoins] at hj
    exact .inl (h.claimed (by simp [hpc]) hj)
  · rw [hjoins]
    exact h.unsent

theorem Apart.turn (hs : g.Seated) {turn : Turn} (hok : g.Settled (.stream turn))
    (ht : Turns g turn g') : Apart g' := by
  have hrun := ht.running
  have hgoto {pc : Pc} (hhand : pc.inHand = g.pc.inHand)
      (hin : pc.encoding = false → pc ≠ .stopped → ∀ j ∈ g.roster, g.seats j ≠ .leaving) :
      Apart { g with pc := pc } :=
    h.goto hrun rfl rfl rfl (by simp only [joins, hhand]) hin
  cases ht with
  | past i hpc | seen i hpc | retired n hpc | vacant i hpc | found i hpc | nobody n hpc
  | waited hpc | prepared hpc =>
    exact hgoto (by rw [hpc]; rfl) fun _ _ => h.not_leaving hpc rfl (by simp)
  | quit hpc => exact hgoto (by rcases hpc with hpc | hpc <;> rw [hpc] <;> rfl) fun _ hns => absurd rfl hns
  | requested hpc =>
    exact h.goto hrun rfl rfl rfl (by simp only [joins, hpc, Pc.inHand]) fun _ _ =>
      h.not_leaving hpc rfl (by decide)
  | built hpc | began hpc | drained hpc | accepted i hpc | kept n i hpc | noticed n i hpc
  | scanned n hpc | again hpc => exact hgoto (by rw [hpc]; rfl) fun he => by cases he
  | broke hpc =>
    rcases hpc with hpc | ⟨hpc, -⟩
    · exact hgoto (by rw [hpc]; rfl) fun _ _ => h.not_leaving hpc rfl (by decide)
    · exact hgoto (by rw [hpc]; rfl) fun _ _ => hok hpc (by decide)
  | received i rest hpc hq =>
    exact h.goto hrun rfl rfl rfl (by simp only [joins, hpc, hq, Pc.inHand]; rfl)
      fun he => by cases he
  | skipped i hpc hc =>
    exact absurd (h.claimed hrun (by simp [joins, hpc, Pc.inHand])) hc
  | promoted i hpc => exact h.promoted hpc
  | freed i hpc => exact h.freed hs hpc
  | returned n i hpc hr => exact h.returned hs hpc hr
  | rebuilt turn previous hpc hne hturn =>
    exact h.goto hrun rfl rfl rfl (by simp only [joins, hpc, Pc.inHand]) fun _ _ => hok hpc hturn
  | reverted previous hpc hway =>
    exact h.goto hrun rfl rfl rfl (by simp only [joins, hpc, Pc.inHand]) fun _ _ =>
      h.not_leaving hpc rfl (by decide)
  | reset hpc ho hp => exact h.reset hpc

end

theorem apart_start : Apart seating.start :=
  ⟨nodup_nil, by simp [seating], by simp [seating, joins, Pc.inHand], by simp [seating],
    by simp [seating]⟩

theorem Apart.step (h : Apart g) (hs : g.Seated) {a : Action} (hok : g.Settled a)
    (hst : g.step a = some g') : Apart g' := by
  cases a with
  | arrive =>
    cases hst
    exact { h with unsent := forall_mem_concat h.unsent fun j hj => by cases hj }
  | guest k => exact h.move hs (move_moves hst)
  | leave k => exact h.leave hs hok hst
  | stop =>
    cases hst
    exact { h with }
  | stream turn => exact h.turn hs hok (turn_turns hst)

end Seating

namespace Rings

variable {j : Place} {g' : Seating}

/-- **The condition.** A guest leaves while its seat streams in `encode_loop` and the audio thread has
not picked it, or when the stream thread has returned; what runs is left only when nobody of the roster
is leaving, and fails only with a way back or when nobody is streaming. -/
def Tidy (s : Rings) : RingAction → Prop
  | .seat (.leave k) => ∀ i, s.seating.guests[k]? = some (.holding i) →
      s.seating.pc = .stopped ∨
        s.seating.seats i = .streaming ∧ s.seating.pc.encoding = true ∧ s.sound.picks i = false
  | .seat (.stream turn) => s.seating.Orderly (.stream turn) ∧
      (s.seating.pc = .passing → turn ≠ .plain → ∀ i ∈ s.seating.roster, s.seating.seats i ≠ .leaving)
  | _ => True

instance (s : Rings) (a : RingAction) : Decidable (s.Tidy a) :=
  match a with
  | .seat (.leave k) => inferInstanceAs (Decidable (∀ i, s.seating.guests[k]? = some (.holding i) →
      s.seating.pc = .stopped ∨
        s.seating.seats i = .streaming ∧ s.seating.pc.encoding = true ∧ s.sound.picks i = false))
  | .seat (.stream turn) => inferInstanceAs (Decidable (s.seating.Orderly (.stream turn) ∧
      (s.seating.pc = .passing → turn ≠ .plain → ∀ i ∈ s.seating.roster, s.seating.seats i ≠ .leaving)))
  | .seat .arrive | .seat (.guest _) | .seat .stop => isTrue trivial
  | .drain | .deliver _ | .nextFrame _ | .nextAudio _ | .sound _ => isTrue trivial

variable {s s' : Rings} {i : Place} {k : ℕ}

theorem Tidy.orderly {a : Action} (h : s.Tidy (.seat a)) : s.seating.Orderly a := by
  cases a with
  | leave k =>
    intro i hk
    rcases h i hk with hstop | ⟨hst, -⟩
    · exact .inr (.inr hstop)
    · exact .inl hst
  | stream turn => exact h.1
  | arrive | guest k | stop => trivial

theorem Tidy.settled {a : Action} (h : s.Tidy (.seat a)) : s.seating.Settled a := by
  cases a with
  | leave k => exact fun i hk => (h i hk).imp_right fun h => ⟨h.1, h.2.1⟩
  | stream turn => exact h.2
  | arrive | guest k | stop => trivial

/-- The stream thread is between seeing a guest gone and freeing its seat. -/
def Empties (g : Seating) (i : Place) : Prop :=
  g.pc = .freeing i ∨ ∃ n, g.pc = .returning n ∧ g.roster[n]? = some i

theorem Empties.leaving {g : Seating} (h : Empties g i) (hs : g.Seated) : g.seats i = .leaving := by
  rcases h with hpc | ⟨n, hpc, hr⟩
  · exact hs.sees_at hpc
  · exact hs.returning hpc hr

theorem Empties.unique {g : Seating} (h : Empties g i) (hj : Empties g j) : i = j := by
  rcases h with hi | ⟨n, hi, hri⟩ <;> rcases hj with hj | ⟨m, hj, hrj⟩ <;> rw [hi] at hj <;> cases hj
  · rfl
  · exact Option.some.inj (hri.symm.trans hrj)

/-- The rings and the seats are in order. -/
structure Tidied (s : Rings) : Prop where
  seated : s.seating.Seated
  apart : s.seating.Apart
  /-- A seat that nobody streams from has empty rings. -/
  empty : ∀ i, s.seating.seats i = .free ∨ s.seating.seats i = .claimed → s.video i = [] ∧ s.audio i = []
  stamped : ∀ i x, x ∈ s.video i ∨ x ∈ s.audio i → x = s.tenure i
  picked : ∀ i ∈ s.sound.picked,
    s.seating.seats i = .streaming ∨ s.seating.pc = .stopped ∧ s.seating.seats i = .leaving
  draining : ∀ i stage, s.draining = some (i, stage) →
    Empties s.seating i ∧ (stage = .video → s.audio i = [])
  drained : s.draining = none → ∀ i, Empties s.seating i → s.video i = [] ∧ s.audio i = []

/-! ## Steps on the seats -/

theorem Tidied.guest (h : s.Tidied) {tenure : Place → ℕ} {tickets : List ℕ}
    (hseated : g'.Seated) (hapart : g'.Apart) (hpc : g'.pc = s.seating.pc)
    (hroster : g'.roster = s.seating.roster)
    (hempty : ∀ i, g'.seats i = .free ∨ g'.seats i = .claimed →
      s.seating.seats i = .free ∨ s.seating.seats i = .claimed)
    (htenure : ∀ i, tenure i = s.tenure i ∨ s.seating.seats i = .free)
    (hpicked : ∀ i ∈ s.sound.picked, g'.seats i = s.seating.seats i ∨
      s.seating.pc = .stopped ∧ g'.seats i = .leaving) :
    Tidied { s with seating := g', tenure := tenure, tickets := tickets } where
  seated := hseated
  apart := hapart
  empty i hi := h.empty i (hempty i hi)
  stamped i x hx := by
    rcases htenure i with he | hf
    · exact (h.stamped i x hx).trans he.symm
    · obtain ⟨hv, ha⟩ := h.empty i (.inl hf)
      have hx' : x ∈ s.video i ∨ x ∈ s.audio i := hx
      rw [hv, ha] at hx'
      rcases hx' with hx' | hx' <;> cases hx'
  picked i hi := by
    rcases hpicked i hi with he | ⟨hstop, hl⟩
    · rw [he, hpc]
      exact h.picked i hi
    · exact .inr ⟨hpc.trans hstop, hl⟩
  draining := by
    simp only [Empties, hpc, hroster]
    exact h.draining
  drained := by
    simp only [Empties, hpc, hroster]
    exact h.drained

theorem taken_eq (k : ℕ) (g' : Seating) :
    s.taken k g' = { s with
      seating := g'
      tenure := (s.taken k g').tenure
      tickets := (s.taken k g').tickets } := by
  unfold taken
  split <;> rfl

theorem tenure_taken (hm : Seating.Moves s.seating k g') (j : Place) :
    (s.taken k g').tenure j = s.tenure j ∨ s.seating.seats j = .free := by
  have hset {t : Taker} (hk : s.seating.guests[k]? = some t) (u : Taker) :
      (s.seating.guests.set k u)[k]? = some u :=
    getElem?_set_self (List.getElem?_eq_some_iff.mp hk).1
  cases hm with
  | claimed i hk hf =>
    by_cases hji : j = i
    · exact .inr (hji ▸ hf)
    · left
      simp [taken, hk, hset hk, update_of_ne hji]
  | wandered t u hk ht hu =>
    left
    simp only [taken, hk, hset hk]
    cases u with
    | scanning n | gone => cases t <;> rfl
    | sending i | refused i | holding i => cases hu
  | sent i hk hr | unsent i hk hr | gaveBack i hk => exact .inl (by simp only [taken, hk, hset hk])

theorem Tidied.move (h : s.Tidied) (hm : Seating.Moves s.seating k g') : (s.taken k g').Tidied := by
  have hseats := h.apart.move_seats hm
  rw [taken_eq]
  refine h.guest (h.seated.move hm) (h.apart.move h.seated hm) ?_ ?_ (fun j hj => ?_)
    (tenure_taken hm) fun j hj => .inl ?_
  · cases hm <;> rfl
  · cases hm <;> rfl
  · rcases hseats j with he | hold
    · rwa [← he]
    · exact hold
  · rcases hseats j with he | hold
    · exact he
    · rcases h.picked j hj with hp | ⟨-, hp⟩ <;> rw [hp] at hold <;> rcases hold with ho | ho <;> cases ho

theorem Tidied.leave (h : s.Tidied) (hok : s.Tidy (.seat (.leave k)))
    (hl : s.seating.leave k = some g') : Tidied { s with seating := g' } := by
  have hseated := h.seated.leave hok.orderly hl
  have hapart := h.apart.leave h.seated hok.settled hl
  obtain ⟨i, hk, rfl⟩ := Seating.leave_leaves hl
  refine h.guest hseated hapart rfl rfl (fun j hj => ?_) (fun j => .inl rfl) fun j hj => ?_
  · by_cases hji : j = i
    · subst hji
      simp at hj
    · simpa only [update_of_ne hji] using hj
  · by_cases hji : j = i
    · subst hji
      rcases hok j hk with hstop | ⟨-, -, hnot⟩
      · exact .inr ⟨hstop, update_self ..⟩
      · rw [Sound.picks, contains_iff_mem.mpr hj] at hnot
        cases hnot
    · exact .inl (update_of_ne hji ..)

/-! ## Steps of the stream thread -/

theorem followed_eq (g' : Seating) :
    s.followed g' = { s with
      seating := g'
      tickets := (s.followed g').tickets
      draining := (s.followed g').draining
      stamps := (s.followed g').stamps } := by
  unfold followed
  split <;> rfl

theorem draining_followed {turn : Turn} (hd : s.draining = none)
    (hapart : s.seating.Apart) (ht : Seating.Turns s.seating turn g') :
    (∃ i, (s.followed g').draining = some (i, .audio) ∧ Empties g' i) ∨
      (s.followed g').draining = none ∧ ∀ i, ¬ Empties g' i := by
  have hrun := ht.running
  cases ht with
  | seen i hpc hl => exact .inl ⟨i, by simp [followed, hpc], .inl rfl⟩
  | noticed n i hpc hr hl =>
    exact .inl ⟨i, by simp [followed, hpc, hr], .inr ⟨n, rfl, hr⟩⟩
  | skipped i hpc hc =>
    -- a join stands for a seat that is claimed
    exact absurd (hapart.claimed hrun (by simp [Seating.joins, hpc, Pc.inHand])) hc
  | quit hpc =>
    refine .inr ⟨?_, by simp [Empties]⟩
    rcases hpc with hpc | hpc <;> simp only [followed, hpc, hd]
  | broke hpc =>
    refine .inr ⟨?_, by simp [Empties]⟩
    rcases hpc with hpc | ⟨hpc, -⟩ <;> simp only [followed, hpc, hd]
  | _ => exact .inr ⟨by simp only [followed, *], by simp [Empties]⟩

theorem seats_turn {turn : Turn} (ht : Seating.Turns s.seating turn g') (j : Place) :
    g'.seats j = s.seating.seats j ∨ Empties s.seating j ∨ g'.seats j = .streaming := by
  cases ht with
  | freed i hpc =>
    by_cases hji : j = i
    · exact .inr (.inl (.inl (hji ▸ hpc)))
    · exact .inl (update_of_ne hji ..)
  | promoted i hpc =>
    by_cases hji : j = i
    · subst hji
      exact .inr (.inr (update_self ..))
    · exact .inl (update_of_ne hji ..)
  | returned n i hpc hr =>
    by_cases hji : j = i
    · exact .inr (.inl (.inr ⟨n, hpc, hji ▸ hr⟩))
    · exact .inl (update_of_ne hji ..)
  | _ => exact .inl rfl

theorem Tidied.turn (h : s.Tidied) (hd : s.draining = none) {turn : Turn}
    (hok : s.Tidy (.seat (.stream turn))) (ht : Seating.Turns s.seating turn g') :
    (s.followed g').Tidied := by
  have hseats := seats_turn ht
  rw [followed_eq]
  refine ⟨h.seated.turn hok.orderly ht, h.apart.turn h.seated hok.settled ht, fun j hj => ?_,
    h.stamped, fun j hj => .inl ?_, fun j stage hj => ?_, fun hn j hj => ?_⟩
  · rcases hseats j with he | he | he
    · exact h.empty j (he ▸ hj)
    · exact h.drained hd j he
    · rw [he] at hj
      rcases hj with hj | hj <;> cases hj
  · have hst : s.seating.seats j = .streaming :=
      (h.picked j hj).resolve_right fun hstop => ht.running hstop.1
    rcases hseats j with he | he | he
    · exact he.trans hst
    · rw [he.leaving h.seated] at hst
      cases hst
    · exact he
  · rcases draining_followed hd h.apart ht with ⟨i, hi, he⟩ | ⟨hi, -⟩
    · cases hi.symm.trans hj
      exact ⟨he, nofun⟩
    · cases hi.symm.trans hj
  · rcases draining_followed hd h.apart ht with ⟨i, hi, -⟩ | ⟨-, hi⟩
    · cases hi.symm.trans hn
    · exact absurd hj (hi j)

/-! ## Steps on the rings -/

theorem Tidied.pop (h : s.Tidied) {video audio : Place → List ℕ} {draining : Option (Place × Stage)}
    (hv : ∀ i, video i ⊆ s.video i) (ha : ∀ i, audio i ⊆ s.audio i)
    (hdraining : ∀ i stage, draining = some (i, stage) →
      Empties s.seating i ∧ (stage = .video → audio i = []))
    (hdrained : draining = none → ∀ i, Empties s.seating i → video i = [] ∧ audio i = []) :
    Tidied { s with video := video, audio := audio, draining := draining } where
  __ := h
  empty i hi := by
    obtain ⟨h1, h2⟩ := h.empty i hi
    exact ⟨eq_nil_of_subset_nil (h1 ▸ hv i), eq_nil_of_subset_nil (h2 ▸ ha i)⟩
  stamped i x hx := h.stamped i x (hx.imp (fun hx => hv i hx) fun hx => ha i hx)
  draining := hdraining
  drained := hdrained

theorem Tidied.next (h : s.Tidied) {video audio : Place → List ℕ}
    (hv : ∀ i, video i ⊆ s.video i) (ha : ∀ i, audio i ⊆ s.audio i) :
    Tidied { s with video := video, audio := audio } := by
  refine h.pop hv ha (fun i stage hi => ?_) fun hn i hi => ?_
  · obtain ⟨he, hempty⟩ := h.draining i stage hi
    exact ⟨he, fun hst => eq_nil_of_subset_nil (hempty hst ▸ ha i)⟩
  · obtain ⟨h1, h2⟩ := h.drained hn i hi
    exact ⟨eq_nil_of_subset_nil (h1 ▸ hv i), eq_nil_of_subset_nil (h2 ▸ ha i)⟩

variable {ring : Place → List ℕ}

theorem update_subset {l : List ℕ} (h : l ⊆ ring i) (j : Place) :
    update ring i l j ⊆ ring j := by
  by_cases hji : j = i
  · subst hji
    rwa [update_self]
  · rw [update_of_ne hji]
    exact fun _ hx => hx

theorem Tidied.drain (h : s.Tidied) (hd : s.drain = some s') : s'.Tidied := by
  unfold Rings.drain at hd
  split at hd
  · cases hd
  · next i hi =>
    have hsame (j : Place) : s.video j ⊆ s.video j := fun _ hx => hx
    split at hd
    · next hnil =>
      cases hd
      refine h.pop hsame (fun _ _ hx => hx) (fun j stage hj => ?_) nofun
      cases hj
      exact ⟨(h.draining i .audio hi).1, fun _ => hnil⟩
    · next x rest hcons =>
      cases hd
      refine h.next hsame (update_subset ?_)
      rw [hcons]
      exact subset_cons_self x rest
  · next i hi =>
    have hsame (j : Place) : s.audio j ⊆ s.audio j := fun _ hx => hx
    split at hd
    · next hnil =>
      cases hd
      obtain ⟨he, haudio⟩ := h.draining i .video hi
      refine h.pop (fun _ _ hx => hx) hsame nofun fun _ j hj => ?_
      obtain rfl := he.unique hj
      exact ⟨hnil, haudio rfl⟩
    · next x rest hcons =>
      cases hd
      refine h.next (update_subset ?_) hsame
      rw [hcons]
      exact subset_cons_self x rest

theorem mem_push {depth : ℕ} {x : ℕ}
    (hx : x ∈ s.push depth ring i j) : x ∈ ring j ∨ x = s.tenure j := by
  unfold push at hx
  split_ifs at hx
  · by_cases hji : j = i
    · subst hji
      rw [update_self] at hx
      exact (mem_append.mp hx).imp_right mem_singleton.mp
    · rw [update_of_ne hji] at hx
      exact .inl hx
  · exact .inl hx

theorem push_of_ne {depth : ℕ} (hji : j ≠ i) :
    s.push depth ring i j = ring j := by
  unfold push
  split_ifs
  · rw [update_of_ne hji]
  · rfl

theorem Tidied.pushed (h : s.Tidied) {video audio : Place → List ℕ} {sound : Sound}
    (hopen : s.seating.seats i = .streaming ∨ s.seating.seats i = .leaving ∧ ¬ Empties s.seating i)
    (hother : ∀ j, j ≠ i → video j = s.video j ∧ audio j = s.audio j)
    (hstamped : ∀ j x, x ∈ video j ∨ x ∈ audio j → x = s.tenure j)
    (hpicked : sound.picked ⊆ s.sound.picked) :
    Tidied { s with video := video, audio := audio, sound := sound } := by
  have hempties : ∀ j, Empties s.seating j → j ≠ i := by
    rintro j hj rfl
    rcases hopen with hst | ⟨-, hnot⟩
    · rw [hj.leaving h.seated] at hst
      cases hst
    · exact hnot hj
  refine ⟨h.seated, h.apart, fun j hj => ?_, hstamped, fun j hj => h.picked j (hpicked hj),
    fun j stage hj => ?_, fun hn j hj => ?_⟩
  · have hji : j ≠ i := by
      rintro rfl
      rcases hopen with he | ⟨he, -⟩ <;> rw [he] at hj <;> rcases hj with hj | hj <;> cases hj
    show video j = [] ∧ audio j = []
    rw [(hother j hji).1, (hother j hji).2]
    exact h.empty j hj
  · obtain ⟨he, haudio⟩ := h.draining j stage hj
    refine ⟨he, fun hst => ?_⟩
    show audio j = []
    rw [(hother j (hempties j he)).2]
    exact haudio hst
  · show video j = [] ∧ audio j = []
    rw [(hother j (hempties j hj)).1, (hother j (hempties j hj)).2]
    exact h.drained hn j hj

theorem Tidied.deliver (h : s.Tidied) (hpc : s.seating.pc = .passing) (hi : i ∈ s.seating.roster) :
    Tidied { s with video := s.push PUBLISH_DEPTH s.video i } := by
  refine h.pushed (i := i) ?_ (fun j hj => ⟨push_of_ne hj, rfl⟩) (fun j x hx => ?_) fun _ hx => hx
  · refine (h.apart.rostered i hi).imp_right fun hl => ⟨hl, ?_⟩
    simp [Empties, hpc]
  · rcases hx with hx | hx
    · exact (mem_push hx).elim (fun hx => h.stamped j x (.inl hx)) id
    · exact h.stamped j x (.inr hx)

theorem Tidied.heard (h : s.Tidied) {sound : Sound}
    (hpicked : ∀ i ∈ sound.picked, i ∈ s.sound.picked ∨ s.seating.seats i = .streaming) :
    Tidied { s with sound := sound } :=
  { h with picked := fun i hi => (hpicked i hi).elim (h.picked i) .inl }

theorem Tidied.listen (h : s.Tidied) (listens : Bool) : (s.listen listens).Tidied := by
  unfold Rings.listen
  split
  · exact h.heard nofun
  · next n picked hsound =>
    have hold : s.sound.picked = picked := by rw [hsound]; rfl
    split_ifs with hn hst
    · refine h.heard fun i hi => ?_
      rcases mem_append.mp hi with hi | hi
      · exact .inl (hold ▸ hi)
      · exact .inr (mem_singleton.mp hi ▸ hst.1)
    · exact h.heard fun i hi => .inl (hold ▸ hi)
    · exact h.heard fun i hi => .inl (hold ▸ hi)
  · exact h.heard nofun
  · next i rest hsound =>
    have hold : s.sound.picked = i :: rest := by rw [hsound]; rfl
    refine h.pushed (i := i) ?_ (fun j hj => ⟨rfl, push_of_ne hj⟩) (fun j x hx => ?_) ?_
    · refine (h.picked i (hold ▸ mem_cons_self)).imp_right fun hl => ⟨hl.2, ?_⟩
      simp [Empties, hl.1]
    · rcases hx with hx | hx
      · exact h.stamped j x (.inl hx)
      · exact (mem_push hx).elim (fun hx => h.stamped j x (.inr hx)) id
    · rw [hold]
      exact subset_cons_self i rest

/-! ## Runs -/

theorem tidied_start : ringing.start.Tidied where
  seated := Seating.seated_start
  apart := Seating.apart_start
  empty _ _ := ⟨rfl, rfl⟩
  stamped _ _ := by rintro (hx | hx) <;> cases hx
  picked := nofun
  draining := nofun
  drained _ _ _ := ⟨rfl, rfl⟩

theorem Tidied.step (h : s.Tidied) {a : RingAction} (hok : s.Tidy a) (hst : s.step a = some s') :
    s'.Tidied := by
  cases a with
  | seat b =>
    cases b with
    | stream turn =>
      simp only [Rings.step] at hst
      split_ifs at hst with hd
      obtain ⟨g', hg, rfl⟩ := Option.map_eq_some_iff.mp hst
      exact h.turn hd hok (Seating.turn_turns hg)
    | guest k =>
      obtain ⟨g', hg, rfl⟩ := Option.map_eq_some_iff.mp hst
      exact h.move (Seating.move_moves hg)
    | leave k =>
      obtain ⟨g', hg, rfl⟩ := Option.map_eq_some_iff.mp hst
      exact h.leave hok hg
    | arrive | stop =>
      cases hst
      exact h.guest (h.seated.step hok.orderly rfl) (h.apart.step h.seated hok.settled rfl) rfl rfl
        (fun j hj => hj) (fun j => .inl rfl) fun j _ => .inl rfl
  | drain => exact h.drain hst
  | deliver i =>
    simp only [Rings.step] at hst
    split_ifs at hst with hi
    cases hst
    exact h.deliver hi.1 (contains_iff_mem.mp hi.2)
  | nextFrame k =>
    simp only [Rings.step] at hst
    split at hst <;> cases hst
    exact h.next (update_subset (tail_sublist _).subset) fun _ _ hx => hx
  | nextAudio k =>
    simp only [Rings.step] at hst
    split at hst <;> cases hst
    exact h.next (fun _ _ hx => hx) (update_subset (tail_sublist _).subset)
  | sound listens =>
    cases hst
    exact h.listen listens

theorem tidied (h : ringing.ReachVia Tidy s) : s.Tidied :=
  h.invariant tidied_start fun _ _ _ hs hok hst => hs.step hok hst

theorem map_fst_zip_sublist {α β : Type} (l : List α) (m : List β) :
    ((l.zip m).map Prod.fst).Sublist l := by
  induction l generalizing m with
  | nil => simp
  | cons x l ih =>
    cases m with
    | nil => simp
    | cons y m =>
      exact (ih m).cons_cons x

/-- **A guest finds only what was published for it, is the only one to pop, and has one entry.** -/
theorem clean (h : ringing.ReachVia Tidy s) : s.Clean := by
  have ht := tidied h
  refine ⟨fun k i _ x hx => ht.stamped i x hx, fun k i hk stage hd => ?_, ?_⟩
  · have hl := (ht.draining i stage hd).1.leaving ht.seated
    exact ht.seated.not_owned (.inr hl) ⟨k, seatOf_of hk⟩
  · refine List.Nodup.of_map Prod.fst ?_
    rw [occupations, map_append]
    exact ht.apart.distinct.sublist
      ((map_fst_zip_sublist _ _).append (map_fst_zip_sublist _ _))

open Seating (front arrival)

def plain (n : ℕ) : List RingAction := replicate n (.seat (.stream .plain))

def succession : List RingAction := [.seat .arrive, .seat (.guest 1), .seat (.guest 1)]

theorem clean_handover :
    ∃ s, ringing.ReachVia Tidy s ∧ s.seating.guests = [.gone, .holding front] ∧
      s.tenure front = 2 ∧ s.video front = [2] ∧ s.Clean := by
  obtain ⟨s, hs, hguests, htenure, hvideo⟩ := ringing.exists_reachVia Tidy
    ((arrival 27).map .seat ++ [.deliver front, .seat (.leave 0)] ++ plain 4 ++
      replicate 3 .drain ++ plain 1 ++ succession ++ plain 9 ++ [.deliver front])
    (fun s => s.seating.guests = [.gone, .holding front] ∧ s.tenure front = 2 ∧ s.video front = [2])
    (by decide +kernel)
  exact ⟨s, hs, hguests, htenure, hvideo, clean hs⟩

/-- **Three ways to disturb the next guest of a seat**: sound pushed after the seat was freed, an
old join that admits the next guest, an entry kept across a rebuild. -/
theorem unclean :
    (∃ s, ringing.Reach s ∧ s.seating.guests[1]? = some (.holding front) ∧
      s.audio front = [1] ∧ s.tenure front = 2) ∧
    (∃ s, ringing.Reach s ∧ s.seating.guests[1]? = some (.holding front) ∧
      s.draining = some (front, .audio)) ∧
    (∃ s, ringing.Reach s ∧ s.seating.guests[1]? = some (.holding front) ∧
      s.seating.roster = [front, front]) ∧
    ∃ s, ringing.Reach s ∧ s.occupations = [(front, 2), (front, 2)] := by
  refine ⟨?_, ?_, ?_, ?_⟩
  · exact ringing.exists_reachVia (fun _ _ => True)
      ((arrival 24).map .seat ++ replicate 18 (.sound true) ++ [.seat (.leave 0)] ++ plain 2 ++
        [.drain, .drain] ++ plain 1 ++ [.sound true] ++ succession)
      (fun s => s.seating.guests[1]? = some (.holding front) ∧ s.audio front = [1] ∧
        s.tenure front = 2) (by decide +kernel)
  · exact ringing.exists_reachVia (fun _ _ => True)
      ((arrival 0).map .seat ++ [.seat (.leave 0)] ++ plain 1 ++ [.drain, .drain] ++ plain 1 ++
        succession ++ plain 25)
      (fun s => s.seating.guests[1]? = some (.holding front) ∧ s.draining = some (front, .audio))
      (by decide +kernel)
  · exact ringing.exists_reachVia (fun _ _ => True)
      ((arrival 27).map .seat ++ [.seat (.leave 0), .seat (.stream .reconfigure)] ++ plain 1 ++
        [.drain, .drain] ++ plain 1 ++ succession ++ plain 23)
      (fun s => s.seating.guests[1]? = some (.holding front) ∧ s.seating.roster = [front, front])
      (by decide +kernel)
  · exact ringing.exists_reachVia (fun _ _ => True)
      ((arrival 0).map .seat ++ [.seat (.leave 0)] ++ plain 1 ++ [.drain, .drain] ++ plain 1 ++
        succession ++ plain 23)
      (fun s => s.occupations = [(front, 2), (front, 2)]) (by decide +kernel)

end Rings

end OpenStream.Host
