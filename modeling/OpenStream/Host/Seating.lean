import OpenStream.Host.Seats

/-!
# Who has a seat

* **`Seating.seated`**: in an orderly run, each seat taken is one guest's, and known to the stream.
* **`Seating.leaks`**: in others, seats are lost.
-/

namespace OpenStream.Host

open Function Runs List

/-! ## Ownership -/

section

variable {l : List Taker} {k j : ℕ} {t u : Taker}

def seatOf (l : List Taker) (k : ℕ) : Option Place := l[k]?.bind Taker.seat

theorem seatOf_set (h : l[k]? = some t) (u : Taker) (j : ℕ) :
    seatOf (l.set k u) j = if j = k then u.seat else seatOf l j := by
  have hk : k < l.length := (List.getElem?_eq_some_iff.mp h).1
  unfold seatOf
  split_ifs with hj
  · subst hj
    rw [List.getElem?_set_self hk]
    rfl
  · rw [List.getElem?_set_ne (Ne.symm hj)]

theorem seatOf_of (h : l[k]? = some t) : seatOf l k = t.seat := by
  rw [seatOf, h]
  rfl

theorem seatOf_append (h : u.seat = none) (j : ℕ) : seatOf (l ++ [u]) j = seatOf l j := by
  unfold seatOf
  by_cases hj : j < l.length
  · rw [getElem?_append_left hj]
  · rw [getElem?_append_right (Nat.le_of_not_lt hj), getElem?_eq_none (Nat.le_of_not_lt hj)]
    cases hx : [u][j - l.length]? with
    | none => rfl
    | some x =>
      obtain rfl := mem_singleton.mp (mem_of_getElem? hx)
      exact h

theorem mem_set_of_ne (h : t ∈ l) (hk : l[k]? ≠ some t) (u : Taker) : t ∈ l.set k u := by
  obtain ⟨j, hj⟩ := mem_iff_getElem?.mp h
  refine mem_iff_getElem?.mpr ⟨j, ?_⟩
  rw [getElem?_set_ne, hj]
  rintro rfl
  exact hk hj

end

/-- The join that the stream thread has received and not yet dealt with. -/
def Pc.inHand : Pc → List Place
  | .joining i => [i]
  | .promoting i => [i]
  | _ => []

/-- The waiting loop still comes by a seat. -/
def Pc.visits (i : Place) : Pc → Prop
  | .retiring n => n ≤ i
  | .freeing j => j ≤ i
  | _ => False

instance (i : Place) (pc : Pc) : Decidable (pc.visits i) := by
  cases pc <;> unfold Pc.visits <;> infer_instance

namespace Seating

def joins (g : Seating) : List Place := g.pc.inHand ++ g.queue

/-- What the stream thread relies on from its last load. -/
def Sees (g : Seating) : Pc → Prop
  | .promoting i => g.seats i = .claimed
  | .freeing i => g.seats i = .leaving
  | .returning n => ∃ i, g.roster[n]? = some i ∧ g.seats i = .leaving
  | .failed => g.previousOutput = false → g.previous = false → ∀ i, g.seats i ≠ .streaming
  | .stopped => g.stopping = true
  | _ => True

/-- The seats are in order. -/
structure Seated (g : Seating) : Prop where
  owned : ∀ i, g.seats i = .claimed ∨ g.seats i = .streaming ↔ ∃ k, seatOf g.guests k = some i
  unique : ∀ k l i, seatOf g.guests k = some i → seatOf g.guests l = some i → k = l
  pending : g.pc ≠ .stopped → ∀ i, g.seats i = .claimed → .sending i ∈ g.guests ∨ i ∈ g.joins
  listed : ∀ i, g.seats i = .streaming → i ∈ g.roster
  leaving : g.pc ≠ .stopped → ∀ i, g.seats i = .leaving → i ∈ g.roster ∨ g.pc.visits i
  sees : g.Sees g.pc
  refused : ∀ i, .refused i ∈ g.guests → g.pc = .stopped

/-- **The condition.** A guest leaves when its seat is streaming or the waiting loop still comes by it,
and what runs fails only with a way back or when nobody is streaming. -/
def Orderly (g : Seating) : Action → Prop
  | .leave k => ∀ i, g.guests[k]? = some (.holding i) →
      g.seats i = .streaming ∨ g.pc.visits i ∨ g.pc = .stopped
  | .stream .failed => g.previousOutput = false → g.previous = false → ∀ i, g.seats i ≠ .streaming
  | _ => True

instance (g : Seating) (a : Action) : Decidable (g.Orderly a) := by
  cases a with
  | leave k => unfold Orderly; infer_instance
  | stream turn => cases turn <;> unfold Orderly <;> infer_instance
  | arrive => exact isTrue trivial
  | guest k => exact isTrue trivial
  | stop => exact isTrue trivial

variable {g g' : Seating} {i : Place} {k : ℕ} {v : SeatState} {pc : Pc}

theorem Sees.mono (h : g.Sees pc) (hroster : g'.roster = g.roster) (hprev : g'.previous = g.previous)
    (hout : g'.previousOutput = g.previousOutput) (hstop : g.stopping = true → g'.stopping = true)
    (hclaimed : ∀ j, pc = .promoting j → g.seats j = .claimed → g'.seats j = .claimed)
    (hleaving : ∀ j, g.seats j = .leaving → g'.seats j = .leaving)
    (hstreaming : ∀ j, g'.seats j = .streaming → g.seats j = .streaming) : g'.Sees pc := by
  cases pc with
  | promoting j => exact hclaimed j rfl h
  | freeing j => exact hleaving j h
  | returning n =>
    obtain ⟨j, hj, hl⟩ := h
    exact ⟨j, by rw [hroster]; exact hj, hleaving j hl⟩
  | failed =>
    intro ho hp j hj
    exact h (by rw [← hout]; exact ho) (by rw [← hprev]; exact hp) j (hstreaming j hj)
  | stopped => exact hstop h
  | _ => trivial

theorem Seated.sees_at (h : g.Seated) (hpc : g.pc = pc) : g.Sees pc := hpc ▸ h.sees

theorem Seated.returning (h : g.Seated) {n : ℕ} (hpc : g.pc = .returning n)
    (hr : g.roster[n]? = some i) : g.seats i = .leaving := by
  obtain ⟨j, hj, hl⟩ := h.sees_at hpc
  rwa [Option.some.inj (hr.symm.trans hj)]

/-! ## Steps of guests -/

section

variable (h : g.Seated)

include h

theorem Seated.not_owned (hf : g.seats i = .free ∨ g.seats i = .leaving) :
    ¬ ∃ k, seatOf g.guests k = some i := by
  rw [← h.owned]
  rcases hf with hf | hf <;> simp [hf]

theorem Seated.arrive : Seated { g with guests := g.guests ++ [.scanning 0] } := by
  have hseat (j : ℕ) : seatOf (g.guests ++ [.scanning 0]) j = seatOf g.guests j := seatOf_append rfl j
  refine ⟨fun i => ?_, fun k l i => ?_, fun hr i hi => ?_, h.listed, h.leaving, h.sees, fun i hi => ?_⟩
  · simp only [hseat]
    exact h.owned i
  · simp only [hseat]
    exact h.unique k l i
  · exact (h.pending hr i hi).imp_left (mem_append_left _)
  · rcases mem_append.mp hi with hi | hi
    · exact h.refused i hi
    · cases mem_singleton.mp hi

theorem Seated.owned_set {t u : Taker} {j : Place} (hk : g.guests[k]? = some t)
    (ht : t.seat ≠ some j) (hu : u.seat ≠ some j) :
    g.seats j = .claimed ∨ g.seats j = .streaming ↔
      ∃ l, seatOf (g.guests.set k u) l = some j := by
  rw [h.owned j]
  refine exists_congr fun l => ?_
  rw [seatOf_set hk]
  by_cases hlk : l = k
  · subst hlk
    rw [if_pos rfl, seatOf_of hk]
    exact iff_of_false ht hu
  · rw [if_neg hlk]

theorem Seated.claimed (hk : g.guests[k]? = some (.scanning i)) (hf : g.seats i = .free) :
    Seated { g with
      seats := update g.seats i .claimed
      guests := g.guests.set k (.sending i) } := by
  have hnone := h.not_owned (.inl hf)
  have hlen : k < g.guests.length := (List.getElem?_eq_some_iff.mp hk).1
  have hne {j : Place} (hj : g.seats j ≠ .free) : j ≠ i := fun he => hj (he ▸ hf)
  refine ⟨fun j => ?_, fun l m j hl hm => ?_, fun hr j hj => ?_, fun j hj => ?_, fun hr j hj => ?_,
    h.sees.mono rfl rfl rfl id (fun j _ hj => ?_) (fun j hj => ?_) fun j hj => ?_, fun j hj => ?_⟩
  · by_cases hji : j = i
    · subst hji
      simp only [update_self, true_or, true_iff]
      exact ⟨k, by rw [seatOf_set hk, if_pos rfl]; rfl⟩
    · simp only [update_of_ne hji]
      exact h.owned_set hk nofun fun he => hji (Option.some.inj he).symm
  · dsimp only at hl hm
    rw [seatOf_set hk] at hl hm
    split_ifs at hl hm with hlk hmk hmk
    · exact hlk.trans hmk.symm
    · cases hl
      exact absurd ⟨m, hm⟩ hnone
    · cases hm
      exact absurd ⟨l, hl⟩ hnone
    · exact h.unique l m j hl hm
  · obtain ⟨rfl, -⟩ | ⟨-, hj⟩ := update_cases hj
    · exact .inl (List.mem_iff_getElem?.mpr ⟨k, List.getElem?_set_self hlen⟩)
    · refine (h.pending hr j hj).imp_left fun hs => mem_set_of_ne hs ?_ _
      rw [hk]
      simp
  · obtain ⟨-, ⟨⟩⟩ | ⟨-, hj⟩ := update_cases hj
    exact h.listed j hj
  · obtain ⟨-, ⟨⟩⟩ | ⟨-, hj⟩ := update_cases hj
    exact h.leaving hr j hj
  · exact (update_of_ne (hne (by rw [hj]; decide)) _ _).trans hj
  · exact (update_of_ne (hne (by rw [hj]; decide)) _ _).trans hj
  · obtain ⟨-, ⟨⟩⟩ | ⟨-, hj⟩ := update_cases hj
    exact hj
  · rcases List.mem_or_eq_of_mem_set hj with hj | hj
    · exact h.refused j hj
    · cases hj

theorem Seated.same_seat {t u : Taker} {queue : List Place}
    (hk : g.guests[k]? = some t) (hseat : u.seat = t.seat) (hqueue : ∀ j ∈ g.queue, j ∈ queue)
    (hsent : g.pc ≠ .stopped → ∀ j, t = .sending j → j ∈ queue)
    (hrefused : ∀ j, u = .refused j → g.pc = .stopped) :
    Seated { g with queue := queue, guests := g.guests.set k u } := by
  have hsame (l : ℕ) : seatOf (g.guests.set k u) l = seatOf g.guests l := by
    rw [seatOf_set hk]
    split_ifs with hlk
    · rw [hlk, seatOf_of hk, hseat]
    · rfl
  refine ⟨fun j => ?_, fun l m j => ?_, fun hr j hj => ?_, h.listed, h.leaving,
    h.sees.mono rfl rfl rfl id (fun _ _ => id) (fun _ => id) fun _ => id, fun j hj => ?_⟩
  · simp only [hsame]
    exact h.owned j
  · simp only [hsame]
    exact h.unique l m j
  · rcases h.pending hr j hj with hs | hs
    · by_cases ht : t = .sending j
      · exact .inr (mem_append_right _ (hsent hr j ht))
      · refine .inl (mem_set_of_ne hs ?_ _)
        rw [hk]
        exact fun he => ht (Option.some.inj he)
    · refine .inr ?_
      rcases mem_append.mp hs with hs | hs
      · exact mem_append_left _ hs
      · exact mem_append_right _ (hqueue j hs)
  · rcases mem_or_eq_of_mem_set hj with hj | hj
    · exact h.refused j hj
    · exact hrefused j hj.symm

theorem Seated.release {t : Taker} (hk : g.guests[k]? = some t) (hseat : t.seat = some i)
    (hns : g.pc ≠ .stopped → ∀ j, t ≠ .sending j) (hv : v = .free ∨ v = .leaving)
    (hback : v = .leaving → g.pc ≠ .stopped → i ∈ g.roster ∨ g.pc.visits i)
    (hpromoting : g.pc ≠ .promoting i) :
    Seated { g with seats := update g.seats i v, guests := g.guests.set k .gone } := by
  have hown : seatOf g.guests k = some i := (seatOf_of hk).trans hseat
  have hwas := (h.owned i).mpr ⟨k, hown⟩
  have hv' : v ≠ .claimed ∧ v ≠ .streaming := by rcases hv with rfl | rfl <;> decide
  refine ⟨fun j => ?_, fun l m j hl hm => ?_, fun hr j hj => ?_, fun j hj => ?_, fun hr j hj => ?_,
    h.sees.mono rfl rfl rfl id (fun j hp hj => ?_) (fun j hj => ?_) fun j hj => ?_, fun j hj => ?_⟩
  · by_cases hji : j = i
    · subst hji
      simp only [update_self, hv', or_self, false_iff, not_exists]
      intro l hl
      rw [seatOf_set hk] at hl
      split_ifs at hl with hlk
      · cases hl
      · exact hlk (h.unique l k j hl hown)
    · simp only [update_of_ne hji]
      exact h.owned_set hk (hseat ▸ fun he => hji (Option.some.inj he).symm) nofun
  · dsimp only at hl hm
    rw [seatOf_set hk] at hl hm
    split_ifs at hl hm with hlk hmk hmk
    · exact hlk.trans hmk.symm
    · cases hl
    · cases hm
    · exact h.unique l m j hl hm
  · obtain ⟨-, he⟩ | ⟨-, hj⟩ := update_cases hj
    · exact absurd he hv'.1
    · refine (h.pending hr j hj).imp_left fun hs => mem_set_of_ne hs ?_ _
      rw [hk]
      exact fun he => hns hr j (Option.some.inj he)
  · obtain ⟨-, he⟩ | ⟨-, hj⟩ := update_cases hj
    · exact absurd he hv'.2
    · exact h.listed j hj
  · obtain ⟨rfl, he⟩ | ⟨-, hj⟩ := update_cases hj
    · exact hback he hr
    · exact h.leaving hr j hj
  · have hji : j ≠ i := fun he => hpromoting (he ▸ hp)
    exact (update_of_ne hji _ _).trans hj
  · have hji : j ≠ i := by
      rintro rfl
      rw [hj] at hwas
      simp at hwas
    exact (update_of_ne hji _ _).trans hj
  · obtain ⟨-, he⟩ | ⟨-, hj⟩ := update_cases hj
    · exact absurd he hv'.2
    · exact hj
  · rcases mem_or_eq_of_mem_set hj with hj | hj
    · exact h.refused j hj
    · cases hj

theorem Seated.move (hm : Moves g k g') : g'.Seated := by
  cases hm with
  | claimed i hk hf => exact h.claimed hk hf
  | wandered t u hk ht hu =>
    refine h.same_seat hk (hu.trans ht.symm) (fun _ hj => hj) (fun _ j he => ?_) fun j he => ?_
    · subst he
      cases ht
    · subst he
      cases hu
  | sent i hk hr =>
    refine h.same_seat hk rfl (fun j hj => mem_append_left _ hj) (fun _ j he => ?_)
      nofun
    cases he
    exact mem_append_right _ mem_cons_self
  | unsent i hk hr =>
    exact h.same_seat hk rfl (fun _ hj => hj) (absurd hr) fun _ _ => hr
  | gaveBack i hk =>
    have hstopped := h.refused i (mem_of_getElem? hk)
    refine h.release hk rfl (nofun) (.inl rfl) (nofun) ?_
    rw [hstopped]
    exact nofun

theorem Seated.leave (hok : g.Orderly (.leave k)) (hl : g.leave k = some g') : g'.Seated := by
  obtain ⟨i, hk, rfl⟩ := leave_leaves hl
  have hwhere := hok i hk
  refine h.release hk rfl (nofun) (.inr rfl) (fun _ hr => ?_) fun hp => ?_
  · rcases hwhere with hs | hv | hstop
    · exact .inl (h.listed i hs)
    · exact .inr hv
    · exact absurd hstop hr
  · have hclaimed : g.seats i = .claimed := h.sees_at hp
    rw [hclaimed, hp] at hwhere
    rcases hwhere with hs | hv | hstop
    · cases hs
    · exact hv
    · cases hstop

/-! ## Steps of the stream thread -/

theorem Seated.goto (hrun : g.pc ≠ .stopped) (hseats : g'.seats = g.seats)
    (hroster : g'.roster = g.roster) (hguests : g'.guests = g.guests)
    (hjoins : g'.pc ≠ .stopped → ∀ j, g.seats j = .claimed → j ∈ g.joins → j ∈ g'.joins)
    (hvisits : ∀ j, g.seats j = .leaving → g.pc.visits j → g'.pc.visits j)
    (hsees : g'.Sees g'.pc) : g'.Seated := by
  refine ⟨?_, ?_, fun hr j hj => ?_, ?_, fun hr j hj => ?_, hsees, fun j hj => ?_⟩
  · rw [hseats, hguests]
    exact h.owned
  · rw [hguests]
    exact h.unique
  · rw [hseats] at hj
    rw [hguests]
    exact (h.pending hrun j hj).imp_right (hjoins hr j hj)
  · rw [hseats, hroster]
    exact h.listed
  · rw [hseats] at hj
    rw [hroster]
    exact (h.leaving hrun j hj).imp_right (hvisits j hj)
  · rw [hguests] at hj
    exact absurd (h.refused j hj) hrun

theorem Seated.free (hrun : g.pc ≠ .stopped) (hl : g.seats i = .leaving)
    {roster : List Place} (hroster : ∀ j ∈ g.roster, j ≠ i → j ∈ roster) (hhand : g.pc.inHand = [])
    (hvisits : ∀ j, j ≠ i → g.pc.visits j → pc.visits j) (hsees : ∀ g' : Seating, g'.Sees pc) :
    Seated { g with seats := update g.seats i .free, roster := roster, pc := pc } := by
  have hnone := h.not_owned (.inr hl)
  -- the seat itself is free, and the others are as they were
  have hold {j : Place} {v : SeatState} (hv : v ≠ .free) (hj : update g.seats i .free j = v) :
      j ≠ i ∧ g.seats j = v := (update_cases hj).resolve_left fun he => hv he.2.symm
  refine ⟨fun j => ?_, h.unique, fun _ j hj => ?_, fun j hj => ?_, fun _ j hj => ?_, hsees _,
    fun j hj => absurd (h.refused j hj) hrun⟩
  · by_cases hji : j = i
    · subst hji
      simp only [update_self, reduceCtorEq, or_self, false_iff]
      exact hnone
    · simp only [update_of_ne hji]
      exact h.owned j
  · obtain ⟨-, hj⟩ := hold (by decide) hj
    refine (h.pending hrun j hj).imp_right fun hs => mem_append_right _ ?_
    rwa [joins, hhand] at hs
  · obtain ⟨hji, hj⟩ := hold (by decide) hj
    exact hroster j (h.listed j hj) hji
  · obtain ⟨hji, hj⟩ := hold (by decide) hj
    exact (h.leaving hrun j hj).imp (fun hm => hroster j hm hji) (hvisits j hji)

theorem Seated.onward (hrun : g.pc ≠ .stopped)
    (hpc : g.pc.inHand = [] ∧ ∀ j, ¬ g.pc.visits j) (hseats : g'.seats = g.seats)
    (hroster : g'.roster = g.roster) (hguests : g'.guests = g.guests) (hqueue : g'.queue = g.queue)
    (hsees : g'.Sees g'.pc) : g'.Seated := by
  refine h.goto hrun hseats hroster hguests (fun _ j _ hj => ?_) (fun j _ hv => absurd hv (hpc.2 j))
    hsees
  rw [joins, hpc.1] at hj
  rw [joins, hqueue]
  exact mem_append_right _ hj

theorem Seated.promoted (hpc : g.pc = .promoting i) :
    Seated { g with
      seats := update g.seats i .streaming
      roster := g.roster ++ [i]
      pc := .admitting } := by
  have hrun : g.pc ≠ .stopped := (Turns.promoted i hpc).running
  have hclaimed : g.seats i = .claimed := h.sees_at hpc
  refine ⟨fun j => ?_, h.unique, fun _ j hj => ?_, fun j hj => ?_, fun _ j hj => ?_, trivial,
    fun j hj => absurd (h.refused j hj) hrun⟩
  · by_cases hji : j = i
    · subst hji
      simp only [update_self, or_true, true_iff]
      exact (h.owned j).mp (.inl hclaimed)
    · simp only [update_of_ne hji]
      exact h.owned j
  · obtain ⟨-, ⟨⟩⟩ | ⟨hji, hj⟩ := update_cases hj
    refine (h.pending hrun j hj).imp_right fun hs => mem_append_right _ ?_
    rw [joins, hpc] at hs
    rcases mem_append.mp hs with hs | hs
    · exact absurd (mem_singleton.mp hs) hji
    · exact hs
  · obtain ⟨hji, -⟩ | ⟨-, hj⟩ := update_cases hj
    · exact mem_append_right _ (mem_singleton.mpr hji)
    · exact mem_append_left _ (h.listed j hj)
  · obtain ⟨-, ⟨⟩⟩ | ⟨-, hj⟩ := update_cases hj
    rcases h.leaving hrun j hj with hm | hv
    · exact .inl (mem_append_left _ hm)
    · rw [hpc] at hv
      exact hv.elim

theorem Seated.reset (hpc : g.pc = .failed) (ho : g.previousOutput = false)
    (hp : g.previous = false) : Seated { g with roster := [], pc := .retiring 0 } := by
  have hrun : g.pc ≠ .stopped := by rw [hpc]; decide
  have hnone : ∀ i, g.seats i ≠ .streaming := h.sees_at hpc ho hp
  refine ⟨h.owned, h.unique, fun _ j hj => ?_, fun j hj => absurd hj (hnone j),
    fun _ j _ => .inr (Nat.zero_le _), trivial, fun j hj => absurd (h.refused j hj) hrun⟩
  have hpending := h.pending hrun j hj
  rwa [joins, hpc] at hpending

theorem Seated.turn {turn : Turn} (hok : g.Orderly (.stream turn))
    (ht : Turns g turn g') : g'.Seated := by
  have hrun := ht.running
  cases ht with
  | past i hpc hne =>
    refine h.goto hrun rfl rfl rfl (fun _ j _ hj => ?_) (fun j hj hv => ?_) trivial
    · rwa [joins, hpc] at hj
    · rw [hpc] at hv
      have hji : (i : ℕ) ≠ j := fun he => hne (Fin.ext he ▸ hj)
      have hle : (i : ℕ) ≤ j := hv
      exact Nat.lt_of_le_of_ne hle hji
  | seen i hpc hl =>
    refine h.goto hrun rfl rfl rfl (fun _ j _ hj => ?_) (fun j hj hv => ?_) hl
    · rwa [joins, hpc] at hj
    · rw [hpc] at hv
      exact hv
  | retired n hpc hn =>
    refine h.goto hrun rfl rfl rfl (fun _ j _ hj => ?_) (fun j hj hv => ?_) trivial
    · rwa [joins, hpc] at hj
    · rw [hpc] at hv
      have hle : n ≤ j := hv
      have hlt := j.isLt
      omega
  | freed i hpc =>
    have hl : g.seats i = .leaving := h.sees_at hpc
    refine h.free hrun hl (fun _ hj _ => hj) (by rw [hpc]; rfl)
      (fun j hji hv => ?_) fun _ => trivial
    rw [hpc] at hv
    have hle : (i : ℕ) ≤ j := hv
    exact Nat.lt_of_le_of_ne hle fun he => hji (Fin.ext he).symm
  | returned n i hpc hr =>
    refine h.free hrun (h.returning hpc hr) (fun j hj hji => ?_) (by rw [hpc]; rfl)
      (fun j _ hv => ?_) fun _ => trivial
    · obtain ⟨m, hm⟩ := List.mem_iff_getElem?.mp hj
      have hmn : m ≠ n := by
        rintro rfl
        exact hji (Option.some.inj (hm.symm.trans hr))
      obtain ⟨m', hm', -⟩ := getElem?_swapRemove (List.getElem?_eq_some_iff.mp hr).1 hm hmn
      exact List.mem_of_getElem? hm'
    · rw [hpc] at hv
      exact hv.elim
  | promoted i hpc => exact h.promoted hpc
  | reset hpc ho hp => exact h.reset hpc ho hp
  | received i rest hpc hq =>
    refine h.goto hrun rfl rfl rfl (fun _ j _ hj => ?_) (fun j _ hv => ?_) trivial
    · rwa [joins, hpc, hq] at hj
    · rw [hpc] at hv
      exact hv.elim
  | accepted i hpc hc =>
    refine h.goto hrun rfl rfl rfl (fun _ j _ hj => ?_) (fun j _ hv => ?_) hc
    · rwa [joins, hpc] at hj
    · rw [hpc] at hv
      exact hv.elim
  | skipped i hpc hc =>
    refine h.goto hrun rfl rfl rfl (fun _ j hclaimed hj => ?_) (fun j _ hv => ?_) trivial
    · rw [joins, hpc] at hj
      rcases List.mem_append.mp hj with hj | hj
      · exact absurd (List.mem_singleton.mp hj ▸ hclaimed) hc
      · exact hj
    · rw [hpc] at hv
      exact hv.elim
  | vacant i hpc | found i hpc | nobody n hpc | waited hpc | prepared hpc | requested hpc | built hpc
  | began hpc | drained hpc | kept n i hpc | scanned n hpc | again hpc | rebuilt turn previous hpc
  | reverted previous hpc =>
    exact h.onward hrun (by rw [hpc]; exact ⟨rfl, fun _ => id⟩) rfl rfl rfl rfl trivial
  | noticed n i hpc hr hl =>
    exact h.onward hrun (by rw [hpc]; exact ⟨rfl, fun _ => id⟩) rfl rfl rfl rfl ⟨i, hr, hl⟩
  | quit hpc hs =>
    refine h.onward hrun ?_ rfl rfl rfl rfl hs
    rcases hpc with hpc | hpc <;> rw [hpc] <;> exact ⟨rfl, fun _ => id⟩
  | broke hpc =>
    refine h.onward hrun ?_ rfl rfl rfl rfl hok
    rcases hpc with hpc | ⟨hpc, -⟩ <;> rw [hpc] <;> exact ⟨rfl, fun _ => id⟩

end

/-! ## Runs -/

theorem seated_start : seating.start.Seated := by
  refine ⟨fun i => ?_, fun k l i hk => ?_, fun _ i hi => ?_, fun i hi => ?_, fun _ i hi => ?_, trivial,
    fun i hi => ?_⟩
  · simp [seating, seatOf]
  · cases hk
  · cases hi
  · cases hi
  · cases hi
  · cases hi

theorem Seated.step (h : g.Seated) {a : Action} (hok : g.Orderly a) (hst : g.step a = some g') :
    g'.Seated := by
  cases a with
  | arrive =>
    cases hst
    exact h.arrive
  | guest k => exact h.move (move_moves hst)
  | leave k => exact h.leave hok hst
  | stop =>
    cases hst
    exact { h with
      sees := h.sees.mono rfl rfl rfl (fun _ => rfl) (fun _ _ => id) (fun _ => id) fun _ => id }
  | stream turn => exact h.turn hok (turn_turns hst)

/-- **Every state of an orderly run has its seats in order.** -/
theorem seated (h : seating.ReachVia Orderly g) : g.Seated :=
  h.invariant seated_start fun _ _ _ hg hok hst => hg.step hok hst

/-! ## Seats that are lost -/

/-- A seat that streams to nobody, and that the stream thread has not seen left. -/
structure Orphan (i : Place) (g : Seating) : Prop where
  streaming : g.seats i = .streaming
  nobody : ∀ k, seatOf g.guests k ≠ some i
  unseen : g.pc ≠ .freeing i ∧ ∀ n, g.pc = .returning n → g.roster[n]? ≠ some i

theorem Orphan.ne (h : Orphan i g) {j : Place} (hj : g.seats j ≠ .streaming) : i ≠ j :=
  fun he => hj (he ▸ h.streaming)

theorem Orphan.turn (h : Orphan i g) {turn : Turn} (ht : Turns g turn g') : Orphan i g' := by
  -- a step that stores to no seat and does not end at a store
  have hgoto {g' : Seating} (hseats : g'.seats = g.seats) (hguests : g'.guests = g.guests)
      (hpc : ∀ n, g'.pc ≠ .freeing i ∧ g'.pc ≠ .returning n) : Orphan i g' :=
    ⟨by rw [hseats]; exact h.streaming, by rw [hguests]; exact h.nobody, (hpc 0).1,
      fun n hn => absurd hn (hpc n).2⟩
  cases ht with
  | seen j hpc hl =>
    have hne := h.ne (by rw [hl]; decide)
    exact ⟨h.streaming, h.nobody, fun he => hne (Pc.freeing.inj he).symm, nofun⟩
  | noticed n j hpc hr hl =>
    have hne := h.ne (by rw [hl]; decide)
    refine ⟨h.streaming, h.nobody, nofun, fun m hm hi => hne ?_⟩
    cases hm
    exact Option.some.inj (hi.symm.trans hr)
  | freed j hpc =>
    have hne : i ≠ j := fun he => h.unseen.1 (he ▸ hpc)
    exact ⟨(update_of_ne hne _ _).trans h.streaming, h.nobody, nofun,
      nofun⟩
  | returned n j hpc hr =>
    have hne : i ≠ j := fun he => h.unseen.2 n hpc (he ▸ hr)
    exact ⟨(update_of_ne hne _ _).trans h.streaming, h.nobody, nofun,
      nofun⟩
  | promoted j hpc =>
    refine ⟨?_, h.nobody, nofun, nofun⟩
    by_cases hij : i = j
    · subst hij
      exact update_self ..
    · exact (update_of_ne hij _ _).trans h.streaming
  | _ => exact hgoto rfl rfl fun n => ⟨nofun, nofun⟩

theorem Orphan.move (h : Orphan i g) (hm : Moves g k g') : Orphan i g' := by
  have hset {t u : Taker} (hk : g.guests[k]? = some t) (hu : u.seat ≠ some i) (l : ℕ) :
      seatOf (g.guests.set k u) l ≠ some i := by
    rw [seatOf_set hk]
    split_ifs
    · exact hu
    · exact h.nobody l
  have hheld {t : Taker} (hk : g.guests[k]? = some t) : t.seat ≠ some i :=
    seatOf_of hk ▸ h.nobody k
  cases hm with
  | claimed j hk hf =>
    have hne := h.ne (by rw [hf]; decide)
    exact ⟨(update_of_ne hne _ _).trans h.streaming,
      hset hk fun he => hne (Option.some.inj he).symm, h.unseen⟩
  | wandered t u hk ht hu => exact ⟨h.streaming, hset hk (by rw [hu]; simp), h.unseen⟩
  | sent j hk | unsent j hk =>
    have hj : some j ≠ some i := hheld hk
    exact ⟨h.streaming, hset hk hj, h.unseen⟩
  | gaveBack j hk =>
    have hne : i ≠ j := fun he => hheld hk (he ▸ rfl)
    exact ⟨(update_of_ne hne _ _).trans h.streaming, hset hk (by simp [Taker.seat]), h.unseen⟩

theorem Orphan.step (h : Orphan i g) {a : Action} (hst : g.step a = some g') : Orphan i g' := by
  cases a with
  | arrive =>
    cases hst
    exact ⟨h.streaming, fun l => by rw [seatOf_append rfl]; exact h.nobody l, h.unseen⟩
  | guest k => exact h.move (move_moves hst)
  | leave k =>
    obtain ⟨j, hk, rfl⟩ := leave_leaves hst
    have hne : i ≠ j := by
      rintro rfl
      exact h.nobody k ((seatOf_of hk).trans rfl)
    refine ⟨(update_of_ne hne _ _).trans h.streaming, fun l => ?_, h.unseen⟩
    rw [seatOf_set hk]
    split_ifs
    · simp [Taker.seat]
    · exact h.nobody l
  | stop =>
    cases hst
    exact { h with }
  | stream turn => exact h.turn (turn_turns hst)

/-- A seat that was left, with no entry in the roster of a loop that has no exit. -/
structure Stranded (i : Place) (g : Seating) : Prop where
  leaving : g.seats i = .leaving
  pass : g.pc = .top ∨ g.pc = .admitting ∨ g.pc = .scanning 0 ∨ g.pc = .passing
  roster : g.roster = []
  queue : g.queue = []
  running : g.stopping = false

theorem Stranded.turn (h : Stranded i g) {turn : Turn} (ht : Turns g turn g') : Stranded i g' := by
  obtain ⟨hl, hpass, hr, hq, hs⟩ := h
  cases ht with
  | began => exact ⟨hl, .inr (.inl rfl), hr, hq, hs⟩
  | drained => exact ⟨hl, .inr (.inr (.inl rfl)), hr, hq, hs⟩
  | scanned => exact ⟨hl, .inr (.inr (.inr rfl)), hr, hq, hs⟩
  | again => exact ⟨hl, .inl rfl, hr, hq, hs⟩
  | _ => simp_all

def front : Place := ⟨0, by decide⟩

/-- A guest claims the first seat and sends its join, then the stream thread takes some steps. -/
def arrival (n : ℕ) : List Action :=
  [.arrive, .guest 0, .guest 0] ++ List.replicate n (.stream .plain)

/-- **Three ways to lose a seat**: a guest leaves just before the store that admits it, or before
its join is received, or the roster is dropped. -/
theorem leaks :
    (∃ g, seating.Reach g ∧ ∀ t, (seating.startAt g).Reach t →
      t.seats front = .streaming ∧ ∀ k, seatOf t.guests k ≠ some front) ∧
    (∃ g, seating.Reach g ∧ ∀ t, (seating.startAt g).ReachVia (fun _ a => ∃ turn, a = .stream turn) t →
      t.seats front = .leaving) ∧
    (∃ g, seating.Reach g ∧ g.seats front = .streaming ∧ front ∉ g.roster ∧ front ∉ g.joins) := by
  refine ⟨?_, ?_, ?_⟩
  · obtain ⟨g, hg, hs, hguests, hpc⟩ := seating.exists_reachVia (fun _ _ => True)
      (arrival 23 ++ [.leave 0, .stream .plain])
      (fun g => g.seats front = .streaming ∧ g.guests = [.gone] ∧ g.pc = .admitting) (by decide +kernel)
    have horphan : Orphan front g := by
      refine ⟨hs, fun k => ?_, by rw [hpc]; decide, fun n hn => ?_⟩
      · rw [hguests]
        cases k <;> simp [seatOf, Taker.seat]
      · rw [hpc] at hn
        cases hn
    refine ⟨g, hg, fun t ht => ?_⟩
    have hend : Orphan front t := ht.invariant horphan fun _ _ _ h _ hst => h.step hst
    exact ⟨hend.streaming, hend.nobody⟩
  · obtain ⟨g, hg, hl, hpc, hr, hq, hs⟩ := seating.exists_reachVia (fun _ _ => True)
      (arrival 20 ++ [.leave 0] ++ replicate 3 (.stream .plain))
      (fun g => g.seats front = .leaving ∧ g.pc = .admitting ∧ g.roster = [] ∧ g.queue = [] ∧
        g.stopping = false) (by decide +kernel)
    refine ⟨g, hg, fun t ht => ?_⟩
    have hend : Stranded front t := by
      refine ht.invariant ⟨hl, .inr (.inl hpc), hr, hq, hs⟩ fun _ _ _ h hok hst => ?_
      obtain ⟨turn, rfl⟩ := hok
      exact h.turn (turn_turns hst)
    exact hend.leaving
  · exact seating.exists_reachVia (fun _ _ => True)
      (arrival 27 ++ [.stream .failed, .stream .plain])
      (fun g => g.seats front = .streaming ∧ front ∉ g.roster ∧ front ∉ g.joins) (by decide +kernel)

/-- **No two guests have one seat in an orderly run**, and a seat is in use just when a guest has
it. -/
theorem seats_exclusive (h : seating.ReachVia Orderly g) :
    (∀ k l i, seatOf g.guests k = some i → seatOf g.guests l = some i → k = l) ∧
    ∀ i, g.seats i = .claimed ∨ g.seats i = .streaming ↔ ∃ k, seatOf g.guests k = some i :=
  ⟨(seated h).unique, (seated h).owned⟩

theorem seats_exclusive_two : ∃ g, seating.ReachVia Orderly g ∧ seatOf g.guests 0 = some front ∧
    seatOf g.guests 1 = some ⟨1, by decide⟩ ∧ ∀ k, seatOf g.guests k = some front → k = 0 := by
  obtain ⟨g, hg, h0, h1⟩ := seating.exists_reachVia Orderly
    (arrival 27 ++ [.arrive, .guest 1, .guest 1, .guest 1])
    (fun g => seatOf g.guests 0 = some front ∧ seatOf g.guests 1 = some ⟨1, by decide⟩)
    (by decide +kernel)
  exact ⟨g, hg, h0, h1, fun k hk => (seats_exclusive hg).1 k 0 front hk h0⟩

end Seating

end OpenStream.Host
