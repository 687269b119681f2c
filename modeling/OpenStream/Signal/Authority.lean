import OpenStream.Signal.Sockets
import Mathlib.Data.List.Nodup

/-!
# Who may use the relay slots of a session

* One lemma for each operation; **`Room.authority_of_step`**: every action of a session keeps it.
-/

namespace OpenStream.Signal

open List Guest
open Option (bind_eq_some_iff filter_eq_some_iff map_eq_some_iff some)

namespace Session

variable {s s' : Session} {n : ℕ} {role : PrimaryRole} {g : Guest}
variable {l : List Guest} {i source : ℕ} {f : Guest → Guest} {x : Guest} {ticket : Ticket}

/-! ## The guest that changes -/

theorem modifyFirst_eq_map {p : Guest → Bool} (hn : (l.map Guest.id).Nodup)
    (hf : l.find? p = some g) (f : Guest → Guest) :
    modifyFirst p f l = l.map fun x => if x.id = g.id then f x else x := by
  induction l with
  | nil => cases hf
  | cons a l ih =>
    rw [map_cons, nodup_cons] at hn
    unfold modifyFirst
    by_cases hp : p a = true
    · rw [find?_cons_of_pos hp] at hf
      cases hf
      rw [if_pos hp, map_cons, if_pos rfl]
      congr 1
      refine ((map_congr_left fun x hx => ?_).trans (map_id l)).symm
      have hne : x.id ≠ g.id := fun h => hn.1 (h ▸ mem_map_of_mem hx)
      rw [if_neg hne]
      rfl
    · rw [find?_cons_of_neg hp] at hf
      have hmem := mem_of_find?_eq_some hf
      have hne : a.id ≠ g.id := fun h => hn.1 (h ▸ mem_map_of_mem hmem)
      rw [if_neg hp, map_cons, if_neg hne, ih hn.2 hf]

theorem modifyFirst_none {p : Guest → Bool} (h : ∀ x ∈ l, p x = false)
    (f : Guest → Guest) : modifyFirst p f l = l := by
  induction l with
  | nil => rfl
  | cons a l ih =>
    rw [modifyFirst, if_neg (by rw [h a mem_cons_self]; decide),
      ih fun x hx => h x (mem_cons_of_mem _ hx)]

theorem modifyFirst_id (hn : (l.map Guest.id).Nodup) (i : ℕ) (f : Guest → Guest) :
    modifyFirst (fun g => g.id = i) f l = l.map fun x => if x.id = i then f x else x := by
  cases hf : l.find? fun g => g.id = i with
  | some g =>
    have hg : g.id = i := by simpa using find?_some hf
    rw [modifyFirst_eq_map hn hf, hg]
  | none =>
    rw [find?_eq_none] at hf
    have hne : ∀ x ∈ l, x.id ≠ i := fun x hx => by simpa using hf x hx
    rw [modifyFirst_none fun x hx => decide_eq_false (hne x hx)]
    refine ((map_congr_left fun x hx => ?_).trans (map_id l)).symm
    exact if_neg (hne x hx)

theorem core_modifyFirst {f : Guest → Guest} (hf : ∀ g, (f g).core = g.core) (p : Guest → Bool) :
    ∀ l : List Guest, (modifyFirst p f l).map core = l.map core
  | [] => rfl
  | a :: l => by
    unfold modifyFirst
    split_ifs
    · rw [map_cons, map_cons, hf]
    · rw [map_cons, map_cons, core_modifyFirst hf p l]

theorem eq_of_id (hn : (l.map Guest.id).Nodup) {a b : Guest} (ha : a ∈ l)
    (hb : b ∈ l) (h : a.id = b.id) : a = b :=
  inj_on_of_nodup_map hn ha hb h

theorem mem_mapAt (hx : x ∈ l.map fun x => if x.id = i then f x else x) :
    (x ∈ l ∧ x.id ≠ i) ∨ ∃ y ∈ l, y.id = i ∧ x = f y := by
  obtain ⟨y, hy, rfl⟩ := mem_map.mp hx
  split_ifs with h
  · exact .inr ⟨y, hy, h, rfl⟩
  · exact .inl ⟨hy, h⟩

theorem id_ne_of_mem_eraseP {i : ℕ} {x : Guest} :
    ∀ {l : List Guest}, (l.map Guest.id).Nodup → x ∈ l.eraseP (fun g => g.id = i) → x.id ≠ i
  | a :: l, hn, hx => by
    rw [map_cons, nodup_cons] at hn
    by_cases ha : a.id = i
    · rw [eraseP_cons_of_pos (by simpa using ha)] at hx
      exact fun h => hn.1 (ha ▸ h ▸ mem_map_of_mem hx)
    · rw [eraseP_cons_of_neg (by simpa using ha)] at hx
      rcases mem_cons.mp hx with rfl | hx
      · exact ha
      · exact id_ne_of_mem_eraseP hn.2 hx

theorem ids_mapAt (hf : ∀ g, (f g).id = g.id) :
    (l.map fun x => if x.id = i then f x else x).map Guest.id = l.map Guest.id := by
  rw [map_map]
  refine map_congr_left fun x _ => ?_
  simp only [Function.comp_apply]
  split_ifs
  · exact hf x
  · rfl

/-! ## The invariant -/

def Owned (s : Session) : PrimaryRole → RelaySlot → Prop
  | .host, slot => slot.owner = .primary .host ∧ (s.sender .host).isSome ∧
      slot.socketGeneration = (s.endpoint .host).generation
  | .client, slot => (slot.owner = .primary .client ∧ (s.sender .client).isSome ∧
      slot.socketGeneration = (s.endpoint .client).generation) ∨
    ∃ g ∈ s.guests, g.active = true ∧ slot.owner = .guest g.id ∧
      slot.socketGeneration = g.generation

/-- What holds of guests and relay slots, whether or not a client is connected; `n` identifiers
have been drawn. -/
structure Slots (n : ℕ) (s : Session) : Prop where
  ids : (s.guests.map Guest.id).Nodup
  bound : ∀ g ∈ s.guests, g.id < n
  connected : ∀ g ∈ s.guests, g.active = true → g.sender.isSome = true
  single : ∀ g ∈ s.guests, ∀ h ∈ s.guests, g.active = true → h.active = true → g = h
  owned : ∀ role slot, s.relay role = some slot → s.Owned role slot

/-- While a guest is active no client is connected. -/
structure Authority (n : ℕ) (s : Session) : Prop extends Slots n s where
  exclusive : ∀ g ∈ s.guests, g.active = true → s.sender .client = none

theorem Authority.new (expiresAt maxGuests : ℕ) :
    Authority n (Session.new expiresAt maxGuests) where
  ids := nodup_nil
  bound := by
    intro g hg
    cases hg
  connected := by
    intro g hg
    cases hg
  single := by
    intro g hg
    cases hg
  owned := by
    intro role slot h
    cases h
  exclusive := by
    intro g hg
    cases hg

theorem mem_core {l' : List Guest} (h : l'.map core = l.map core)
    (hx : x ∈ l') : ∃ y ∈ l, y.core = x.core := by
  have : x.core ∈ l.map core := h ▸ mem_map_of_mem hx
  exact mem_map.mp this

theorem core_ids : (l.map Guest.core).map Prod.fst = l.map Guest.id := by
  rw [map_map]
  rfl

theorem Slots.of_core (h : Slots n s) (hg : s'.guests.map Guest.core = s.guests.map Guest.core)
    (hr : ∀ role slot, s'.relay role = some slot → s.relay role = some slot ∧
      ∀ r, slot.owner = .primary r → (s'.endpoint r).sender = (s.endpoint r).sender ∧
        (s'.endpoint r).generation = (s.endpoint r).generation) : Slots n s' := by
  have hids : s'.guests.map Guest.id = s.guests.map Guest.id := by
    rw [← core_ids, ← core_ids, hg]
  have hn : (s'.guests.map Guest.id).Nodup := hids ▸ h.ids
  refine ⟨hn, fun g hmem => ?_, fun g hmem ha => ?_, fun g hg1 k hk1 ha hb => ?_,
    fun role slot hs => ?_⟩
  · obtain ⟨y, hy, hc⟩ := mem_core hg hmem
    simp only [Guest.core, Prod.mk.injEq] at hc
    exact hc.1 ▸ h.bound y hy
  · obtain ⟨y, hy, hc⟩ := mem_core hg hmem
    simp only [Guest.core, Prod.mk.injEq] at hc
    rw [← hc.2.2.1]
    exact h.connected y hy (hc.2.1.trans ha)
  · obtain ⟨y, hy, hc⟩ := mem_core hg hg1
    obtain ⟨z, hz, hd⟩ := mem_core hg hk1
    simp only [Guest.core, Prod.mk.injEq] at hc hd
    have hyz := h.single y hy z hz (hc.2.1.trans ha) (hd.2.1.trans hb)
    exact eq_of_id hn hg1 hk1 (by rw [← hc.1, ← hd.1, hyz])
  · obtain ⟨hs', ho⟩ := hr role slot hs
    have hown := h.owned role slot hs'
    cases role with
    | host =>
      obtain ⟨h1, h2, h3⟩ := hown
      obtain ⟨ho1, ho2⟩ := ho .host h1
      exact ⟨h1, by rw [sender, ho1]; exact h2, by rw [ho2]; exact h3⟩
    | client =>
      rcases hown with ⟨h1, h2, h3⟩ | ⟨y, hy, ha, h1, h2⟩
      · obtain ⟨ho1, ho2⟩ := ho .client h1
        exact .inl ⟨h1, by rw [sender, ho1]; exact h2, by rw [ho2]; exact h3⟩
      · obtain ⟨x, hx, hc⟩ := mem_core hg.symm hy
        simp only [Guest.core, Prod.mk.injEq] at hc
        exact .inr ⟨x, hx, hc.2.1.trans ha, by rw [hc.1]; exact h1, by rw [hc.2.2.2.1]; exact h2⟩

theorem Slots.closes (h : Slots n s) (hc : Closes s s') : Slots n s' :=
  h.of_core hc.guests fun role slot hs =>
    ⟨(hc.relay role slot hs).1, fun r ho => ⟨(hc.relay role slot hs).2 r ho, hc.generation r⟩⟩

theorem Slots.admits {channel proof : ℕ} (h : Slots n s) (ha : Admits role channel proof s s') :
    Slots n s' := by
  refine h.of_core ha.guests fun r slot hs => ?_
  obtain ⟨hs', ho⟩ := ha.relay r slot hs
  exact ⟨hs', fun r' hr' => ⟨(ho r' hr').2, ha.generation r' (ho r' hr').1⟩⟩

theorem Authority.of_slots (h : Authority n s) (hs : Slots n s')
    (hg : s'.guests.map core = s.guests.map core)
    (hc : s'.sender .client = s.sender .client ∨ s'.sender .client = none) : Authority n s' := by
  refine ⟨hs, fun g hmem ha => ?_⟩
  obtain ⟨y, hy, hcore⟩ := mem_core hg hmem
  simp only [core, Prod.mk.injEq] at hcore
  rcases hc with hc | hc
  · rw [hc]
    exact h.exclusive y hy (hcore.2.1.trans ha)
  · exact hc

theorem Authority.closes (h : Authority n s) (hc : Closes s s') : Authority n s' :=
  h.of_slots (h.toSlots.closes hc) hc.guests
    ((hc.sender .client).imp (fun hs => hs.1) fun hs => hs.1)

/-- A slot stays owned when sockets do, and the guest that it belongs to. -/
theorem Owned.mono {slot slot' : RelaySlot} (h : s.Owned role slot) (he : s'.endpoint = s.endpoint)
    (ho : slot'.owner = slot.owner) (hgen : slot'.socketGeneration = slot.socketGeneration)
    (hg : ∀ y ∈ s.guests, slot.owner = .guest y.id → y ∈ s'.guests) : s'.Owned role slot' := by
  have hsend (r : PrimaryRole) : s'.sender r = s.sender r := by rw [sender, sender, he]
  cases role with
  | host => exact ⟨ho.trans h.1, by rw [hsend]; exact h.2.1, by rw [hgen, he]; exact h.2.2⟩
  | client =>
    rcases h with h | ⟨y, hy, ha, h1, h2⟩
    · exact .inl ⟨ho.trans h.1, by rw [hsend]; exact h.2.1, by rw [hgen, he]; exact h.2.2⟩
    · exact .inr ⟨y, hg y hy h1, ha, ho.trans h1, hgen.trans h2⟩

theorem Authority.of_relay (h : Authority n s) (hg : s'.guests = s.guests)
    (he : s'.endpoint = s.endpoint)
    (hr : ∀ role slot, s'.relay role = some slot → ∃ slot', s.relay role = some slot' ∧
      slot.owner = slot'.owner ∧ slot.socketGeneration = slot'.socketGeneration) :
    Authority n s' := by
  refine ⟨⟨hg ▸ h.ids, hg ▸ h.bound, hg ▸ h.connected, hg ▸ h.single, fun role slot hs => ?_⟩,
    fun g hmem ha => ?_⟩
  · obtain ⟨slot', hs', ho, hgen⟩ := hr role slot hs
    exact (h.owned role slot' hs').mono he ho hgen fun y hy _ => hg ▸ hy
  · rw [sender, he]
    exact h.exclusive g (hg ▸ hmem) ha

/-! ## Primary sockets -/

/-- What a socket's task leaves behind when it has ended. -/
def disconnectPrimary (s : Session) (net : Net) (role : PrimaryRole) (generation : ℕ) : Session :=
  if (s.cleanupPrimarySocket net role generation).2.2 then
    (s.cleanupPrimarySocket net role generation).1.clearRelayOwner (.primary role)
  else (s.cleanupPrimarySocket net role generation).1

theorem closes_disconnectPrimary (s : Session) (net : Net) (role : PrimaryRole) (generation : ℕ) :
    Closes s (s.disconnectPrimary net role generation) := by
  unfold disconnectPrimary cleanupPrimarySocket
  by_cases hgen : (s.endpoint role).generation ≠ generation
  · rw [if_pos hgen]
    exact .refl s
  rw [if_neg hgen]
  simp only [if_true]
  generalize hs1 : s.setEndpoint role { s.endpoint role with sender := none, relayProof := none } = s1
  have he (r : PrimaryRole) : s1.endpoint r = if r = role then
      { s.endpoint role with sender := none, relayProof := none } else s.endpoint r := by
    rw [← hs1, endpoint_setEndpoint]
  have hc := s1.closes_invalidateReadyEpoch net .peerDisconnected s1.survivor
  generalize (s1.invalidateReadyEpoch net .peerDisconnected s1.survivor).1 = s2 at hc
  subst hs1
  refine ⟨fun r => (hc.generation r).trans ?_, fun r => ?_, hc.guests, fun r slot hs => ?_, hc.epoch⟩
  · rw [he]
    split_ifs with hr
    · rw [hr]
    · rfl
  · rcases hc.sender r with ⟨h1, h2⟩ | hnone
    · rw [he] at h1 h2
      split_ifs at h1 h2
      · exact .inr ⟨h1, h2⟩
      · exact .inl ⟨h1, h2⟩
    · exact .inr hnone
  · simp only [clearRelayOwner, filter_eq_some_iff, decide_eq_true_eq] at hs
    obtain ⟨hs', ho⟩ := hc.relay r slot hs.1
    refine ⟨hs', fun r' hr' => (ho r' hr').trans ?_⟩
    have hne : r' ≠ role := fun heq => hs.2 (heq ▸ hr')
    rw [he, if_neg hne]

/-! ## Guests -/

theorem Slots.mapAt (h : Slots n s) (i : ℕ) (hid : ∀ g, (f g).id = g.id)
    (hg : s'.guests = s.guests.map fun x => if x.id = i then f x else x)
    (he : s'.endpoint = s.endpoint) (hr : ∀ role slot, s'.relay role = some slot →
      s.relay role = some slot ∧ slot.owner ≠ .guest i)
    (ha : ∀ x ∈ s.guests, x.id = i → (f x).active = true → (f x).sender.isSome = true ∧
      ∀ y ∈ s.guests, y.id ≠ i → y.active = false) : Slots n s' := by
  have hn : (s'.guests.map Guest.id).Nodup := by
    rw [hg, ids_mapAt hid]
    exact h.ids
  refine ⟨hn, fun x hx => ?_, fun x hx hact => ?_, fun x hx y hy hxa hya => ?_,
    fun role slot hs => ?_⟩
  · rw [hg] at hx
    rcases mem_mapAt hx with ⟨hx, -⟩ | ⟨z, hz, -, rfl⟩
    · exact h.bound x hx
    · exact hid z ▸ h.bound z hz
  · rw [hg] at hx
    rcases mem_mapAt hx with ⟨hx, -⟩ | ⟨z, hz, hzi, rfl⟩
    · exact h.connected x hx hact
    · exact (ha z hz hzi hact).1
  · refine eq_of_id hn hx hy ?_
    rw [hg] at hx hy
    rcases mem_mapAt hx with ⟨hx, hxi⟩ | ⟨z, hz, hzi, rfl⟩
    · rcases mem_mapAt hy with ⟨hy, -⟩ | ⟨w, hw, hwi, rfl⟩
      · rw [h.single x hx y hy hxa hya]
      · rw [(ha w hw hwi hya).2 x hx hxi] at hxa
        cases hxa
    · rcases mem_mapAt hy with ⟨hy, hyi⟩ | ⟨w, hw, hwi, rfl⟩
      · rw [(ha z hz hzi hxa).2 y hy hyi] at hya
        cases hya
      · rw [hid, hid, hzi, hwi]
  · obtain ⟨hs', hne⟩ := hr role slot hs
    refine (h.owned role slot hs').mono he rfl rfl fun y hy ho => ?_
    have hyi : y.id ≠ i := fun heq => hne (heq ▸ ho)
    exact hg ▸ mem_map.mpr ⟨y, hy, if_neg hyi⟩

/-- Nobody but the guest with identifier `i` may be driving the client slot. -/
def Free (s : Session) (i : ℕ) : Prop :=
  s.sender .client = none ∧ ∀ y ∈ s.guests, y.id ≠ i → y.active = false

theorem Authority.mapAt (h : Authority n s) (i : ℕ) (hid : ∀ g, (f g).id = g.id)
    (hg : s'.guests = s.guests.map fun x => if x.id = i then f x else x)
    (he : s'.endpoint = s.endpoint) (hr : ∀ role slot, s'.relay role = some slot →
      s.relay role = some slot ∧ slot.owner ≠ .guest i)
    (ha : ∀ x ∈ s.guests, x.id = i → (f x).active = true →
      (f x).sender.isSome = true ∧ Free s i) : Authority n s' := by
  refine ⟨h.toSlots.mapAt i hid hg he hr fun x hx hxi hact =>
    ⟨(ha x hx hxi hact).1, (ha x hx hxi hact).2.2⟩, fun x hx hact => ?_⟩
  rw [sender, he]
  rw [hg] at hx
  rcases mem_mapAt hx with ⟨hx, -⟩ | ⟨z, hz, hzi, rfl⟩
  · exact h.exclusive x hx hact
  · exact (ha z hz hzi hact).2.1

theorem relay_clearRelayOwner {owner : Owner} {slot : RelaySlot}
    (h : (s.clearRelayOwner owner).relay role = some slot) :
    s.relay role = some slot ∧ slot.owner ≠ owner := by
  simpa [clearRelayOwner, filter_eq_some_iff] using h

theorem Slots.parkActive (h : Slots n s) (net : Net) : Authority n (s.parkActive net).1 := by
  unfold Session.parkActive
  cases hf : s.guests.find? (·.active) with
  | none =>
    refine ⟨h, fun x hx hact => ?_⟩
    rw [find?_eq_none] at hf
    exact absurd hact (hf x hx)
  | some g =>
    have hact : g.active = true := find?_some hf
    have hmem := mem_of_find?_eq_some hf
    have hmod := modifyFirst_eq_map h.ids hf fun g => { g with active := false }
    refine ⟨h.mapAt g.id (f := fun g => { g with active := false }) (fun _ => rfl) hmod rfl
      (fun role slot hs => relay_clearRelayOwner hs) (nofun),
      fun x hx hxa => ?_⟩
    have hx' : x ∈ modifyFirst (·.active) (fun g => { g with active := false }) s.guests := hx
    rw [hmod] at hx'
    rcases mem_mapAt hx' with ⟨hx, hne⟩ | ⟨z, -, -, rfl⟩
    · exact absurd (congrArg Guest.id (h.single x hx g hmem hxa hact)) hne
    · cases hxa

section

variable (h : Authority n s)

include h

theorem Authority.free (hg : g ∈ s.guests) (hc : s.canActivate g = true) : Free s g.id := by
  unfold canActivate at hc
  rw [Bool.or_eq_true, Bool.and_eq_true] at hc
  rcases hc with hact | ⟨hclient, hother⟩
  · refine ⟨h.exclusive g hg hact, fun y hy hne => ?_⟩
    rw [← Bool.not_eq_true]
    intro hya
    exact hne (congrArg Guest.id (h.single y hy g hg hya hact))
  · refine ⟨Option.isNone_iff_eq_none.mp hclient, fun y hy hne => ?_⟩
    rw [Bool.not_eq_true', any_eq_false] at hother
    simpa [hne] using hother y hy

theorem Authority.connectGuest (net : Net) (channel proof : ℕ) {active : Bool}
    (ha : active = true → Free s g.id) :
    Authority n (s.connectGuest net g channel proof active).1 := by
  refine h.mapAt g.id (f := fun guest => { guest with
      sender := some channel, generation := g.generation + 1, active, relayProof := some proof })
    (fun _ => rfl) (modifyFirst_id h.ids _ _) rfl (fun role slot hs => relay_clearRelayOwner hs)
    (fun x _ _ hact => ⟨rfl, ha hact⟩)

theorem Authority.admitGuest (net : Net) (id channel proof : ℕ) :
    Authority n (s.admitGuest net id channel proof).1 := by
  unfold Session.admitGuest
  cases hf : s.findGuest id with
  | none => exact h
  | some g =>
    have hg := mem_of_find?_eq_some hf
    simp only
    split_ifs with h1 h2 h3 h4
    · exact h
    · have hfree := h.free hg h3
      unfold activateGuest
      simp only
      generalize hs1 : s.modifyGuest g.id _ = s1
      have hcore : s1.guests.map core = s.guests.map core := by
        rw [← hs1]
        apply core_modifyFirst
        exact fun _ => rfl
      have hend : s1.endpoint = s.endpoint := by rw [← hs1]; rfl
      have hrel : s1.relay = s.relay := by rw [← hs1]; rfl
      have ha1 : Authority n s1 := h.of_slots
        (h.toSlots.of_core hcore fun role slot hs => ⟨hrel ▸ hs, fun r _ => by rw [hend]; simp⟩)
        hcore (.inl (by rw [sender, sender, hend]))
      have hfree1 : Free s1 g.id := by
        refine ⟨by rw [sender, hend]; exact hfree.1, fun y hy hne => ?_⟩
        obtain ⟨x, hx, hc⟩ := mem_core hcore hy
        simp only [core, Prod.mk.injEq] at hc
        rw [← hc.2.1]
        exact hfree.2 x hx (by rw [hc.1]; exact hne)
      split_ifs
      · exact ha1
      · exact ha1.connectGuest _ channel proof fun _ => hfree1
    · exact h
    · exact h.connectGuest _ channel proof nofun
    · exact h

theorem Authority.afterGuest {wasActive : Bool}
    (hw : wasActive = true → s.sender .client = none ∧ ∀ y ∈ s.guests, y.active = false) :
    Authority n (s.afterGuest wasActive).1 := by
  unfold Session.afterGuest
  split_ifs with hact
  swap
  · exact h
  obtain ⟨hclient, hnone⟩ := hw hact
  unfold takePromotionSender
  cases hf : s.guests.find? fun g => g.sender.isSome && !g.active with
  | none => exact h
  | some g =>
    have hp := find?_some hf
    have hg := mem_of_find?_eq_some hf
    rw [Bool.and_eq_true] at hp
    refine h.mapAt g.id (f := fun g => { g with active := true }) (fun _ => rfl)
      (modifyFirst_eq_map h.ids hf _) rfl (fun role slot hs => ⟨hs, fun ho => ?_⟩)
      fun x hx hxi _ => ⟨?_, hclient, fun y hy _ => hnone y hy⟩
    · have hown := h.owned role slot hs
      cases role with
      | host =>
        rw [hown.1] at ho
        cases ho
      | client =>
        rcases hown with ⟨h1, -, -⟩ | ⟨y, hy, hya, -, -⟩
        · rw [h1] at ho
          cases ho
        · rw [hnone y hy] at hya
          cases hya
    · rw [eq_of_id h.ids hx hg hxi]
      exact hp.1

theorem Authority.cleanupGuest (id generation : ℕ) :
    Authority n (s.cleanupGuest id generation).1 := by
  unfold Session.cleanupGuest
  cases hf : s.findGuest id with
  | none => exact h
  | some g =>
    simp only
    split_ifs with hgen
    · exact h
    have hg := mem_of_find?_eq_some hf
    have hid : g.id = id := by simpa using find?_some hf
    have hmod := modifyFirst_id h.ids id fun g =>
      { g with sender := none, active := false, relayProof := none }
    have hgone : Authority n ((s.modifyGuest id fun g =>
        { g with sender := none, active := false, relayProof := none }).clearRelayOwner
          (.guest id)) :=
      h.mapAt id (f := fun g => { g with sender := none, active := false, relayProof := none })
        (fun _ => rfl) hmod rfl (fun role slot hs => relay_clearRelayOwner hs)
        nofun
    refine hgone.afterGuest fun hact => ⟨h.exclusive g hg hact, fun y hy => ?_⟩
    have hy' : y ∈ modifyFirst (fun g => g.id = id)
      (fun g => { g with sender := none, active := false, relayProof := none }) s.guests := hy
    rw [hmod] at hy'
    rcases mem_mapAt hy' with ⟨hy, hne⟩ | ⟨z, -, -, rfl⟩
    · rw [← Bool.not_eq_true]
      intro hya
      exact hne (by rw [h.single y hy g hg hya hact, hid])
    · rfl

theorem Authority.eraseGuest (id : ℕ) :
    Authority n ({ s with guests := s.guests.eraseP fun g => g.id = id }.clearRelayOwner
      (.guest id)) := by
  have hsub : ∀ x ∈ s.guests.eraseP fun g => g.id = id, x ∈ s.guests :=
    fun x => mem_of_mem_eraseP
  refine ⟨⟨h.ids.sublist (eraseP_sublist.map _), fun x hx => h.bound x (hsub x hx),
    fun x hx => h.connected x (hsub x hx),
    fun x hx y hy => h.single x (hsub x hx) y (hsub y hy), fun role slot hs => ?_⟩,
    fun x hx => h.exclusive x (hsub x hx)⟩
  obtain ⟨hs', hne⟩ := relay_clearRelayOwner hs
  have hown := h.owned role slot hs'
  cases role with
  | host => exact hown
  | client =>
    rcases hown with hown | ⟨y, hy, hya, h1, h2⟩
    · exact .inl hown
    · have hyi : y.id ≠ id := fun heq => hne (heq ▸ h1)
      have hmem : y ∈ s.guests.eraseP fun g => g.id = id :=
        (mem_eraseP_of_neg (by simpa using hyi)).mpr hy
      exact .inr ⟨y, hmem, hya, h1, h2⟩

theorem Authority.kickGuest (id : ℕ) : Authority n (s.kickGuest id).1 := by
  unfold Session.kickGuest
  cases hf : s.findGuest id with
  | none => exact h
  | some g =>
    have hg := mem_of_find?_eq_some hf
    have hid : g.id = id := by simpa using find?_some hf
    refine (h.eraseGuest id).afterGuest fun hact => ⟨h.exclusive g hg hact, fun y hy => ?_⟩
    rw [← Bool.not_eq_true]
    intro hya
    have hy' : y ∈ s.guests.eraseP fun g => g.id = id := hy
    have hyg := h.single y (mem_of_mem_eraseP hy') g hg hya hact
    exact id_ne_of_mem_eraseP h.ids hy' (by rw [hyg, hid])

theorem Authority.succ : Authority (n + 1) s :=
  { h with bound := fun x hx => Nat.lt_succ_of_lt (h.bound x hx) }

theorem Authority.createGuest (input : Bool) : Authority (n + 1) (s.createGuest n input) := by
  have hmono := h.succ
  unfold Session.createGuest
  split_ifs
  · exact hmono
  have hcases {x : Guest} (hx : x ∈ s.guests ++ [⟨n, input, none, [], 0, false, 0, none⟩]) :
      x ∈ s.guests ∨ x.id = n ∧ x.active = false := by
    rw [mem_append, mem_singleton] at hx
    rcases hx with hx | rfl
    · exact .inl hx
    · exact .inr ⟨rfl, rfl⟩
  have hact {x : Guest} (hx : x ∈ s.guests ++ [⟨n, input, none, [], 0, false, 0, none⟩])
      (ha : x.active = true) : x ∈ s.guests := by
    rcases hcases hx with hx | ⟨-, hfalse⟩
    · exact hx
    · rw [hfalse] at ha
      cases ha
  refine ⟨⟨?_, fun x hx => ?_, fun x hx ha => h.connected x (hact hx ha) ha,
    fun x hx y hy ha hb => h.single x (hact hx ha) y (hact hy hb) ha hb, fun role slot hs => ?_⟩,
    fun x hx ha => h.exclusive x (hact hx ha) ha⟩
  · rw [map_append, nodup_append]
    refine ⟨h.ids, nodup_singleton _, fun a ha b hb => ?_⟩
    obtain ⟨x, hx, rfl⟩ := mem_map.mp ha
    rw [map_singleton, mem_singleton] at hb
    exact hb ▸ Nat.ne_of_lt (h.bound x hx)
  · rcases hcases hx with hx | ⟨hid, -⟩
    · exact hmono.bound x hx
    · omega
  · have hown := h.owned role slot hs
    cases role with
    | host => exact hown
    | client =>
      rcases hown with hown | ⟨y, hy, hya, h1, h2⟩
      · exact .inl hown
      · exact .inr ⟨y, mem_append_left _ hy, hya, h1, h2⟩

end

/-! ## Relay registrations -/

theorem owned_of_ticket {owner : Owner} {slot : RelaySlot}
    (h : s.relayOwnerForTicket role ticket = some owner) (ho : slot.owner = owner)
    (hg : slot.socketGeneration = ticket.socketGeneration) : s.Owned role slot := by
  subst ho
  unfold relayOwnerForTicket at h
  split at h
  · split_ifs at h with hc
    simp only [Bool.and_eq_true, decide_eq_true_eq] at hc
    exact ⟨(some.inj h).symm, hc.1.1.2, hg.trans hc.1.2⟩
  · cases h
  · split_ifs at h with hc
    simp only [Bool.and_eq_true, decide_eq_true_eq] at hc
    exact .inl ⟨(some.inj h).symm, hc.1.1.2, hg.trans hc.1.2⟩
  · cases h
  split_ifs at h with hc
  obtain ⟨g, hf, ho⟩ := map_eq_some_iff.mp h
  have hp := find?_some hf
  simp only [Bool.and_eq_true, decide_eq_true_eq] at hp
  exact .inr ⟨g, mem_of_find?_eq_some hf, hp.1.1.1.1, ho.symm, hg.trans hp.1.2.symm⟩

theorem Authority.setSlot (h : Authority n s) {slot : RelaySlot} (ho : s.Owned role slot) :
    Authority n (s.setSlot role (some slot)) := by
  refine ⟨{ h with owned := fun r slot' hs => ?_ }, h.exclusive⟩
  obtain ⟨rfl, ⟨⟩⟩ | ⟨-, hs⟩ := Function.update_cases (f := s.relay) hs
  · cases r <;> exact ho
  · have hown := h.owned r slot' hs
    cases r <;> exact hown

theorem Authority.register (h : Authority n s) {now : ℕ}
    (hr : s.register role source ticket now = some s') : Authority n s' := by
  obtain ⟨owner, ho, rfl⟩ := map_eq_some_iff.mp hr
  exact h.setSlot (owned_of_ticket ho rfl rfl)

theorem Authority.unregister (h : Authority n s)
    (hr : s.unregister role source ticket = some s') : Authority n s' := by
  obtain ⟨owner, -, rfl⟩ := map_eq_some_iff.mp hr
  split_ifs
  · refine h.of_relay rfl rfl fun r slot hs => ⟨slot, ?_, rfl, rfl⟩
    obtain ⟨-, ⟨⟩⟩ | ⟨-, hs⟩ := Function.update_cases (f := s.relay) hs
    exact hs
  · exact h

theorem Authority.filterSlots (h : Authority n s) (p : RelaySlot → Bool) :
    Authority n { s with relay := fun role => (s.relay role).filter p } :=
  h.of_relay rfl rfl fun _ slot hs => ⟨slot, (filter_eq_some_iff.mp hs).1, rfl, rfl⟩

theorem accept_keeps (slot : RelaySlot) (bytes now : ℕ) :
    (slot.accept bytes now).1.addr = slot.addr ∧ (slot.accept bytes now).1.owner = slot.owner ∧
      (slot.accept bytes now).1.socketGeneration = slot.socketGeneration := by
  unfold RelaySlot.accept
  dsimp only
  split_ifs <;> exact ⟨rfl, rfl, rfl⟩

theorem roleOfAddr_spec {slot : RelaySlot} (h : s.roleOfAddr source = some (role, slot)) :
    s.relay role = some slot ∧ slot.addr = source := by
  unfold roleOfAddr at h
  split at h
  · next hf =>
    cases h
    simpa [filter_eq_some_iff] using hf
  · obtain ⟨slot', hf, heq⟩ := map_eq_some_iff.mp h
    cases heq
    simpa [filter_eq_some_iff] using hf

theorem Authority.relayDatagram (h : Authority n s) {bytes now : ℕ} {dest : Option ℕ}
    (hr : s.relayDatagram source bytes now = some (s', dest)) : Authority n s' := by
  unfold Session.relayDatagram at hr
  split_ifs at hr
  obtain ⟨⟨role, slot⟩, hs, heq⟩ := map_eq_some_iff.mp hr
  cases heq
  obtain ⟨hslot, -⟩ := roleOfAddr_spec hs
  refine h.of_relay rfl rfl fun r slot' hs' => ?_
  obtain ⟨rfl, ⟨⟩⟩ | ⟨-, hs'⟩ := Function.update_cases (f := s.relay) hs'
  · exact ⟨slot, hslot, (accept_keeps slot bytes now).2⟩
  · exact ⟨slot', hs', rfl, rfl⟩

/-! ## Messages -/

theorem closes_queueFor (s : Session) (role : Role) (m : Envelope) : Closes s (s.queueFor role m) := by
  unfold queueFor
  split
  · split_ifs
    · refine ⟨fun _ => rfl, fun _ => .inl ⟨rfl, rfl⟩, ?_, fun _ _ h => ⟨h, fun _ _ => rfl⟩, le_rfl⟩
      apply core_modifyFirst
      exact fun _ => rfl
    · exact s.closes_setPending .client _ _
  · exact s.closes_setPending .host _ _

theorem receiveSignal_session (s : Session) (net : Net) (role : Role) (generation channel : ℕ)
    (m : Envelope) : (s.receiveSignal net role generation channel m).1 = s ∨
      m.generation = none ∧
        (s.receiveSignal net role generation channel m).1 = s.queueFor role m := by
  unfold receiveSignal
  cases hm : m.generation with
  | some g => exact .inl rfl
  | none =>
    simp only [dispatchGenericMessage]
    split_ifs
    · exact .inl rfl
    · exact .inr ⟨trivial, rfl⟩
    · exact .inl rfl

end Session

/-! ## Runs -/

namespace Room

variable {r r' : Room}

theorem eq_of_live {now : ℕ} {next : Room} (h : r.live now next = some r') : r' = next := by
  unfold live at h
  split_ifs at h
  exact (some.inj h).symm

theorem authority_admitPrimary (h : r.session.Authority r.issued) (role : PrimaryRole) (now : ℕ) :
    (r.admitPrimary role now).session.Authority (r.admitPrimary role now).issued := by
  have ha := r.session.admits r.net role r.tasks.length r.issued now
  have hslots := h.succ.toSlots.admits ha
  have hres := r.session.admit_result r.net role r.tasks.length r.issued now
  unfold admitPrimary
  simp only
  split
  · exact hslots.parkActive _
  · refine h.succ.of_slots hslots ha.guests ?_
    rcases ha.sender .client (by decide) with ⟨hs, -⟩ | ⟨hs, -⟩
    · exact .inl hs
    · exact .inr hs
  · rename_i heq
    rw [heq] at hres
    exact h.succ.of_slots hslots ha.guests (.inr (hres .client))

theorem authority_of_act {a : Act} (h : r.session.Authority r.issued) (hs : r.act a = some r') :
    r'.session.Authority r'.issued := by
  cases a with
  | admitPrimary role now =>
    rw [eq_of_live hs]
    exact authority_admitPrimary h role now
  | admitGuest id now =>
    rw [eq_of_live hs]
    exact h.succ.admitGuest _ id _ _
  | disconnect channel now =>
    obtain ⟨task, -, hl⟩ := bind_eq_some_iff.mp hs
    rw [eq_of_live hl]
    unfold disconnect
    split
    · exact h.closes (Session.closes_disconnectPrimary _ _ _ _)
    · exact h.cleanupGuest _ _
  | receive channel m now =>
    obtain ⟨task, -, hl⟩ := bind_eq_some_iff.mp hs
    rw [eq_of_live hl]
    show Session.Authority r.issued (r.session.receiveSignal _ _ _ _ _).1
    rcases r.session.receiveSignal_session _ task.role task.generation channel m with heq | ⟨-, heq⟩
    · rw [heq]
      exact h
    · rw [heq]
      exact h.closes (Session.closes_queueFor _ _ _)
  | reply channel =>
    obtain ⟨task, -, rfl⟩ := map_eq_some_iff.mp hs
    exact h
  | notify =>
    simp only [act] at hs
    split at hs
    · cases hs
    · cases hs
      exact h
  | write channel | closeWriter channel =>
    cases hs
    exact h
  | createGuest input now =>
    rw [eq_of_live hs]
    exact h.createGuest input
  | kickGuest id now =>
    rw [eq_of_live hs]
    exact h.kickGuest id
  | reissue subject proof now =>
    obtain ⟨ticket, -, hl⟩ := bind_eq_some_iff.mp hs
    rw [eq_of_live hl]
    exact h
  | register role source ticket now =>
    simp only [act] at hs
    split_ifs at hs
    obtain ⟨s, hr, hl⟩ := bind_eq_some_iff.mp hs
    rw [eq_of_live hl]
    exact h.register hr
  | unregister role source ticket now =>
    simp only [act] at hs
    split_ifs at hs
    obtain ⟨s, hr, hl⟩ := bind_eq_some_iff.mp hs
    rw [eq_of_live hl]
    exact h.unregister hr
  | datagram source bytes now =>
    obtain ⟨⟨s, dest⟩, hr, rfl⟩ := map_eq_some_iff.mp hs
    exact h.relayDatagram hr
  | evict addr | reapSlots now =>
    cases hs
    exact h.filterSlots _

/-- **Every action keeps the authority over the relay slots.** -/
theorem authority_of_step {a : Act} (h : r.session.Authority r.issued) (hs : r.step a = some r') :
    r'.session.Authority r'.issued :=
  authority_of_act (r := { r with net := { r.net with turn := r.net.turn + 1 } }) h hs

end Room

end OpenStream.Signal
