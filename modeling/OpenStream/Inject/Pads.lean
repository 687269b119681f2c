import OpenStream.Inject.Replay

/-!
# Plugged pads

What a pad shows is what the injector last recorded of its buttons, and a pad in no slot shows
nothing.

* **`TracksPads.centrePads`**
-/

namespace OpenStream.Inject

open Function List Injector

variable {log ems : List Emission} {id : BitVec 32} {code : ℕ} {events : List Event}
  {before after buttons : Bits}

/-! ## One pad -/

def STICKS : List ℕ := [axis.X, axis.Y, axis.RX, axis.RY, axis.Z, axis.RZ]

def hat (buttons : Bits) (code : ℕ) : ℤ :=
  if code = axis.HAT0X then hatX buttons else if code = axis.HAT0Y then hatY buttons else 0

theorem hat_zero (code : ℕ) : hat 0 code = 0 := by
  unfold hat
  split_ifs <;> rfl

theorem hat_eq (h : (before ^^^ after) &&& HAT = 0) : hat before code = hat after code := by
  rw [hat, hat, hatX_eq h, hatY_eq h]

structure Shows (log : List Emission) (id : BitVec 32) (buttons : Bits) : Prop where
  down : ∀ code, isDown log (.gamepad id) code = true →
    ∃ bit ∈ KEYED_BITS, keyForBit bit = some code ∧ buttons &&& bit ≠ 0
  axes : ∀ code, code ∉ STICKS → axisAt log (.gamepad id) code = hat buttons code

theorem Rests.shows (h : Rests log (.gamepad id)) : Shows log id 0 := by
  refine ⟨fun code hdown => ?_, fun code _ => ?_⟩
  · rw [h.up code] at hdown
    cases hdown
  · rw [h.centred rfl code, hat_zero]

theorem Shows.other (h : Shows log id buttons) (hems : ∀ em ∈ ems, em.device ≠ .gamepad id) :
    Shows (log ++ ems) id buttons := by
  refine ⟨fun code hdown => h.down code ?_, fun code hcode => ?_⟩
  · rwa [isDown, replay_other hems] at hdown
  · rw [axisAt, replay_other hems]
    exact h.axes code hcode

theorem Shows.sticks (h : Shows log id buttons) (hlen : events.length < SCRATCH)
    (hevents : ∀ e ∈ events, e.kind = EV_ABS ∧ e.code ∈ STICKS) :
    Shows (log ++ [batch (.gamepad id) events]) id buttons := by
  refine ⟨fun code hdown => h.down code ?_, fun code hcode => ?_⟩
  · rwa [isDown_batch hlen, foldl_press_of_ne] at hdown
    intro e he
    rw [(hevents e he).1]
    exact .inl (by decide)
  · rw [axisAt_batch hlen, foldl_turn_of_ne]
    · exact h.axes code hcode
    · intro e he
      exact .inr fun hec => hcode (hec ▸ (hevents e he).2)

/-! ### Buttons that change -/

def bitEvent (before after bit : Bits) : Option Event :=
  if (before ^^^ after) &&& bit = 0 then none
  else (keyForBit bit).map fun code => ⟨EV_KEY, code, if after &&& bit = 0 then 0 else 1⟩

/-- The events of the direction pad, if it changed. -/
def hatEvents (before after : Bits) : List Event :=
  if (before ^^^ after) &&& HAT = 0 then []
  else [⟨EV_ABS, axis.HAT0X, hatX after⟩, ⟨EV_ABS, axis.HAT0Y, hatY after⟩]

theorem changes_eq (before after : Bits) :
    changes before after = KEYED_BITS.filterMap (bitEvent before after) ++ hatEvents before after :=
  rfl

theorem bitEvent_some {bit : Bits} {e : Event} (h : bitEvent before after bit = some e) :
    ∃ code, keyForBit bit = some code ∧ e = ⟨EV_KEY, code, if after &&& bit = 0 then 0 else 1⟩ := by
  by_cases hsame : (before ^^^ after) &&& bit = 0
  · rw [bitEvent, if_pos hsame] at h
    cases h
  · rw [bitEvent, if_neg hsame] at h
    obtain ⟨code, hcode, rfl⟩ := Option.map_eq_some_iff.mp h
    exact ⟨code, hcode, rfl⟩

theorem bitEvent_none {bit : Bits} (h : bitEvent before after bit = none)
    (hkey : keyForBit bit = some code) : (before ^^^ after) &&& bit = 0 := by
  by_contra hchanged
  rw [bitEvent, if_neg hchanged, hkey] at h
  cases h

theorem hatEvents_kind {e : Event} (h : e ∈ hatEvents before after) : e.kind = EV_ABS := by
  unfold hatEvents at h
  split_ifs at h
  · cases h
  · rcases mem_pair.mp h with rfl | rfl <;> rfl

theorem length_changes (before after : Bits) : (changes before after).length < SCRATCH := by
  have hbits := length_filterMap_le (bitEvent before after) KEYED_BITS
  have hkeyed : KEYED_BITS.length = 11 := rfl
  have hhat : (hatEvents before after).length ≤ 2 := by
    unfold hatEvents
    split_ifs <;> simp
  rw [changes_eq, length_append, SCRATCH]
  omega

theorem down_of_bits (bits : List Bits) (b : Bool)
    (h : (bits.filterMap (bitEvent before after)).foldl (press code) b = true) :
    (∃ bit ∈ bits, keyForBit bit = some code ∧ after &&& bit ≠ 0) ∨
      (b = true ∧ ∀ bit ∈ bits, keyForBit bit = some code → (before ^^^ after) &&& bit = 0) := by
  induction bits generalizing b with
  | nil => exact .inr ⟨h, nofun⟩
  | cons bit bits ih =>
    cases hev : bitEvent before after bit with
    | none =>
      rw [filterMap_cons_none hev] at h
      obtain ⟨x, hx, hkey⟩ | ⟨hb, hall⟩ := ih b h
      · exact .inl ⟨x, mem_cons_of_mem _ hx, hkey⟩
      · refine .inr ⟨hb, fun x hx hkey => ?_⟩
        rcases mem_cons.mp hx with rfl | hx
        · exact bitEvent_none hev hkey
        · exact hall x hx hkey
    | some e =>
      rw [filterMap_cons_some hev, foldl_cons] at h
      obtain ⟨c, hc, rfl⟩ := bitEvent_some hev
      obtain ⟨x, hx, hkey⟩ | ⟨hb, hall⟩ := ih _ h
      · exact .inl ⟨x, mem_cons_of_mem _ hx, hkey⟩
      · by_cases hcode : c = code
        · subst hcode
          refine .inl ⟨bit, mem_cons_self, hc, fun hzero => ?_⟩
          simp [press, hzero] at hb
        · rw [press_of_ne (.inr hcode)] at hb
          refine .inr ⟨hb, fun x hx hkey => ?_⟩
          rcases mem_cons.mp hx with rfl | hx
          · exact absurd (Option.some.inj (hc.symm.trans hkey)) hcode
          · exact hall x hx hkey

theorem isDown_buttonsChanged : isDown (log ++ buttonsChanged id before after) (.gamepad id) code =
    (changes before after).foldl (press code) (isDown log (.gamepad id) code) := by
  unfold buttonsChanged
  split_ifs with h
  · rw [isEmpty_iff.mp h, append_nil]
    rfl
  · exact isDown_batch (length_changes before after)

theorem axisAt_buttonsChanged :
    axisAt (log ++ buttonsChanged id before after) (.gamepad id) code =
      (changes before after).foldl (turn code) (axisAt log (.gamepad id) code) := by
  unfold buttonsChanged
  split_ifs with h
  · rw [isEmpty_iff.mp h, append_nil]
    rfl
  · exact axisAt_batch (length_changes before after)

theorem device_buttonsChanged : ∀ em ∈ buttonsChanged id before after, em.device = .gamepad id := by
  intro em hem
  unfold buttonsChanged at hem
  split_ifs at hem
  · cases hem
  · rw [mem_singleton.mp hem, device_batch]

theorem Shows.buttonsChanged (h : Shows log id before) (after : Bits) :
    Shows (log ++ buttonsChanged id before after) id after := by
  refine ⟨fun code hdown => ?_, fun code hcode => ?_⟩
  · rw [isDown_buttonsChanged, changes_eq, foldl_append, foldl_press_of_ne] at hdown
    · obtain hset | ⟨hwas, hunchanged⟩ := down_of_bits KEYED_BITS _ hdown
      · exact hset
      · obtain ⟨bit, hbit, hkey, hon⟩ := h.down code hwas
        exact ⟨bit, hbit, hkey, and_eq_of_unchanged (hunchanged bit hbit hkey) ▸ hon⟩
    · intro e he
      rw [hatEvents_kind he]
      exact .inl (by decide)
  · have hkeys : (KEYED_BITS.filterMap (bitEvent before after)).foldl (turn code)
        (axisAt log (.gamepad id) code) = axisAt log (.gamepad id) code := by
      refine foldl_turn_of_ne fun e he => .inl ?_
      obtain ⟨bit, -, hbit⟩ := mem_filterMap.mp he
      obtain ⟨c, -, rfl⟩ := bitEvent_some hbit
      exact (by decide : EV_KEY ≠ EV_ABS)
    rw [axisAt_buttonsChanged, changes_eq, foldl_append, hkeys, h.axes code hcode]
    unfold hatEvents
    split_ifs with hsame
    · exact hat_eq hsame
    · simp only [foldl_cons, foldl_nil, turn, hat, true_and]
      by_cases hx : code = axis.HAT0X
      · subst hx
        simp [axis.HAT0X, axis.HAT0Y]
      · by_cases hy : code = axis.HAT0Y
        · simp [hy, axis.HAT0X, axis.HAT0Y]
        · simp [hx, hy, Ne.symm hx, Ne.symm hy]

theorem settles_buttonsChanged : ∀ em ∈ buttonsChanged id before 0, em.Settles := by
  intro em hem
  unfold Inject.buttonsChanged at hem
  split_ifs at hem
  · cases hem
  rw [mem_singleton.mp hem]
  refine settles_batch (length_changes before 0) fun e he => ?_
  rw [changes_eq] at he
  rcases mem_append.mp he with he | he
  · obtain ⟨bit, -, hbit⟩ := mem_filterMap.mp he
    obtain ⟨c, -, rfl⟩ := bitEvent_some hbit
    exact ⟨fun _ => if_pos BitVec.zero_and, nofun⟩
  · unfold hatEvents at he
    split_ifs at he
    · cases he
    · rcases mem_pair.mp he with rfl | rfl
      · exact ⟨fun _ => rfl, fun _ => rfl⟩
      · exact ⟨fun _ => rfl, fun _ => rfl⟩

/-! ### A pad let go -/

theorem length_centred : centred.length < SCRATCH := by decide

theorem foldl_turn_centred (h : code ∈ STICKS) (v : ℤ) :
    centred.foldl (turn code) v = 0 := by
  simp only [STICKS, mem_cons, not_mem_nil, or_false] at h
  rcases h with rfl | rfl | rfl | rfl | rfl | rfl <;> rfl

theorem settles_centred : (batch (.gamepad id) centred).Settles := by
  refine settles_batch length_centred fun e he => ?_
  obtain ⟨code, -, rfl⟩ := mem_map.mp he
  exact ⟨fun _ => rfl, fun _ => rfl⟩

theorem Shows.rests (h : Shows log id 0) :
    Rests (log ++ [batch (.gamepad id) centred]) (.gamepad id) := by
  have hshows : Shows (log ++ [batch (.gamepad id) centred]) id 0 := by
    refine h.sticks length_centred fun e he => ?_
    obtain ⟨code, hcode, rfl⟩ := mem_map.mp he
    exact ⟨rfl, hcode⟩
  refine ⟨fun code => Bool.eq_false_iff.mpr fun hdown => ?_, fun _ code => ?_⟩
  · obtain ⟨bit, -, -, hon⟩ := hshows.down code hdown
    exact hon BitVec.zero_and
  · by_cases hcode : code ∈ STICKS
    · rw [axisAt_batch length_centred, foldl_turn_centred hcode]
    · rw [hshows.axes code hcode, hat_zero]

/-! ## The table of pads -/

/-- Every slot holds what its pad shows, a pad in no slot rests, and no pad has two slots. -/
structure TracksPads (pads : Fin MAX_PADS → Option Pad) (log : List Emission) : Prop where
  plugged : ∀ i p, pads i = some p → Shows log p.id p.buttons
  absent : ∀ id, (∀ i p, pads i = some p → p.id ≠ id) → Rests log (.gamepad id)
  distinct : ∀ i j p q, pads i = some p → pads j = some q → p.id = q.id → i = j

variable {pads : Fin MAX_PADS → Option Pad} {i : Fin MAX_PADS} {s s' : Injector}

section

variable (h : TracksPads pads log)
include h

theorem TracksPads.other (hems : ∀ em ∈ ems, em.device.kind ≠ .gamepad) :
    TracksPads pads (log ++ ems) := by
  have hne (id : BitVec 32) : ∀ em ∈ ems, em.device ≠ .gamepad id :=
    fun em hem he => hems em hem (he ▸ rfl)
  exact ⟨fun i p hi => (h.plugged i p hi).other (hne p.id),
    fun id hid => (h.absent id hid).append fun em hem he => absurd he (hne id em hem), h.distinct⟩

/-- **One pad takes a new state.** Emissions for it alone leave the others as they are. -/
theorem TracksPads.set (hi : pads i = some ⟨id, before⟩)
    (hshows : Shows (log ++ ems) id after) (hems : ∀ em ∈ ems, em.device = .gamepad id) :
    TracksPads (update pads i (some ⟨id, after⟩)) (log ++ ems) := by
  have hne {id' : BitVec 32} (hid : id ≠ id') : ∀ em ∈ ems, em.device ≠ .gamepad id' := by
    intro em hem he
    rw [hems em hem] at he
    exact hid (Device.gamepad.inj he)
  -- a slot of the new table has its old pad's identifier
  have hwas {j : Fin MAX_PADS} {p : Pad} (hj : update pads i (some ⟨id, after⟩) j = some p) :
      ∃ q, pads j = some q ∧ q.id = p.id := by
    obtain ⟨rfl, ⟨⟩⟩ | ⟨-, hj⟩ := update_cases hj
    · exact ⟨_, hi, rfl⟩
    · exact ⟨p, hj, rfl⟩
  refine ⟨fun j p hj => ?_, fun id' hid' => ?_, fun j k p q hj hk hpq => ?_⟩
  · obtain ⟨rfl, ⟨⟩⟩ | ⟨hji, hj⟩ := update_cases hj
    · exact hshows
    · exact (h.plugged j p hj).other (hne fun hid => hji (h.distinct j i _ _ hj hi hid.symm))
  · have hid : id ≠ id' := hid' i _ (update_self ..)
    refine (h.absent id' fun j p hj => ?_).append fun em hem he => absurd he (hne hid em hem)
    by_cases hji : j = i
    · subst hji
      rw [hi] at hj
      cases hj
      exact hid
    · exact hid' j p (by rw [update_of_ne hji]; exact hj)
  · obtain ⟨p', hp', hpid⟩ := hwas hj
    obtain ⟨q', hq', hqid⟩ := hwas hk
    exact h.distinct j k p' q' hp' hq' (hpid.trans (hpq.trans hqid.symm))

theorem TracksPads.take (hfree : pads i = none)
    (hid : ∀ j p, pads j = some p → p.id ≠ id) : TracksPads (update pads i (some ⟨id, 0⟩)) log := by
  refine ⟨fun j p hj => ?_, fun id' hid' => ?_, fun j k p q hj hk hpq => ?_⟩
  · obtain ⟨rfl, ⟨⟩⟩ | ⟨-, hj⟩ := update_cases hj
    · exact (h.absent id hid).shows
    · exact h.plugged j p hj
  · refine h.absent id' fun j p hj => hid' j p ?_
    rw [update_of_ne]
    · exact hj
    · rintro rfl
      rw [hfree] at hj
      cases hj
  · obtain ⟨rfl, ⟨⟩⟩ | ⟨-, hj'⟩ := update_cases hj
    · obtain ⟨rfl, -⟩ | ⟨-, hk⟩ := update_cases hk
      · rfl
      · exact absurd hpq.symm (hid k q hk)
    · obtain ⟨rfl, ⟨⟩⟩ | ⟨-, hk⟩ := update_cases hk
      · exact absurd hpq (hid j p hj')
      · exact h.distinct j k p q hj' hk hpq

theorem TracksPads.pull (hi : pads i = some ⟨id, buttons⟩) :
    TracksPads (update pads i none) (log ++ [.unplug id]) := by
  have hne {id' : BitVec 32} (hid : id ≠ id') :
      ∀ em ∈ [Emission.unplug id], em.device ≠ .gamepad id' := by
    intro em hem he
    rw [mem_singleton.mp hem] at he
    exact hid (Device.gamepad.inj he)
  have hold {j : Fin MAX_PADS} {p : Pad} (hj : update pads i none j = some p) :
      j ≠ i ∧ pads j = some p := by
    obtain ⟨-, ⟨⟩⟩ | hj := update_cases hj
    exact hj
  refine ⟨fun j p hj => ?_, fun id' hid' => ?_, fun j k p q hj hk => ?_⟩
  · obtain ⟨hji, hj⟩ := hold hj
    exact (h.plugged j p hj).other (hne fun hid => hji (h.distinct j i _ _ hj hi hid.symm))
  · by_cases hid : id = id'
    · subst hid
      exact ⟨fun code => replay_unplug id, fun _ code => replay_unplug id⟩
    · refine (h.absent id' fun j p hj => ?_).append fun em hem he => absurd he (hne hid em hem)
      by_cases hji : j = i
      · subst hji
        rw [hi] at hj
        cases hj
        exact hid
      · exact hid' j p (by rw [update_of_ne hji]; exact hj)
  · exact h.distinct j k p q (hold hj).2 (hold hk).2

end

/-! ## The methods -/

theorem padSlot_some (h : s.padSlot id = some i) : ∃ buttons, s.pads i = some ⟨id, buttons⟩ := by
  have hfound := find?_some h
  rw [Option.any_eq_true] at hfound
  obtain ⟨p, hp, hid⟩ := hfound
  obtain rfl := of_decide_eq_true hid
  exact ⟨p.buttons, hp⟩

theorem padSlot_none (h : s.padSlot id = none) : ∀ j p, s.pads j = some p → p.id ≠ id := by
  intro j p hj hid
  have hmiss := find?_eq_none.mp h j (mem_finRange j)
  rw [hj] at hmiss
  simp [hid] at hmiss

theorem pad_spec (h : s.pad id = some (s', i)) :
    (∃ pads, s' = { s with pads := pads }) ∧ (∃ buttons, s'.pads i = some ⟨id, buttons⟩) ∧
      ∀ log, TracksPads s.pads log → TracksPads s'.pads log := by
  unfold pad at h
  split at h
  · next j hslot =>
    cases h
    exact ⟨⟨s.pads, rfl⟩, padSlot_some hslot, fun _ ht => ht⟩
  · next hslot =>
    obtain ⟨j, hfree, heq⟩ := Option.map_eq_some_iff.mp h
    cases heq
    have hfound := find?_some hfree
    have hnone : s.pads i = none := Option.isNone_iff_eq_none.mp hfound
    exact ⟨⟨_, rfl⟩, ⟨0, update_self ..⟩, fun _ ht => ht.take hnone (padSlot_none hslot)⟩

/-- What a method for pads does: only the table changes, only pads are reached, and the table still
tells what they show. -/
structure Pads (s : Injector) (r : Injector.Done) : Prop where
  state : ∃ pads, r.1 = { s with pads := pads }
  device : ∀ em ∈ r.2, em.device.kind = .gamepad
  tracks : ∀ log, TracksPads s.pads log → TracksPads r.1.pads (log ++ r.2)

theorem Pads.nothing (s : Injector) : Pads s (s, []) :=
  ⟨⟨s.pads, rfl⟩, nofun, fun log h => by rwa [append_nil]⟩

theorem Pads.lookup (h : s.pad id = some (s', i)) {r : Injector.Done} (hr : Pads s' r) : Pads s r := by
  obtain ⟨⟨pads, rfl⟩, -, htake⟩ := pad_spec h
  obtain ⟨pads', hr'⟩ := hr.state
  exact ⟨⟨pads', hr'⟩, hr.device, fun log ht => hr.tracks log (htake log ht)⟩

theorem Pads.set (hi : s.pads i = some ⟨id, before⟩) (hems : ∀ em ∈ ems, em.device = .gamepad id)
    (hshows : ∀ log, Shows log id before → Shows (log ++ ems) id after) :
    Pads s (s.setPad i (some ⟨id, after⟩), ems) :=
  ⟨⟨_, rfl⟩, fun em hem => by rw [hems em hem]; rfl,
    fun log h => h.set hi (hshows log (h.plugged i _ hi)) hems⟩

theorem gamepadButton_pads (s : Injector) (index : ℕ) (down : Bool) (id : BitVec 32) :
    Pads s (s.gamepadButton index down id) := by
  unfold gamepadButton
  split
  · exact .nothing s
  · split
    · exact .nothing s
    · next s' i hpad =>
      obtain ⟨-, ⟨buttons, hi⟩, -⟩ := pad_spec hpad
      rw [hi]
      exact .lookup hpad (.set hi device_buttonsChanged fun log h => h.buttonsChanged _)

theorem axisEvent_stick {which : ℕ} {value : BitVec 16} {e : Event}
    (h : axisEvent which value = some e) : e.kind = EV_ABS ∧ e.code ∈ STICKS := by
  unfold axisEvent at h
  split at h
  all_goals cases h
  all_goals exact ⟨rfl, by simp [STICKS]⟩

theorem gamepadAxis_pads (s : Injector) (which : ℕ) (value : BitVec 16) (id : BitVec 32) :
    Pads s (s.gamepadAxis which value id) := by
  unfold gamepadAxis
  split
  · exact .nothing s
  · next s' i hpad =>
    obtain ⟨-, ⟨buttons, hi⟩, -⟩ := pad_spec hpad
    rw [hi]
    refine .lookup hpad ?_
    cases hev : axisEvent which value with
    | none => exact .nothing s'
    | some e =>
      have hsame : s' = s'.setPad i (some ⟨id, buttons⟩) := by
        rw [setPad, ← hi, update_eq_self]
      have hset : Pads s' (s'.setPad i (some ⟨id, buttons⟩), [batch (.gamepad id) [e]]) := by
        refine .set hi (fun em hem => ?_) fun log h => h.sticks (by simp [SCRATCH]) fun x hx => ?_
        · rw [mem_singleton.mp hem, device_batch]
        · exact mem_singleton.mp hx ▸ axisEvent_stick hev
      rw [← hsame] at hset
      exact hset

theorem unplug_pads (s : Injector) (id : BitVec 32) : Pads s (s.unplug id) := by
  unfold unplug
  split
  · exact .nothing s
  · next i hslot =>
    obtain ⟨buttons, hi⟩ := padSlot_some hslot
    refine ⟨⟨_, rfl⟩, fun em hem => ?_, fun log h => h.pull hi⟩
    rw [mem_singleton.mp hem]
    rfl

theorem padState_pads (s : Injector) (id : BitVec 32) (body : Bytes.Str) :
    Pads s (s.padState id body) := by
  unfold padState
  split_ifs
  · exact .nothing s
  · dsimp only
    split
    · exact .nothing s
    · next s' i hpad =>
      obtain ⟨-, ⟨buttons, hi⟩, -⟩ := pad_spec hpad
      rw [hi]
      refine .lookup hpad (.set hi (fun em hem => ?_) fun log h => ?_)
      · exact forall_mem_concat device_buttonsChanged (device_batch ..) em hem
      · rw [← append_assoc]
        refine (h.buttonsChanged _).sticks (by simp [SCRATCH]) fun e he => ?_
        simp only [mem_cons, not_mem_nil, or_false] at he
        rcases he with rfl | rfl | rfl | rfl | rfl | rfl <;> exact ⟨rfl, by simp [STICKS]⟩

/-! ### Letting go of all pads -/

/-- A state of the loop over the slots: those that are done hold pads at rest. -/
structure Centring (s : Injector) (log : List Emission) (done : List (Fin MAX_PADS))
    (r : Injector.Done) : Prop where
  state : ∃ pads, r.1 = { s with pads := pads }
  emits : ∀ em ∈ r.2, em.device.kind = .gamepad ∧ em.Settles
  tracks : TracksPads r.1.pads (log ++ r.2)
  rests : ∀ j ∈ done, ∀ p, r.1.pads j = some p → Rests (log ++ r.2) (.gamepad p.id)

theorem Centring.step {done : List (Fin MAX_PADS)} {r : Injector.Done} (h : Centring s log done r)
    (i : Fin MAX_PADS) : Centring s log (done ++ [i]) (centrePad r i) := by
  unfold centrePad
  cases hi : r.1.pads i with
  | none =>
    refine ⟨h.state, h.emits, h.tracks, forall_mem_concat h.rests fun p hp => ?_⟩
    rw [hi] at hp
    cases hp
  | some p =>
    obtain ⟨pads, hstate⟩ := h.state
    have hshows : Shows (log ++ r.2 ++ buttonsChanged p.id p.buttons 0) p.id 0 :=
      (h.tracks.plugged i p hi).buttonsChanged 0
    have hrests := hshows.rests
    have hdevice : ∀ em ∈ buttonsChanged p.id p.buttons 0 ++ [batch (.gamepad p.id) centred],
        em.device = .gamepad p.id :=
      forall_mem_concat device_buttonsChanged (device_batch ..)
    have hsettles : ∀ em ∈ buttonsChanged p.id p.buttons 0 ++ [batch (.gamepad p.id) centred],
        em.Settles := forall_mem_concat settles_buttonsChanged settles_centred
    rw [append_assoc] at hrests
    refine ⟨⟨update r.1.pads i (some ⟨p.id, 0⟩), by rw [hstate]; rfl⟩, fun em hem => ?_, ?_,
      fun j hj q hq => ?_⟩
    · rcases mem_append.mp hem with hem | hem
      · exact h.emits em hem
      · exact ⟨by rw [hdevice em hem]; rfl, hsettles em hem⟩
    · rw [← append_assoc]
      exact h.tracks.set hi hrests.shows hdevice
    · rw [← append_assoc]
      dsimp only [setPad] at hq
      obtain ⟨rfl, ⟨⟩⟩ | ⟨hji, hq⟩ := update_cases hq
      · exact hrests
      · have hmem : j ∈ done := by
          rcases mem_append.mp hj with hj | hj
          · exact hj
          · exact absurd (mem_singleton.mp hj) hji
        exact (h.rests j hmem q hq).append fun em hem _ => hsettles em hem

theorem Centring.foldl {done : List (Fin MAX_PADS)} {r : Injector.Done}
    (h : Centring s log done r) (slots : List (Fin MAX_PADS)) :
    Centring s log (done ++ slots) (slots.foldl centrePad r) := by
  induction slots generalizing done r with
  | nil => rwa [append_nil]
  | cons i slots ih =>
    have hstep := ih (h.step i)
    rwa [append_assoc] at hstep

theorem centring_end (h : TracksPads s.pads log) :
    Centring s log (finRange MAX_PADS) s.centrePads := by
  have hstart : Centring s log [] (s, []) :=
    ⟨⟨s.pads, rfl⟩, nofun, by rwa [append_nil], nofun⟩
  exact hstart.foldl (finRange MAX_PADS)

/-- **After the pads are centred all of them are at rest.** -/
theorem TracksPads.centrePads (h : TracksPads s.pads log) :
    AtRest (log ++ s.centrePads.2) .gamepad := by
  have hend := centring_end h
  intro d hd
  cases d with
  | gamepad id =>
    by_cases hid : ∃ i p, s.centrePads.1.pads i = some p ∧ p.id = id
    · obtain ⟨i, p, hi, rfl⟩ := hid
      exact hend.rests i (mem_finRange i) p hi
    · exact hend.tracks.absent id fun i p hi he => hid ⟨i, p, hi, he⟩
  | keyboard | pointer | pointerAbsolute => cases hd

end OpenStream.Inject
