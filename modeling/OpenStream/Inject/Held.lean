import OpenStream.Inject.Replay

/-!
# Held keys and buttons

Whatever is down on the keyboard or on a pointer is held in the injector's tables, so letting go of
what is held there lets go of everything.

* **`TracksKeys.releaseKeys`**, **`TracksButtons.releaseButtons`**: after a release the devices are at
  rest.
-/

namespace OpenStream.Inject

open Function List Injector

variable {log ems : List Emission} {s : Injector} {code : ℕ} {b : Bool} {d : Device}

/-! ## Keys -/

def TracksKeys (keys : Fin KEY_SLOTS → Bool) (log : List Emission) : Prop :=
  ∀ code, isDown log .keyboard code = true → ∃ k : Fin KEY_SLOTS, (k : ℕ) = code ∧ keys k = true

theorem TracksKeys.other {keys : Fin KEY_SLOTS → Bool} (h : TracksKeys keys log)
    (hems : ∀ em ∈ ems, em.device ≠ .keyboard) : TracksKeys keys (log ++ ems) := by
  intro code hdown
  rw [isDown, replay_other hems] at hdown
  exact h code hdown

theorem Rests.tracksKeys (h : Rests log .keyboard) (keys : Fin KEY_SLOTS → Bool) :
    TracksKeys keys log := by
  intro code hdown
  rw [h.up code] at hdown
  cases hdown

theorem foldl_press_keyEvents (usage key code : ℕ) (pressed b : Bool) :
    (keyEvents usage key pressed).foldl (press code) b = if code = key then pressed else b := by
  have hscan : ((scanCode usage).toList.map fun scan => (⟨EV_MSC, MSC_SCAN, scan⟩ : Event)).foldl
      (press code) b = b := by
    refine foldl_press_of_ne fun e he => .inl ?_
    obtain ⟨scan, -, rfl⟩ := mem_map.mp he
    exact (by decide : EV_MSC ≠ EV_KEY)
  rw [keyEvents, foldl_append, hscan]
  by_cases hk : code = key
  · subst hk
    cases pressed <;> simp [press, EV_KEY, EV_SYN]
  · simp [press, EV_KEY, EV_SYN, hk, Ne.symm hk]

theorem foldl_press_tap (usage key code : ℕ) (b : Bool) :
    (tap usage key).foldl (press code) b = if code = key then false else b := by
  rw [tap, foldl_append, foldl_press_keyEvents, foldl_press_keyEvents]
  split_ifs <;> rfl

theorem length_keyEvents (usage key : ℕ) (pressed : Bool) :
    (keyEvents usage key pressed).length ≤ 3 := by
  unfold keyEvents
  cases scanCode usage <;> simp

theorem length_tap (usage key : ℕ) : (tap usage key).length ≤ 6 := by
  rw [tap, length_append]
  exact Nat.add_le_add (length_keyEvents ..) (length_keyEvents ..)

theorem lockSync_spec (s : Injector) (modifiers : BitVec 32) (injected : ℕ) :
    (s.lockSync modifiers injected).2.length ≤ 12 ∧
      ∀ code b, (s.lockSync modifiers injected).2.foldl (press code) b = true → b = true := by
  have hif (p : Prop) [Decidable p] (usage key : ℕ) :
      (if p then tap usage key else []).length ≤ 6 ∧
        ∀ code b, (if p then tap usage key else []).foldl (press code) b = true → b = true := by
    split_ifs
    · refine ⟨length_tap usage key, fun code b h => ?_⟩
      rw [foldl_press_tap] at h
      split_ifs at h
      exact h
    · exact ⟨Nat.zero_le _, fun _ _ h => h⟩
  unfold lockSync
  refine ⟨?_, fun code b h => ?_⟩
  · rw [length_append]
    exact Nat.add_le_add (hif _ _ _).1 (hif _ _ _).1
  · rw [foldl_append] at h
    exact (hif _ _ _).2 _ _ ((hif _ _ _).2 _ _ h)

theorem keyboard_cases (s : Injector) (usage : ℕ) (modifiers : BitVec 32) (pressed : Bool) :
    s.keyboard usage modifiers pressed = (s, []) ∨
      ∃ (key : Fin KEY_SLOTS) (num caps : Option Bool) (locks : List Event),
        s.keyboard usage modifiers pressed =
          ({ s with keys := update s.keys key pressed, numLock := num, capsLock := caps },
            [.emit .keyboard (locks ++ keyEvents usage key pressed)]) ∧
        ∀ code b, locks.foldl (press code) b = true → b = true := by
  unfold keyboard
  split_ifs
  · exact .inl rfl
  · split
    · exact .inl rfl
    · next key _ =>
      split_ifs with hk
      · exact .inl rfl
      · have hlocks := lockSync_spec { s with keys := update s.keys ⟨key, hk⟩ pressed } modifiers key
        have hlen := length_keyEvents usage key pressed
        refine .inr ⟨⟨key, hk⟩, some (modifiers &&& MOD_NUM ≠ 0), some (modifiers &&& MOD_CAPS ≠ 0),
          _, ?_, hlocks.2⟩
        dsimp only
        rw [foldl_push (by rw [length_nil, length_append, SCRATCH]; omega)]
        rfl
      · exact .inl rfl

theorem TracksKeys.keyboard (h : TracksKeys s.keys log) (usage : ℕ) (modifiers : BitVec 32)
    (pressed : Bool) :
    TracksKeys (s.keyboard usage modifiers pressed).1.keys
      (log ++ (s.keyboard usage modifiers pressed).2) := by
  obtain heq | ⟨key, num, caps, locks, heq, hlocks⟩ := keyboard_cases s usage modifiers pressed
  · rw [heq, append_nil]
    exact h
  · rw [heq]
    intro c hc
    dsimp only at hc ⊢
    rw [isDown, replay_emit, foldl_append, foldl_press_keyEvents] at hc
    split_ifs at hc with hck
    · exact ⟨key, hck.symm, by rw [update_self]; exact hc⟩
    · obtain ⟨k, rfl, hheld⟩ := h c (hlocks _ _ hc)
      exact ⟨k, rfl, by rw [update_of_ne fun he => hck (congrArg Fin.val he)]; exact hheld⟩

/-! ### Letting go of all keys -/

/-- A state of the mass release: what is down after what was handed over and what is in the buffer is
still held, and only releases are sent. -/
structure Releasing (log : List Emission)
    (st : (Fin KEY_SLOTS → Bool) × List Event × List Emission) : Prop where
  room : st.2.1.length + 1 < SCRATCH
  tracks : ∀ code, st.2.1.foldl (press code) (isDown (log ++ st.2.2) .keyboard code) = true →
    ∃ k : Fin KEY_SLOTS, (k : ℕ) = code ∧ st.1 k = true
  buffer : (Emission.emit .keyboard st.2.1).Settles
  out : ∀ em ∈ st.2.2, em.device = .keyboard ∧ em.Settles

variable {st : (Fin KEY_SLOTS → Bool) × List Event × List Emission} {events : List Event} {e : Event}

theorem report_eq (h : events.length < SCRATCH) :
    report events = events ++ [⟨EV_SYN, SYN_REPORT, 0⟩] := if_pos h

theorem isDown_report (h : events.length < SCRATCH) :
    isDown (log ++ [.emit d (report events)]) d code =
      events.foldl (press code) (isDown log d code) := by
  rw [report_eq h, isDown, replay_emit, foldl_append]
  rfl

theorem settles_append (h : (Emission.emit d events).Settles)
    (he : (e.kind = EV_KEY → e.value = 0) ∧ (e.kind = EV_ABS → e.value = 0)) :
    (Emission.emit d (events ++ [e])).Settles :=
  forall_mem_concat h he

theorem settles_report (hlen : events.length < SCRATCH) (h : (Emission.emit d events).Settles) :
    (Emission.emit d (report events)).Settles := by
  rw [report_eq hlen]
  exact settles_append h ⟨nofun, nofun⟩

theorem Releasing.push (h : Releasing log st) (key : Fin KEY_SLOTS) (code : ℕ)
    (hdown : (st.2.1 ++ [(⟨EV_KEY, key, 0⟩ : Event)]).foldl (press code)
      (isDown (log ++ st.2.2) .keyboard code) = true) :
    ∃ k : Fin KEY_SLOTS, (k : ℕ) = code ∧ update st.1 key false k = true := by
  rw [foldl_append, foldl_cons, foldl_nil] at hdown
  by_cases hc : (key : ℕ) = code
  · simp [press, hc] at hdown
  · rw [press_of_ne (.inr hc)] at hdown
    obtain ⟨k, rfl, hk⟩ := h.tracks code hdown
    exact ⟨k, rfl, by rw [update_of_ne fun he => hc (congrArg Fin.val he).symm]; exact hk⟩

theorem Releasing.step (h : Releasing log st) (key : Fin KEY_SLOTS) :
    Releasing log (releaseKey st key) := by
  have hroom := h.room
  have hpush : Inject.push st.2.1 ⟨EV_KEY, key, 0⟩ = st.2.1 ++ [⟨EV_KEY, key, 0⟩] :=
    if_pos (by omega)
  have hlen : (st.2.1 ++ [(⟨EV_KEY, key, 0⟩ : Event)]).length = st.2.1.length + 1 :=
    length_append
  have hsettles : (Emission.emit .keyboard (st.2.1 ++ [⟨EV_KEY, key, 0⟩])).Settles :=
    settles_append h.buffer ⟨fun _ => rfl, fun _ => rfl⟩
  unfold releaseKey
  dsimp only
  rw [hpush]
  split_ifs with hheld hfull
  · refine ⟨(by decide : 1 < SCRATCH), fun code hdown => h.push key code ?_, nofun,
      fun em hem => ?_⟩
    · rwa [foldl_nil, ← append_assoc, isDown_report (by omega)] at hdown
    · exact forall_mem_concat h.out ⟨rfl, settles_report (by omega) hsettles⟩ em hem
  · exact ⟨Nat.not_le.mp hfull, h.push key, hsettles, h.out⟩
  · exact h

theorem Releasing.foldl (h : Releasing log st) (keys : List (Fin KEY_SLOTS)) :
    Releasing log (keys.foldl releaseKey st) := by
  induction keys generalizing st with
  | nil => exact h
  | cons key keys ih => exact ih (h.step key)

theorem releaseKey_keys (st : (Fin KEY_SLOTS → Bool) × List Event × List Emission)
    (key k : Fin KEY_SLOTS) : (releaseKey st key).1 k = (st.1 k && k ≠ key) := by
  have hfst : (releaseKey st key).1 = if st.1 key then update st.1 key false else st.1 := by
    unfold releaseKey
    dsimp only
    split_ifs <;> rfl
  rw [hfst]
  by_cases hk : k = key
  · subst hk
    split_ifs <;> simp_all
  · split_ifs <;> simp [hk]

theorem foldl_releaseKey_keys (keys : List (Fin KEY_SLOTS))
    (st : (Fin KEY_SLOTS → Bool) × List Event × List Emission) (k : Fin KEY_SLOTS) :
    (keys.foldl releaseKey st).1 k = (st.1 k && k ∉ keys) := by
  induction keys generalizing st with
  | nil => simp
  | cons key keys ih =>
    rw [foldl_cons, ih, releaseKey_keys, Bool.and_assoc]
    congr 1
    simp [mem_cons, not_or]

theorem releasing_end (h : TracksKeys s.keys log) :
    ∃ buffer out, (finRange KEY_SLOTS).foldl releaseKey (s.keys, [], []) =
        ((fun _ => false), buffer, out) ∧ Releasing log ((fun _ => false), buffer, out) := by
  have hstart : Releasing log (s.keys, [], []) :=
    ⟨(by decide : 1 < SCRATCH), by rw [append_nil]; exact h, nofun,
      nofun⟩
  have hend := hstart.foldl (finRange KEY_SLOTS)
  have hkeys : ((finRange KEY_SLOTS).foldl releaseKey (s.keys, [], [])).1 =
      fun _ => false := by
    funext k
    rw [foldl_releaseKey_keys, decide_eq_false (not_not_intro (mem_finRange k)), Bool.and_false]
  generalize (finRange KEY_SLOTS).foldl releaseKey (s.keys, [], []) = st at hend hkeys
  obtain ⟨keys, buffer, out⟩ := st
  subst hkeys
  exact ⟨buffer, out, rfl, hend⟩

theorem releaseKeys_spec (h : TracksKeys s.keys log) :
    s.releaseKeys.1 = { s with keys := fun _ => false, numLock := none, capsLock := none } ∧
      (∀ em ∈ s.releaseKeys.2, em.device = .keyboard ∧ em.Settles) ∧
      Rests (log ++ s.releaseKeys.2) .keyboard := by
  obtain ⟨buffer, out, heq, hr⟩ := releasing_end h
  have hroom := hr.room
  dsimp only at hroom
  simp only [releaseKeys, heq]
  refine ⟨trivial, fun em hem => ?_, fun code => Bool.eq_false_iff.mpr fun hdown => ?_,
    nofun⟩
  · rcases mem_append.mp hem with hem | hem
    · exact hr.out em hem
    · split_ifs at hem
      · cases hem
      · rw [mem_singleton.mp hem]
        exact ⟨rfl, settles_report (by omega) hr.buffer⟩
  · obtain ⟨k, -, hk⟩ := hr.tracks code (by
      split_ifs at hdown with hempty
      · rw [isEmpty_iff.mp hempty]
        rwa [append_nil] at hdown
      · rwa [← append_assoc, isDown_report (by omega)] at hdown)
    cases hk

/-- **After a mass release the keyboard is at rest.** -/
theorem TracksKeys.releaseKeys (h : TracksKeys s.keys log) :
    Rests (log ++ s.releaseKeys.2) .keyboard :=
  (releaseKeys_spec h).2.2

/-! ## Buttons -/

def TracksButtons (buttons : Fin BUTTONS → Bool) (pressedOn : Fin BUTTONS → Device)
    (log : List Emission) : Prop :=
  ∀ d, d.kind = .pointer → ∀ code, isDown log d code = true →
    ∃ i : Fin BUTTONS, buttonCode (i + 1) = some code ∧ buttons i = true ∧ pressedOn i = d

variable {buttons : Fin BUTTONS → Bool} {pressedOn : Fin BUTTONS → Device}

theorem TracksButtons.other (h : TracksButtons buttons pressedOn log)
    (hems : ∀ em ∈ ems, em.device.kind ≠ .pointer) :
    TracksButtons buttons pressedOn (log ++ ems) := by
  intro d hd code hdown
  rw [isDown, replay_other fun em hem he => hems em hem (he ▸ hd)] at hdown
  exact h d hd code hdown

theorem AtRest.tracksButtons (h : AtRest log .pointer) : TracksButtons buttons pressedOn log := by
  intro d hd code hdown
  rw [(h d hd).up code] at hdown
  cases hdown

theorem TracksButtons.batch {target : Device} (h : TracksButtons buttons pressedOn log)
    (hlen : events.length < SCRATCH) (hkeys : ∀ e ∈ events, e.kind ≠ EV_KEY) :
    TracksButtons buttons pressedOn (log ++ [batch target events]) := by
  intro d hd code hdown
  refine h d hd code ?_
  by_cases htarget : target = d
  · subst htarget
    rwa [isDown_batch hlen, foldl_press_of_ne fun e he => .inl (hkeys e he)] at hdown
  · rwa [isDown, replay_other (by simpa using htarget)] at hdown

theorem button_cases (s : Injector) (n : ℕ) (pressed : Bool) :
    s.button n pressed = (s, []) ∨
      ∃ (i : Fin BUTTONS) (code : ℕ), buttonSlot n = some i ∧
        buttonCode (i + 1) = some code ∧
        s.button n pressed =
          ({ s with
              buttons := update s.buttons i pressed
              pressedOn := update s.pressedOn i (if pressed then s.pointer else s.pressedOn i) },
            [batch (if pressed then s.pointer else s.pressedOn i)
              [⟨EV_KEY, code, if pressed then 1 else 0⟩]]) := by
  unfold button
  split
  · next i code hslot hcode =>
    by_cases hdropped : (!pressed && !s.buttons i) = true
    · exact .inl (if_pos hdropped)
    · refine .inr ⟨i, code, hslot, ?_, if_neg hdropped⟩
      unfold buttonSlot at hslot
      split_ifs at hslot with hn
      obtain rfl := Option.some.inj hslot
      rw [← hcode]
      congr 1
      exact Nat.sub_add_cancel hn.1
  · exact .inl rfl

theorem TracksButtons.button (h : TracksButtons s.buttons s.pressedOn log) (n : ℕ) (pressed : Bool)
    (hsteady : ∀ i, buttonSlot n = some i → pressed = true → s.buttons i = true →
      s.pressedOn i = s.pointer) :
    TracksButtons (s.button n pressed).1.buttons (s.button n pressed).1.pressedOn
      (log ++ (s.button n pressed).2) := by
  obtain heq | ⟨i, c, hslot, hc, heq⟩ := button_cases s n pressed
  · rw [heq, append_nil]
    exact h
  · rw [heq]
    intro d hd code hdown
    dsimp only at hdown ⊢
    -- a button other than this one is found where it was
    have hold (hne : ∀ j : Fin BUTTONS, buttonCode (j + 1) = some code → s.buttons j = true →
        s.pressedOn j = d → j ≠ i) (hwas : isDown log d code = true) :
        ∃ j : Fin BUTTONS, buttonCode (j + 1) = some code ∧ update s.buttons i pressed j = true ∧
          update s.pressedOn i (if pressed then s.pointer else s.pressedOn i) j = d := by
      obtain ⟨j, hj, hheld, hon⟩ := h d hd code hwas
      have hji := hne j hj hheld hon
      exact ⟨j, hj, by rwa [update_of_ne hji], by rwa [update_of_ne hji]⟩
    by_cases htarget : (if pressed then s.pointer else s.pressedOn i) = d
    · rw [htarget, isDown_batch (by simp [SCRATCH]), foldl_cons, foldl_nil] at hdown
      by_cases hcode : c = code
      · subst hcode
        cases pressed with
        | true => exact ⟨i, hc, update_self .., by rw [update_self]; exact htarget⟩
        | false => simp [press] at hdown
      · rw [press_of_ne (.inr hcode)] at hdown
        refine hold (fun j hj _ _ hji => hcode ?_) hdown
        subst hji
        exact Option.some.inj (hc.symm.trans hj)
    · rw [isDown, replay_other (by simpa using htarget)] at hdown
      refine hold (fun j _ hheld hon hji => htarget ?_) hdown
      subst hji
      split_ifs with hp
      · exact (hsteady j hslot hp hheld).symm.trans hon
      · exact hon

/-! ### Letting go of all buttons -/

theorem length_releases (p : Fin BUTTONS → Bool) (f : Fin BUTTONS → Option Event) :
    (((finRange BUTTONS).filter p).filterMap f).length < SCRATCH := by
  have hslots : ((finRange BUTTONS).filter p).length ≤ BUTTONS := by
    simpa using length_filter_le p (finRange BUTTONS)
  exact lt_of_le_of_lt ((length_filterMap_le ..).trans hslots) (by decide)

theorem releaseButtonsOn_emits (s : Injector) (target : Device) :
    ∀ em ∈ (s.releaseButtonsOn target).2, em.device = target ∧ em.Settles := by
  intro em hem
  unfold releaseButtonsOn at hem
  dsimp only at hem
  split_ifs at hem
  · cases hem
  rw [mem_singleton.mp hem]
  refine ⟨rfl, settles_batch (length_releases _ _) fun e he => ?_⟩
  obtain ⟨i, -, hi⟩ := mem_filterMap.mp he
  obtain ⟨code, -, rfl⟩ := Option.map_eq_some_iff.mp hi
  exact ⟨fun _ => rfl, fun _ => rfl⟩

theorem TracksButtons.releaseButtonsOn (h : TracksButtons s.buttons s.pressedOn log) (target : Device)
    (htarget : target.kind = .pointer) :
    TracksButtons (s.releaseButtonsOn target).1.buttons (s.releaseButtonsOn target).1.pressedOn
        (log ++ (s.releaseButtonsOn target).2) ∧
      Rests (log ++ (s.releaseButtonsOn target).2) target := by
  have hup (code : ℕ) : isDown (log ++ (s.releaseButtonsOn target).2) target code = false := by
    refine Bool.eq_false_iff.mpr fun hdown => ?_
    -- what was down here is among the released buttons
    have hmem (hwas : isDown log target code = true) : ∃ i ∈ (finRange BUTTONS).filter
        fun i => s.buttons i && s.pressedOn i = target, buttonCode (i + 1) = some code := by
      obtain ⟨i, hi, hheld, hon⟩ := h target htarget code hwas
      exact ⟨i, mem_filter.mpr ⟨mem_finRange i, by simp [hheld, hon]⟩, hi⟩
    unfold Injector.releaseButtonsOn at hdown
    dsimp only at hdown
    split_ifs at hdown with hempty
    · rw [append_nil] at hdown
      obtain ⟨i, hi, -⟩ := hmem hdown
      rw [isEmpty_iff.mp hempty] at hi
      cases hi
    · rw [isDown_batch (length_releases _ _), foldl_press_release, Bool.and_eq_true] at hdown
      · obtain ⟨i, hi, hcode⟩ := hmem hdown.1
        have hany := hdown.2
        rw [Bool.not_eq_true', any_eq_false] at hany
        refine hany ⟨EV_KEY, code, 0⟩ (mem_filterMap.mpr ⟨i, hi, ?_⟩) (by simp)
        rw [hcode]
        rfl
      · intro e he _
        obtain ⟨i, -, hi⟩ := mem_filterMap.mp he
        obtain ⟨c, -, rfl⟩ := Option.map_eq_some_iff.mp hi
        rfl
  refine ⟨fun d hd code hdown => ?_, hup, fun hpad => ?_⟩
  · have hne : target ≠ d := by
      rintro rfl
      rw [hup code] at hdown
      cases hdown
    rw [isDown, replay_other fun em hem he =>
      hne ((releaseButtonsOn_emits s target em hem).1.symm.trans he)] at hdown
    obtain ⟨i, hi, hheld, hon⟩ := h d hd code hdown
    refine ⟨i, hi, ?_, hon⟩
    simp [Injector.releaseButtonsOn, hheld, hon, hne.symm]
  · rw [htarget] at hpad
    cases hpad

theorem releaseButtons_emits (s : Injector) :
    ∀ em ∈ s.releaseButtons.2, em.device.kind = .pointer ∧ em.Settles := by
  intro em hem
  rcases mem_append.mp hem with hem | hem
  · obtain ⟨hd, hs⟩ := releaseButtonsOn_emits _ _ em hem
    exact ⟨by rw [hd]; rfl, hs⟩
  · obtain ⟨hd, hs⟩ := releaseButtonsOn_emits _ _ em hem
    exact ⟨by rw [hd]; rfl, hs⟩

/-- **After a release both pointers are at rest.** -/
theorem TracksButtons.releaseButtons (h : TracksButtons s.buttons s.pressedOn log) :
    AtRest (log ++ s.releaseButtons.2) .pointer := by
  have habs := h.releaseButtonsOn .pointerAbsolute rfl
  have hrel := habs.1.releaseButtonsOn .pointer rfl
  have hlog : log ++ s.releaseButtons.2 = log ++ (s.releaseButtonsOn .pointerAbsolute).2 ++
      ((s.releaseButtonsOn .pointerAbsolute).1.releaseButtonsOn .pointer).2 :=
    (append_assoc ..).symm
  rw [hlog]
  intro d hd
  cases d with
  | pointer => exact hrel.2
  | pointerAbsolute =>
    exact habs.2.append fun em hem _ => (releaseButtonsOn_emits _ _ em hem).2
  | keyboard => cases hd
  | gamepad id => cases hd

end OpenStream.Inject
