import OpenStream.Inject.Held
import OpenStream.Inject.Pads

/-!
# Letting go

A guest's injector with everything that it has sent, and the calls that it gets in any order.

* **`Guest.released`**
* **`Guest.withdrawn`**
-/

namespace OpenStream.Inject

open Runs List Injector

/-! ## What every method keeps -/

/-- Whether a class of devices may be driven. -/
def Permissions.allows (p : Permissions) : Kind → Bool
  | .keyboard => p.keyboard
  | .pointer => p.pointer
  | .gamepad => p.gamepad

variable {s t : Injector} {log ems : List Emission} {r r' : Injector.Done} {steady : Prop} {k : Kind}

/-- The keys and the pads are known, and buttons go down on pointers only. -/
structure Known (s : Injector) (log : List Emission) : Prop where
  keys : TracksKeys s.keys log
  pads : TracksPads s.pads log
  pointers : ∀ i, (s.pressedOn i).kind = .pointer

/-- A method keeps what is known, the permissions, and the rest of the classes that are not allowed;
the buttons stay known if `steady` holds. -/
structure Sound (steady : Prop) (s : Injector) (log : List Emission) (r : Injector.Done) : Prop where
  known : Known r.1 (log ++ r.2)
  buttons : steady → TracksButtons s.buttons s.pressedOn log →
    TracksButtons r.1.buttons r.1.pressedOn (log ++ r.2)
  permissions : r.1.permissions = s.permissions
  quiet : ∀ k, s.permissions.allows k = false → ∀ em ∈ r.2, em.device.kind = k → em.Settles

theorem Sound.andThen (h : Sound steady s log r) (h' : Sound steady r.1 (log ++ r.2) r') :
    Sound steady s log (r'.1, r.2 ++ r'.2) := by
  refine ⟨?_, fun hs hb => ?_, h'.permissions.trans h.permissions, fun k hk em hem => ?_⟩
  · rw [← append_assoc]
    exact h'.known
  · rw [← append_assoc]
    exact h'.buttons hs (h.buttons hs hb)
  · rcases mem_append.mp hem with hem | hem
    · exact h.quiet k hk em hem
    · exact h'.quiet k (by rw [h.permissions]; exact hk) em hem

theorem Sound.ite {c : Prop} [Decidable c] (h : c → Sound steady s log r)
    (h' : Sound steady s log r') : Sound steady s log (if c then r else r') := by
  split_ifs with hc
  · exact h hc
  · exact h'

/-- Only fields that no table is about have changed. -/
structure Same (s t : Injector) : Prop where
  keys : t.keys = s.keys
  buttons : t.buttons = s.buttons
  pressedOn : t.pressedOn = s.pressedOn
  pads : t.pads = s.pads
  permissions : t.permissions = s.permissions

theorem Same.sound (h : Same s t) (hk : Known s log) : Sound steady s log (t, []) := by
  refine ⟨⟨?_, ?_, ?_⟩, fun _ hb => ?_, h.permissions, nofun⟩
  · rw [append_nil, h.keys]
    exact hk.keys
  · rw [append_nil, h.pads]
    exact hk.pads
  · rw [h.pressedOn]
    exact hk.pointers
  · rw [append_nil, h.buttons, h.pressedOn]
    exact hb

theorem sound_nothing (hk : Known s log) : Sound steady s log (s, []) :=
  Same.sound ⟨rfl, rfl, rfl, rfl, rfl⟩ hk

/-- **A method that drives one class of devices** accounts for what that class shows; the other
classes are as before. -/
theorem Sound.driving {c : Kind} (hk : Known s log) (hdevice : ∀ em ∈ r.2, em.device.kind = c)
    (hkeys : c ≠ .keyboard ∧ r.1.keys = s.keys ∨ TracksKeys r.1.keys (log ++ r.2))
    (hpads : c ≠ .gamepad ∧ r.1.pads = s.pads ∨ TracksPads r.1.pads (log ++ r.2))
    (hpointers : ∀ i, (r.1.pressedOn i).kind = .pointer)
    (hbuttons : (c ≠ .pointer ∧ r.1.buttons = s.buttons ∧ r.1.pressedOn = s.pressedOn) ∨
      (steady → TracksButtons s.buttons s.pressedOn log →
        TracksButtons r.1.buttons r.1.pressedOn (log ++ r.2)))
    (hpermissions : r.1.permissions = s.permissions)
    (hquiet : s.permissions.allows c = true ∨ ∀ em ∈ r.2, em.Settles) : Sound steady s log r := by
  refine ⟨⟨?_, ?_, hpointers⟩, fun hs hb => ?_, hpermissions, fun k hno em hem hd => ?_⟩
  · rcases hkeys with ⟨hc, hkeys⟩ | hkeys
    · rw [hkeys]
      exact hk.keys.other fun em hem he => hc (by rw [← hdevice em hem, he]; rfl)
    · exact hkeys
  · rcases hpads with ⟨hc, hpads⟩ | hpads
    · rw [hpads]
      exact hk.pads.other fun em hem => (hdevice em hem).trans_ne hc
    · exact hpads
  · rcases hbuttons with ⟨hc, hbuttons, hon⟩ | hbuttons
    · rw [hbuttons, hon]
      exact hb.other fun em hem => (hdevice em hem).trans_ne hc
    · exact hbuttons hs hb
  · rcases hquiet with hallowed | hquiet
    · rw [← hd, hdevice em hem, hallowed] at hno
      cases hno
    · exact hquiet em hem

/-! ### Messages -/

theorem sound_keyboard (hk : Known s log) (hallowed : s.permissions.keyboard = true) (usage : ℕ)
    (modifiers : BitVec 32) (pressed : Bool) :
    Sound steady s log (s.keyboard usage modifiers pressed) := by
  have hkeys := hk.keys.keyboard usage modifiers pressed
  obtain heq | ⟨key, num, caps, locks, heq, -⟩ := keyboard_cases s usage modifiers pressed
  · rw [heq]
    exact sound_nothing hk
  · rw [heq] at hkeys ⊢
    have hdevice : ∀ em ∈ [Emission.emit .keyboard (locks ++ keyEvents usage key pressed)],
        em.device.kind = .keyboard := by
      intro em hem
      rw [mem_singleton.mp hem]
      rfl
    exact .driving hk hdevice (.inr hkeys) (.inl ⟨by decide, rfl⟩) hk.pointers
      (.inl ⟨by decide, rfl, rfl⟩) rfl (.inl hallowed)

theorem pointer_kind (s : Injector) : s.pointer.kind = .pointer := by
  unfold pointer
  split_ifs <;> rfl

section

variable (hk : Known s log)

include hk

section

variable (hallowed : s.permissions.pointer = true)

include hallowed

theorem sound_button (n : ℕ) (pressed : Bool)
    (hsteady : steady → ∀ i, buttonSlot n = some i → pressed = true → s.buttons i = true →
      s.pressedOn i = s.pointer) : Sound steady s log (s.button n pressed) := by
  have hbuttons (hs : steady) (hb : TracksButtons s.buttons s.pressedOn log) :=
    hb.button n pressed (hsteady hs)
  obtain heq | ⟨i, code, -, -, heq⟩ := button_cases s n pressed
  · rw [heq]
    exact sound_nothing hk
  · have hdevice : (if pressed then s.pointer else s.pressedOn i).kind = .pointer := by
      split_ifs
      · exact pointer_kind s
      · exact hk.pointers i
    rw [heq] at hbuttons ⊢
    refine .driving hk (c := .pointer) (fun em hem => ?_) (.inl ⟨by decide, rfl⟩)
      (.inl ⟨by decide, rfl⟩) (fun j => ?_) (.inr hbuttons) rfl (.inl hallowed)
    · rw [mem_singleton.mp hem, device_batch]
      exact hdevice
    · by_cases hji : j = i
      · subst hji
        dsimp only
        rw [Function.update_self]
        exact hdevice
      · dsimp only
        rw [Function.update_of_ne hji]
        exact hk.pointers j

theorem sound_glide (hsame : Same s t)
    {d : Device} (hd : d.kind = .pointer) {events : List Event} (hlen : events.length < SCRATCH)
    (hkeys : ∀ e ∈ events, e.kind ≠ EV_KEY) : Sound steady s log (t, [batch d events]) := by
  refine .driving hk (c := .pointer) (fun em hem => ?_) (.inl ⟨by decide, hsame.keys⟩)
    (.inl ⟨by decide, hsame.pads⟩) (fun i => ?_) (.inr fun _ hb => ?_) hsame.permissions
    (.inl hallowed)
  · rw [mem_singleton.mp hem, device_batch]
    exact hd
  · rw [hsame.pressedOn]
    exact hk.pointers i
  · rw [hsame.buttons, hsame.pressedOn]
    exact hb.batch hlen hkeys

theorem sound_wheel (x y : ℤ) : Sound steady s log (s.wheel x y) := by
  unfold wheel
  by_cases hnone : x = 0 ∧ y = 0
  · rw [if_pos hnone]
    exact sound_nothing hk
  · rw [if_neg hnone]
    refine sound_glide hk hallowed ⟨rfl, rfl, rfl, rfl, rfl⟩ (pointer_kind s) ?_ fun e he => ?_
    · split_ifs <;> simp [SCRATCH]
    · have hpair {p : Prop} [Decidable p] {code code' : ℕ} {v v' : ℤ}
          (he : e ∈ if p then [⟨EV_REL, code, v⟩, ⟨EV_REL, code', v'⟩] else []) : e.kind ≠ EV_KEY := by
        split_ifs at he
        · rcases mem_pair.mp he with rfl | rfl <;> exact (by decide : EV_REL ≠ EV_KEY)
        · cases he
      exact (mem_append.mp he).elim hpair hpair

theorem sound_motion (relative : Bool) (x y : ℤ) : Sound steady s log (s.motion relative x y) := by
  have hpair {d : Device} {t : Injector} {kind code code' : ℕ} {v v' : ℤ} (hsame : Same s t)
      (hd : d.kind = .pointer) (hkind : kind ≠ EV_KEY) :
      Sound steady s log (t, [batch d [⟨kind, code, v⟩, ⟨kind, code', v'⟩]]) := by
    refine sound_glide hk hallowed hsame hd (by simp [SCRATCH]) fun e he => ?_
    rcases mem_pair.mp he with rfl | rfl <;> exact hkind
  unfold motion
  split_ifs
  · exact hpair ⟨rfl, rfl, rfl, rfl, rfl⟩ rfl (by decide)
  · dsimp only
    split
    · exact Same.sound ⟨rfl, rfl, rfl, rfl, rfl⟩ hk
    · exact hpair ⟨rfl, rfl, rfl, rfl, rfl⟩ rfl (by decide)
  · exact hpair ⟨rfl, rfl, rfl, rfl, rfl⟩ rfl (by decide)

end

theorem sound_pads (hallowed : s.permissions.gamepad = true) (h : Pads s r) :
    Sound steady s log r := by
  obtain ⟨pads, hstate⟩ := h.state
  refine .driving hk h.device (.inl ⟨by decide, ?_⟩) (.inr (h.tracks log hk.pads)) ?_
    (.inl ⟨by decide, ?_⟩) ?_ (.inl hallowed) <;> rw [hstate]
  · exact hk.pointers
  · exact ⟨rfl, rfl⟩

/-! ### Releases -/

theorem sound_releaseKeys : Sound steady s log s.releaseKeys := by
  obtain ⟨hstate, hems, hrests⟩ := releaseKeys_spec hk.keys
  refine .driving hk (c := .keyboard) (fun em hem => ?_) (.inr (hrests.tracksKeys _))
    (.inl ⟨by decide, ?_⟩) ?_ (.inl ⟨by decide, ?_⟩) ?_ (.inr fun em hem => (hems em hem).2)
  · rw [(hems em hem).1]
    rfl
  all_goals rw [hstate]
  · exact hk.pointers
  · exact ⟨rfl, rfl⟩

theorem sound_releaseButtons : Sound steady s log s.releaseButtons := by
  obtain ⟨buttons, hstate⟩ : ∃ buttons, s.releaseButtons.1 = { s with buttons } := ⟨_, rfl⟩
  have hems := releaseButtons_emits s
  refine .driving hk (fun em hem => (hems em hem).1) (.inl ⟨by decide, ?_⟩) (.inl ⟨by decide, ?_⟩) ?_
    (.inr fun _ hb => hb.releaseButtons.tracksButtons) ?_ (.inr fun em hem => (hems em hem).2)
  all_goals rw [hstate]
  exact hk.pointers

theorem sound_centrePads : Sound steady s log s.centrePads := by
  have hend := centring_end hk.pads
  obtain ⟨pads, hstate⟩ := hend.state
  refine .driving hk (fun em hem => (hend.emits em hem).1) (.inl ⟨by decide, ?_⟩) (.inr hend.tracks)
    ?_ (.inl ⟨by decide, ?_⟩) ?_ (.inr fun em hem => (hend.emits em hem).2) <;> rw [hstate]
  · exact hk.pointers
  · exact ⟨rfl, rfl⟩

theorem sound_releaseAll : Sound steady s log s.releaseAll := by
  have hkeys : Sound steady s log s.releaseKeys := sound_releaseKeys hk
  have hbuttons := hkeys.andThen (sound_releaseButtons hkeys.known)
  exact hbuttons.andThen (sound_centrePads hbuttons.known)

/-! ### Calls -/

theorem sound_onControl (m : Control)
    (hsteady : steady → m.opcode = op.MOUSE_BUTTON → s.pointerAllowed = true → m.a1 ≠ 0 →
      ∀ i, buttonSlot m.a0.toNat = some i → s.buttons i = true →
        s.pressedOn i = s.pointer) : Sound steady s log (s.onControl m) := by
  have hk' : Known { s with tally := s.tally.count m.opcode } log := { hk with }
  have hptr (ha : s.pointerAllowed = true) : s.permissions.pointer = true :=
    (Bool.and_eq_true_iff.mp ha).1
  -- counting the message changes nothing that is tracked
  suffices h : Sound steady { s with tally := s.tally.count m.opcode } log (s.onControl m) from
    { h with }
  exact
    .ite (fun h => sound_keyboard hk' h.2 _ _ _) <|
    .ite (fun h => sound_button hk' (hptr h.2) _ _ fun hs i hi hp hheld =>
      hsteady hs h.1 h.2 (of_decide_eq_true hp) i hi hheld) <|
    .ite (fun h => sound_wheel hk' (hptr h.2) _ _) <|
    .ite (fun h => sound_motion hk' (hptr h.2) _ _ _) <|
    .ite (fun h => sound_motion hk' (hptr h.2) _ _ _) <|
    .ite (fun h => sound_pads hk' h.2 (gamepadButton_pads ..)) <|
    .ite (fun h => sound_pads hk' h.2 (gamepadAxis_pads ..)) <|
    .ite (fun h => sound_pads hk' h.2 (unplug_pads ..)) <|
    .ite (fun h => sound_pads hk' h.2 (padState_pads ..)) <|
    .ite (fun _ => sound_releaseAll hk') (sound_nothing hk')

theorem sound_setPermissions (p : Permissions) :
    Sound steady { s with permissions := p } log (s.setPermissions p) := by
  have hk' : Known { s with permissions := p } log := { hk with }
  have hkeys : Sound steady { s with permissions := p } log
      (if s.permissions.keyboard && !p.keyboard then
        releaseKeys { s with permissions := p } else ({ s with permissions := p }, [])) :=
    .ite (fun _ => sound_releaseKeys hk') (sound_nothing hk')
  exact hkeys.andThen (.ite (fun _ => sound_releaseButtons hkeys.known) (sound_nothing hkeys.known))

theorem sound_setFloor (held : Bool) : Sound steady s log (s.setFloor held) := by
  have hrelease : Sound steady s log (if s.floor && !held then s.releaseButtons else (s, [])) :=
    .ite (fun _ => sound_releaseButtons hk) (sound_nothing hk)
  exact ⟨⟨hrelease.known.keys, hrelease.known.pads, hrelease.known.pointers⟩, hrelease.buttons,
    hrelease.permissions, hrelease.quiet⟩

end

/-! ## Runs -/

/-- The calls that an injector gets. -/
inductive Action
  | control (m : Control)
  | setPermissions (p : Permissions)
  | setFloor (held : Bool)
  | setCursorHidden (hidden : Bool)
  | setExtents (extents : Extents)
  | releaseAll

def Injector.act (s : Injector) : Action → Injector.Done
  | .control m => s.onControl m
  | .setPermissions p => s.setPermissions p
  | .setFloor held => s.setFloor held
  | .setCursorHidden hidden => (s.setCursorHidden hidden, [])
  | .setExtents extents => (s.setExtents extents, [])
  | .releaseAll => s.releaseAll

/-- An injector and all that it has given to the sink. -/
structure Guest where
  injector : Injector
  log : List Emission

namespace Guest

def after (g : Guest) (a : Action) : Guest :=
  ⟨(g.injector.act a).1, g.log ++ (g.injector.act a).2⟩

def guest (extents : Extents) : Machine Guest Action := ⟨⟨.new extents, []⟩, fun g a => some (g.after a)⟩

variable {extents : Extents} {g g' : Guest} {a : Action}

/-- A held button is not pressed again after the other pointer has moved. -/
def Steady (g : Guest) : Action → Prop
  | .control m => m.opcode = op.MOUSE_BUTTON → g.injector.pointerAllowed = true → m.a1 ≠ 0 →
      ∀ i, Injector.buttonSlot m.a0.toNat = some i → g.injector.buttons i = true →
        g.injector.pressedOn i = g.injector.pointer
  | _ => True

instance (g : Guest) (a : Action) : Decidable (g.Steady a) := by
  cases a <;> unfold Steady <;> infer_instance

theorem sound_act (hk : Known g.injector g.log) (a : Action) :
    ∃ s : Injector, s.buttons = g.injector.buttons ∧ s.pressedOn = g.injector.pressedOn ∧
      s.permissions = (g.after a).injector.permissions ∧
      Sound (g.Steady a) s g.log (g.injector.act a) := by
  have hkeep (h : Sound (g.Steady a) g.injector g.log (g.injector.act a)) :
      ∃ s : Injector, s.buttons = g.injector.buttons ∧ s.pressedOn = g.injector.pressedOn ∧
        s.permissions = (g.after a).injector.permissions ∧
        Sound (g.Steady a) s g.log (g.injector.act a) :=
    ⟨g.injector, rfl, rfl, h.permissions.symm, h⟩
  cases a with
  | control m => exact hkeep (sound_onControl hk m id)
  | setPermissions p =>
    have h : Sound (g.Steady (.setPermissions p)) { g.injector with permissions := p } g.log
        (g.injector.setPermissions p) := sound_setPermissions hk p
    exact ⟨{ g.injector with permissions := p }, rfl, rfl, h.permissions.symm, h⟩
  | setFloor held => exact hkeep (sound_setFloor hk held)
  | setCursorHidden hidden | setExtents extents =>
    exact hkeep (Same.sound ⟨rfl, rfl, rfl, rfl, rfl⟩ hk)
  | releaseAll => exact hkeep (sound_releaseAll hk)

theorem known_after (hk : Known g.injector g.log) (a : Action) :
    Known (g.after a).injector (g.after a).log := by
  obtain ⟨s, -, -, -, h⟩ := sound_act hk a
  exact h.known

/-- Everything that is down is known. -/
structure Tracked (g : Guest) : Prop where
  known : Known g.injector g.log
  buttons : TracksButtons g.injector.buttons g.injector.pressedOn g.log

theorem tracked_new (extents : Extents) : Tracked ⟨.new extents, []⟩ := by
  have hrests (d : Device) : Rests [] d := ⟨fun _ => rfl, fun _ _ => rfl⟩
  exact ⟨⟨(hrests .keyboard).tracksKeys _, ⟨nofun, fun id _ => hrests _,
    nofun⟩, fun i => rfl⟩, AtRest.tracksButtons fun d _ => hrests d⟩

theorem Tracked.step (h : g.Tracked) (hs : g.Steady a) : (g.after a).Tracked := by
  obtain ⟨s, hb, hp, -, hsound⟩ := sound_act h.known a
  have hbuttons := h.buttons
  rw [← hb, ← hp] at hbuttons
  exact ⟨hsound.known, hsound.buttons hs hbuttons⟩

theorem tracked (h : (guest extents).ReachVia Steady g) : g.Tracked := by
  refine h.invariant (tracked_new extents) fun g a g' hg hok hstep => ?_
  cases hstep
  exact hg.step hok

/-! ## Everything is let go -/

theorem Tracked.releaseAll (h : g.Tracked) (d : Device) :
    Rests (g.log ++ g.injector.releaseAll.2) d := by
  have hkeys : Sound True g.injector g.log g.injector.releaseKeys := sound_releaseKeys h.known
  have hbuttons : Sound True _ _ g.injector.releaseKeys.1.releaseButtons :=
    sound_releaseButtons hkeys.known
  have hcentring := (centring_end hbuttons.known.pads).emits
  have hreleased := hkeys.buttons trivial h.buttons
  have hlog : g.log ++ g.injector.releaseAll.2 = g.log ++ g.injector.releaseKeys.2 ++
      g.injector.releaseKeys.1.releaseButtons.2 ++
      g.injector.releaseKeys.1.releaseButtons.1.centrePads.2 := by
    simp [Injector.releaseAll]
  have hbuttonsSettle := releaseButtons_emits g.injector.releaseKeys.1
  rw [hlog]
  -- each class comes to rest in its own pass, and the later passes only let go
  cases hd : d.kind with
  | keyboard =>
    obtain rfl : d = .keyboard := by
      cases d <;> first | rfl | cases hd
    exact (h.known.keys.releaseKeys.append fun em hem _ => (hbuttonsSettle em hem).2).append
      fun em hem _ => (hcentring em hem).2
  | pointer =>
    exact (hreleased.releaseButtons d hd).append fun em hem _ => (hcentring em hem).2
  | gamepad => exact hbuttons.known.pads.centrePads d hd

/-- **Nothing stays held after a release**: on every device nothing is down, and the axes of every pad
are at zero. -/
theorem released (h : (guest extents).ReachVia Steady g) (d : Device) :
    Rests (g.log ++ g.injector.releaseAll.2) d :=
  (tracked h).releaseAll d

def typing : List Action :=
  [.control ⟨op.KEYBOARD, 4, 0, 1, []⟩, .control ⟨op.MOUSE_BUTTON, 1, 1, 0, []⟩,
    .control ⟨op.GAMEPAD_BUTTON, 0, 1, 7, []⟩]

def screen : Extents := ⟨1920, 1080, ⟨0, 0, 1920, 1080, 1920, 1080⟩⟩

/-- What a guest holds is let go. -/
theorem released_typing : ∃ g, (guest screen).ReachVia Steady g ∧
    isDown g.log .keyboard 30 = true ∧ isDown g.log .pointer 0x110 = true ∧
    isDown g.log (.gamepad 7) 0x130 = true ∧ ∀ d, Rests (g.log ++ g.injector.releaseAll.2) d := by
  obtain ⟨g, hg, hk, hb, hp⟩ := (guest screen).exists_reachVia Steady typing
    (fun g => isDown g.log .keyboard 30 = true ∧ isDown g.log .pointer 0x110 = true ∧
      isDown g.log (.gamepad 7) 0x130 = true) (by decide +kernel)
  exact ⟨g, hg, hk, hb, hp, released hg⟩

/-- **A button stays down**: pressed, and pressed again after the absolute pointer has moved, it is
released on the second device only. -/
theorem stuck : ∃ g, (guest screen).Reach g ∧
    isDown (g.log ++ g.injector.releaseAll.2) .pointer 0x110 = true :=
  (guest screen).exists_reachVia (fun _ _ => True)
    [.control ⟨op.MOUSE_BUTTON, 1, 1, 0, []⟩, .control ⟨op.MOUSE_MOTION, 0, 10, 10, []⟩,
      .control ⟨op.MOUSE_BUTTON, 1, 1, 0, []⟩] _ (by decide +kernel)

/-! ## What is withdrawn is let go -/

/-- A call that does not grant a class. -/
def Withholds (k : Kind) (_ : Guest) : Action → Prop
  | .setPermissions p => p.allows k = false
  | _ => True

structure Withheld (k : Kind) (g : Guest) : Prop where
  known : Known g.injector g.log
  denied : g.injector.permissions.allows k = false
  rests : AtRest g.log k

theorem denied_after (hk : Known g.injector g.log) (h : g.injector.permissions.allows k = false)
    (hok : Withholds k g a) : (g.after a).injector.permissions.allows k = false := by
  have hkeep (hsound : Sound True g.injector g.log (g.injector.act a)) :
      (g.after a).injector.permissions.allows k = false := by
    rw [after, hsound.permissions]
    exact h
  cases a with
  | control m =>
    have hsound : Sound False g.injector g.log (g.injector.onControl m) :=
      sound_onControl hk m False.elim
    exact (congrArg (Permissions.allows · k) hsound.permissions).trans h
  | setPermissions p =>
    have hsound : Sound True { g.injector with permissions := p } g.log
        (g.injector.setPermissions p) := sound_setPermissions hk p
    exact (congrArg (Permissions.allows · k) hsound.permissions).trans hok
  | setFloor held => exact hkeep (sound_setFloor hk held)
  | setCursorHidden hidden => exact h
  | setExtents extents => exact h
  | releaseAll => exact hkeep (sound_releaseAll hk)

theorem Withheld.step (h : Withheld k g) (hok : Withholds k g a) : Withheld k (g.after a) := by
  have hdenied := denied_after h.known h.denied hok
  obtain ⟨s, -, -, hp, hsound⟩ := sound_act h.known a
  rw [← hp] at hdenied
  exact ⟨hsound.known, hp ▸ hdenied, h.rests.append (hsound.quiet k hdenied)⟩

theorem withheld (h : Withheld k g)
    (ht : ((guest extents).startAt g).ReachVia (Withholds k) g') : Withheld k g' := by
  refine ht.invariant h fun g a g' hg hok hstep => ?_
  cases hstep
  exact hg.step hok

theorem setPermissions_emits (hk : Known s log) (p : Permissions) :
    ∀ em ∈ (s.setPermissions p).2, em.Settles ∧ em.device.kind ≠ .gamepad := by
  have hkeys := (releaseKeys_spec (s := { s with permissions := p }) hk.keys).2.1
  intro em hem
  rcases mem_append.mp hem with hem | hem
  · split_ifs at hem
    · refine ⟨(hkeys em hem).2, ?_⟩
      rw [(hkeys em hem).1]
      decide
    · cases hem
  · split_ifs at hem
    all_goals first
      | cases hem
      | exact ⟨(releaseButtons_emits _ em hem).2, by rw [(releaseButtons_emits _ em hem).1]; decide⟩

theorem Tracked.keyboard_withdrawn (h : g.Tracked) {p : Permissions}
    (hwas : g.injector.permissions.keyboard = true) (hnow : p.keyboard = false) :
    AtRest (g.after (.setPermissions p)).log .keyboard := by
  have hrelease : (g.injector.permissions.keyboard && !p.keyboard) = true := by rw [hwas, hnow]; rfl
  have hrests : Rests (g.log ++ (releaseKeys { g.injector with permissions := p }).2)
      .keyboard := TracksKeys.releaseKeys (s := { g.injector with permissions := p }) h.known.keys
  intro d hd
  obtain rfl : d = .keyboard := by
    cases d <;> first | rfl | cases hd
  simp only [after, act, setPermissions, if_pos hrelease]
  rw [← append_assoc]
  refine hrests.append fun em hem _ => ?_
  split_ifs at hem
  · exact (releaseButtons_emits _ em hem).2
  · cases hem

theorem Tracked.pointer_withdrawn (h : g.Tracked) {p : Permissions}
    (hwas : g.injector.permissions.pointer = true) (hnow : p.pointer = false) :
    AtRest (g.after (.setPermissions p)).log .pointer := by
  have hrelease : (g.injector.permissions.pointer && !p.pointer) = true := by rw [hwas, hnow]; rfl
  have hk : Known { g.injector with permissions := p } g.log :=
    ⟨h.known.keys, h.known.pads, h.known.pointers⟩
  have hkeys : Sound True { g.injector with permissions := p } g.log
      (if g.injector.permissions.keyboard && !p.keyboard then
        releaseKeys { g.injector with permissions := p }
        else ({ g.injector with permissions := p }, [])) :=
    .ite (fun _ => sound_releaseKeys hk) (sound_nothing hk)
  simp only [after, act, setPermissions, if_pos hrelease]
  rw [← append_assoc]
  exact (hkeys.buttons trivial h.buttons).releaseButtons

/-- **A class that is withdrawn is at rest until it is granted again, whatever is called meanwhile,
exactly if the pads are at rest whenever they are withdrawn.** -/
theorem withdrawn (h : (guest extents).ReachVia Steady g) (p : Permissions) :
    (∀ k, g.injector.permissions.allows k = true → p.allows k = false →
      ∀ t, ((guest extents).startAt (g.after (.setPermissions p))).ReachVia (Withholds k) t →
        AtRest t.log k) ↔
    (g.injector.permissions.gamepad = true → p.gamepad = false → AtRest g.log .gamepad) := by
  have htracked := tracked h
  have hems := setPermissions_emits htracked.known p
  constructor
  · intro hrests hwas hnow d hd
    have hd' := hrests .gamepad hwas hnow _ .start d hd
    -- no emission of the call is for a pad
    have hother : ∀ em ∈ (g.injector.setPermissions p).2, em.device ≠ d :=
      fun em hem he => (hems em hem).2 (he ▸ hd)
    refine ⟨fun code => ?_, fun hpad code => ?_⟩
    · have hup := hd'.up code
      rwa [isDown, Machine.startAt, after, act, replay_other hother] at hup
    · have hzero := hd'.centred hpad code
      rwa [axisAt, Machine.startAt, after, act, replay_other hother] at hzero
  · intro hpads k hwas hnow t ht
    have hafter : AtRest (g.after (.setPermissions p)).log k := by
      cases k with
      | keyboard => exact htracked.keyboard_withdrawn hwas hnow
      | pointer => exact htracked.pointer_withdrawn hwas hnow
      | gamepad => exact (hpads hwas hnow).append fun em hem _ => (hems em hem).1
    have hsound : Sound True { g.injector with permissions := p } g.log
        (g.injector.setPermissions p) := sound_setPermissions htracked.known p
    have hdenied : (g.after (.setPermissions p)).injector.permissions.allows k = false :=
      (congrArg (Permissions.allows · k) hsound.permissions).trans hnow
    exact (withheld ⟨known_after htracked.known _, hdenied, hafter⟩ ht).rests

theorem withdrawn_typing : ∃ g, (guest screen).ReachVia Steady g ∧
    isDown g.log .keyboard 30 = true ∧ isDown g.log .pointer 0x110 = true ∧
    ∀ k, k ≠ .gamepad →
      ∀ t, ((guest screen).startAt (g.after (.setPermissions ⟨false, false, true⟩))).ReachVia
        (Withholds k) t → AtRest t.log k := by
  obtain ⟨g, hg, hk, hb, hp⟩ := (guest screen).exists_reachVia Steady typing
    (fun g => isDown g.log .keyboard 30 = true ∧ isDown g.log .pointer 0x110 = true ∧
      g.injector.permissions = ⟨true, true, true⟩) (by decide +kernel)
  have hrests := (withdrawn hg ⟨false, false, true⟩).mpr nofun
  refine ⟨g, hg, hk, hb, fun k hpad => hrests k ?_ ?_⟩
  · rw [hp]
    cases k <;> rfl
  · cases k <;> first | rfl | exact absurd rfl hpad

/-- **A pad that is withdrawn stays as it was**: its button is down and its stick off centre. -/
theorem kept : ∃ g, (guest screen).ReachVia Steady g ∧ g.injector.permissions.gamepad = true ∧
    isDown (g.after (.setPermissions ⟨true, true, false⟩)).log (.gamepad 7) 0x130 = true ∧
    axisAt (g.after (.setPermissions ⟨true, true, false⟩)).log (.gamepad 7) axis.X = 1000 :=
  (guest screen).exists_reachVia Steady
    [.control ⟨op.GAMEPAD_BUTTON, 0, 1, 7, []⟩, .control ⟨op.GAMEPAD_AXIS, 0, 1000, 7, []⟩] _
    (by decide +kernel)

end Guest

end OpenStream.Inject
