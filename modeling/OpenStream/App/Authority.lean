import OpenStream.App.Model

/-!
# Authority without a session

The model shows a device, a session and permissions as active. Beside a run of it stands the
approval that was given last.

* **`Watched.authority`**
* **`Watched.leftover`**
-/

namespace OpenStream.App

open Account Runs

/-- Something is shown as active. -/
def AppModel.Advertises (m : AppModel) : Prop :=
  m.activePermissions.isEmpty = false ∨ m.activeDeviceId ≠ none ∨ m.activeSessionId ≠ none

instance (m : AppModel) : Decidable m.Advertises :=
  inferInstanceAs (Decidable (_ ∨ _))

structure Approval where
  requested : PermissionSet
  available : PermissionSet

def Approval.Covers (a : Approval) (p : PermissionSet) : Prop :=
  p.Le a.requested ∧ p.Le a.available

def AppModel.approval (m : AppModel) : AppCommand → Option Approval
  | .approveRequest requestId available nowMs =>
    match m.pendingRequest, (m.approve requestId available nowMs).2 with
    | some request, .ok _ => some ⟨request.requested, available⟩
    | _, _ => none
  | _ => none

structure Watched where
  model : AppModel
  /-- The approval given last. -/
  approved : Option Approval

inductive Action
  | dispatch (c : AppCommand)
  | addDevice (device : DeviceSummary)
  | replaceDevices (devices : List DeviceSummary)

namespace Watched

def step (w : Watched) : Action → Option Watched
  | .dispatch c => some ⟨(w.model.dispatch c).1, (w.model.approval c).or w.approved⟩
  | .addDevice device => some { w with model := w.model.addDevice device }
  | .replaceDevices devices => some { w with model := w.model.replaceDevices devices }

/-- A model from its configuration on. -/
def watched (mode : DeploymentMode) : Machine Watched Action where
  start := ⟨.new mode, none⟩
  step := step

/-- **The condition.** No attempt is given up between its approval and the session. -/
def Patient (w : Watched) : Action → Prop
  | .dispatch .disconnect => w.model.state.attempting = false
  | _ => True

instance (w : Watched) : (a : Action) → Decidable (w.Patient a)
  | .dispatch .disconnect => inferInstanceAs (Decidable (_ = _))
  | .dispatch .beginAuthentication | .dispatch .authenticationSucceeded
  | .dispatch (.authenticationFailed _) | .dispatch .signOut | .dispatch (.connect ..)
  | .dispatch (.approveRequest ..) | .dispatch (.rejectRequest ..) | .dispatch (.tick _)
  | .dispatch .connectionNegotiating | .dispatch (.connectionEstablished ..)
  | .dispatch (.connectionFailed _) | .dispatch (.connectionLost _) | .dispatch .disconnected
  | .dispatch .enableHosting | .dispatch .disableHosting | .dispatch .hostStarting
  | .dispatch .hostReady | .dispatch (.hostFailed ..) | .dispatch .clearFailure
  | .addDevice _ | .replaceDevices _ => .isTrue trivial

/-- What holds in every state of a patient run. -/
structure Sound (w : Watched) : Prop where
  active : w.model.Advertises → w.model.state.inSession = true
  covered : w.model.state.inSession = true → ∃ a, w.approved = some a ∧
    a.Covers w.model.activePermissions
  pending : w.model.pendingRequest ≠ none → w.model.state.inSession = false

variable {w w' : Watched}

theorem advertises_of_same {m m' : AppModel} (h : m.SameActive m') :
    m'.Advertises ↔ m.Advertises := by
  obtain ⟨hd, hs, hp⟩ := h
  unfold AppModel.Advertises
  rw [hd, hs, hp]

theorem Sound.same (h : w.Sound) (ha : w.model.SameActive w'.model)
    (hs : w'.model.state.inSession = w.model.state.inSession) (happ : w'.approved = w.approved)
    (hp : w'.model.pendingRequest = none ∨ w'.model.pendingRequest = w.model.pendingRequest) :
    w'.Sound := by
  refine ⟨fun hadv => ?_, fun hin => ?_, fun hne => ?_⟩
  · rw [hs]
    exact h.active ((advertises_of_same ha).mp hadv)
  · rw [ha.2.2, happ]
    exact h.covered (hs ▸ hin)
  · rw [hs]
    refine h.pending ?_
    rcases hp with hp | hp
    · exact absurd hp hne
    · rwa [hp] at hne

theorem sound_idle (ha : ¬ w.model.Advertises) (hs : w.model.state.inSession = false) : w.Sound :=
  ⟨fun h => absurd h ha, fun h => absurd (hs.symm.trans h) (by decide), fun _ => hs⟩

theorem Sound.not_advertises (h : w.Sound) (hs : w.model.state.inSession = false) :
    ¬ w.model.Advertises :=
  fun ha => absurd ((h.active ha).symm.trans hs) (by decide)

theorem approval_eq_some {m : AppModel} {c : AppCommand} {a : Approval}
    (h : m.approval c = some a) :
    (m.dispatch c).1.state.inSession = true ∧ (m.dispatch c).1.pendingRequest = none ∧
      (m.dispatch c).1.activePermissions = a.requested.intersect a.available := by
  cases c with
  | approveRequest requestId available nowMs =>
    simp only [AppModel.approval, AppModel.approve] at h
    simp only [AppModel.dispatch, AppModel.approve]
    rcases m.takePending_cases requestId nowMs with ⟨e, ht⟩ | ⟨e, hp, ht⟩ | ⟨r, hp, ht⟩
    · simp [ht] at h
    · simp [ht] at h
    · rw [ht, hp] at h
      rw [ht]
      dsimp only at h ⊢
      split_ifs at h ⊢
      cases h
      exact ⟨rfl, rfl, rfl⟩
  | _ => cases h

theorem Sound.dispatch (h : w.Sound) {c : AppCommand} (hok : w.Patient (.dispatch c)) :
    Sound ⟨(w.model.dispatch c).1, (w.model.approval c).or w.approved⟩ := by
  cases ha : w.model.approval c with
  | some a =>
    obtain ⟨hs, hp, hperm⟩ := approval_eq_some ha
    refine ⟨fun _ => hs, fun _ => ⟨a, rfl, ?_⟩, absurd hp⟩
    rw [hperm]
    exact ⟨PermissionSet.intersect_le_left _ _, PermissionSet.intersect_le_right _ _⟩
  | none =>
    generalize hm : (w.model.dispatch c).1 = m'
    have hshift : Shift w.model c m' := hm ▸ w.model.dispatch_shift c
    cases hshift with
    | stays _ _ hact hs hp => exact h.same hact hs rfl hp
    | asked _ _ hact hready hs =>
      have hno := h.not_advertises (by rw [hready]; rfl)
      exact sound_idle (mt (advertises_of_same hact).mp hno) hs
    | dropped _ hp => exact sound_idle (h.not_advertises (h.pending hp)) rfl
    | cleared _ state hs =>
      refine sound_idle ?_ hs
      simp [AppModel.Advertises, AppModel.clearActiveSession, PermissionSet.none,
        PermissionSet.isEmpty]
    | approved requestId available nowMs r hp happ =>
      -- an attempt that begins has an approval
      unfold AppModel.approval at ha
      simp only [hp] at ha
      cases hans : (w.model.approve requestId available nowMs).2 with
      | error e => simp [hans, Except.isOk, Except.toBool] at happ
      | ok evs => simp [hans] at ha
    | established _ deviceId sessionId generation hin =>
      exact ⟨fun _ => rfl, fun _ => h.covered hin,
        fun hne => absurd ((h.pending hne).symm.trans hin) (by decide)⟩
    | abandoned hat => exact absurd (hat.symm.trans hok) (by decide)

theorem sameActive_addDevice (m : AppModel) (device : DeviceSummary) :
    m.SameActive (m.addDevice device) ∧ (m.addDevice device).state = m.state ∧
      (m.addDevice device).pendingRequest = m.pendingRequest := by
  unfold AppModel.addDevice
  split_ifs <;> exact ⟨.refl _, rfl, rfl⟩

theorem Sound.step (h : w.Sound) {a : Action} (hok : w.Patient a) (hs : w.step a = some w') :
    w'.Sound := by
  cases a with
  | dispatch c =>
    cases hs
    exact h.dispatch hok
  | addDevice device =>
    cases hs
    obtain ⟨hact, hstate, hp⟩ := sameActive_addDevice w.model device
    exact h.same hact (congrArg _ hstate) rfl (.inr hp)
  | replaceDevices devices =>
    cases hs
    exact h.same (.refl _) rfl rfl (.inr rfl)

theorem sound_start (mode : DeploymentMode) : (watched mode).start.Sound :=
  sound_idle (by simp [watched, AppModel.new, AppModel.Advertises, PermissionSet.none,
    PermissionSet.isEmpty]) (AppModel.inSession_restingState mode)

/-- **Whatever is active belongs to a session or to an approved attempt at one**, and its
permissions were asked for and available, as long as no approved attempt is given up. -/
theorem authority (mode : DeploymentMode) (w : Watched) (hw : (watched mode).ReachVia Patient w)
    (hadv : w.model.Advertises) :
    w.model.state.inSession = true ∧ ∃ a, w.approved = some a ∧
      w.model.activePermissions.Le a.requested ∧ w.model.activePermissions.Le a.available := by
  have hsound : w.Sound :=
    hw.invariant (sound_start mode) fun _ _ _ hI hok hs => hI.step hok hs
  exact ⟨hsound.active hadv, hsound.covered (hsound.active hadv)⟩

/-- A device is asked for everything and grants a view of itself. -/
def attempt : List Action :=
  [.addDevice ⟨['d'], true, true⟩, .dispatch (.connect ['d'] ['r'] .full 0),
    .dispatch (.approveRequest ['r'] .viewOnly 1)]

theorem exists_authority : ∃ w, (watched .local_).ReachVia Patient w ∧
    w.model.activePermissions = .viewOnly ∧ w.model.state.inSession = true := by
  obtain ⟨w, hw, hperm⟩ := Machine.exists_reachVia (M := watched .local_) Patient attempt
    (fun w => w.model.activePermissions = .viewOnly) (by decide +kernel)
  refine ⟨w, hw, hperm, (authority .local_ w hw (.inl ?_)).1⟩
  rw [hperm]
  rfl

/-- **An attempt that is given up after its approval leaves its permissions and its device active.**
-/
theorem leftover : ∃ w, (watched .local_).Reach w ∧ w.model.Advertises ∧
    w.model.state.inSession = false ∧ w.model.activePermissions = .viewOnly ∧
      w.model.activeDeviceId = some ['d'] :=
  Machine.exists_reachVia (M := watched .local_) (fun _ _ => True)
    (attempt ++ [.dispatch .disconnect]) _ (by decide +kernel)

end Watched

end OpenStream.App
