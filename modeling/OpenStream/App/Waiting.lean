import OpenStream.App.Authority

/-!
# A request and the state that waits for it

The state names the request it waits for, and the request is kept beside it.

* **`Watched.paired`**: the two go together while every approval offers the view.
* **`Watched.unpaired`**: an approval that does not takes the request and leaves the state.
-/

namespace OpenStream.App

open Account Runs

/-- The request a state waits for. -/
def AppState.request : AppState → Option Text
  | .waitingForApproval _ requestId => some requestId
  | _ => none

theorem AppState.request_eq_some {s : AppState} {r : Text} :
    s.request = some r ↔ ∃ deviceId, s = .waitingForApproval deviceId r := by
  cases s <;> simp [request]

namespace AppModel

variable {m : AppModel}

def Paired (m : AppModel) : Prop := m.state.request = m.pendingRequest.map (·.requestId)

theorem Paired.moved (h : m.Paired) (hs : m.state.request = none) {s : AppState}
    (hs' : s.request = none) : Paired { m with state := s } := by
  rw [Paired, hs] at h
  exact hs'.trans h

theorem request_restingState : ∀ mode, (restingState mode).request = none
  | .local_ => rfl
  | .secure => rfl

theorem prepareRequest_requestId {deviceId requestId : Text} {requested : PermissionSet}
    {nowMs : ℕ} {r : ConnectionRequest}
    (h : m.prepareRequest deviceId requestId requested nowMs = .ok r) :
    r.requestId = requestId := by
  unfold prepareRequest at h
  simp only [bind, Except.bind, pure, Except.pure, throw, throwThe, MonadExceptOf.throw] at h
  repeat' split at h
  all_goals first | cases h; rfl | cases h

section

variable (h : m.Paired)
include h

theorem Paired.connect (deviceId requestId : Text) (requested : PermissionSet)
    (nowMs : ℕ) : (m.connect deviceId requestId requested nowMs).1.Paired := by
  unfold AppModel.connect
  cases hr : m.prepareRequest deviceId requestId requested nowMs with
  | error e => exact h
  | ok r => exact congrArg some (prepareRequest_requestId hr).symm

theorem Paired.approve (requestId : Text) {available : PermissionSet}
    (hview : available.view = true) (nowMs : ℕ) :
    (m.approve requestId available nowMs).1.Paired := by
  unfold AppModel.approve
  rcases m.takePending_cases requestId nowMs with ⟨e, ht⟩ | ⟨e, -, ht⟩ | ⟨r, -, ht⟩
  · rw [ht]
    exact h
  · rw [ht]
    rfl
  · -- what was asked of the view is granted, so the state moves on with the request
    have hgranted : ¬(r.requested.view && !(r.requested.intersect available).view) = true := by
      simp [PermissionSet.intersect, hview]
    simp only [ht, if_neg hgranted]
    rfl

theorem Paired.reject (requestId : Text) (nowMs : ℕ) : (m.reject requestId nowMs).1.Paired := by
  unfold AppModel.reject
  rcases m.takePending_cases requestId nowMs with ⟨e, ht⟩ | ⟨e, -, ht⟩ | ⟨r, -, ht⟩
  · rw [ht]
    exact h
  · rw [ht]
    rfl
  · rw [ht]
    rfl

theorem Paired.tick (nowMs : ℕ) : (m.tick nowMs).1.Paired := by
  unfold AppModel.tick
  split
  · split_ifs
    · rfl
    · exact h
  · exact h

theorem Paired.established (sessionId : Text) (generation : ℕ) :
    (m.established sessionId generation).1.Paired := by
  unfold AppModel.established
  cases validateId "session_id" sessionId with
  | error e => exact h
  | ok u =>
    split_ifs
    · exact h
    · cases hs : m.state with
      | connecting _ | negotiating _ | reconnecting _ _ => exact h.moved (by rw [hs]; rfl) rfl
      | _ => exact h

theorem Paired.connectionLost (retryable : Bool) : (m.connectionLost retryable).1.Paired := by
  unfold AppModel.connectionLost
  cases hs : m.state with
  | connected _ _ _ | reconnecting _ _ =>
    cases retryable with
    | true => exact h.moved (by rw [hs]; rfl) rfl
    | false => rfl
  | _ => exact h

theorem Paired.hosting (c : AppCommand) : (m.dispatchHosting c).1.Paired := by
  cases c with
  | enableHosting | hostStarting | hostReady | hostFailed =>
    unfold dispatchHosting
    dsimp only
    split <;> exact h
  | _ => exact h

end

end AppModel

def Action.sees : Action → Bool
  | .dispatch (.approveRequest _ available _) => available.view
  | _ => true

namespace Watched

/-- **The condition.** An approval offers the view. -/
def Seeing (_ : Watched) (a : Action) : Prop := a.sees = true

instance (w : Watched) (a : Action) : Decidable (w.Seeing a) := inferInstanceAs (Decidable (_ = _))

variable {w w' : Watched}

theorem paired_dispatch (h : w.model.Paired) {c : AppCommand} (hok : w.Seeing (.dispatch c)) :
    (w.model.dispatch c).1.Paired := by
  cases c with
  | connect deviceId requestId requested nowMs => exact h.connect deviceId requestId requested nowMs
  | approveRequest requestId available nowMs => exact h.approve requestId hok nowMs
  | rejectRequest requestId nowMs => exact h.reject requestId nowMs
  | tick nowMs => exact h.tick nowMs
  | connectionEstablished sessionId generation => exact h.established sessionId generation
  | connectionLost retryable => exact h.connectionLost retryable
  | enableHosting | disableHosting | hostStarting | hostReady | hostFailed => exact h.hosting _
  | connectionFailed retryable =>
    unfold AppModel.dispatch AppModel.connectionFailed
    dsimp only
    split <;> first | rfl | exact h
  | disconnect =>
    unfold AppModel.dispatch AppModel.disconnect
    cases hs : w.model.state with
    | connected _ _ _ | reconnecting _ _ => exact h.moved (by rw [hs]; rfl) rfl
    | waitingForApproval | connecting | negotiating => rfl
    | _ => exact h
  | beginAuthentication =>
    unfold AppModel.dispatch
    split_ifs
    · exact h
    · cases hs : w.model.state with
      | signedOut => exact h.moved (by rw [hs]; rfl) rfl
      | _ => exact h
  | authenticationSucceeded | authenticationFailed retryable =>
    unfold AppModel.dispatch
    cases hs : w.model.state with
    | authenticating => exact h.moved (by rw [hs]; rfl) rfl
    | _ => exact h
  | connectionNegotiating =>
    unfold AppModel.dispatch
    cases hs : w.model.state with
    | connecting => exact h.moved (by rw [hs]; rfl) rfl
    | _ => exact h
  | signOut | clearFailure =>
    unfold AppModel.dispatch
    dsimp only
    split
    · exact AppModel.request_restingState _
    · exact h
  | disconnected =>
    unfold AppModel.dispatch
    cases hs : w.model.state with
    | disconnecting => rfl
    | _ => exact h

theorem paired_step (h : w.model.Paired) {a : Action} (hok : w.Seeing a)
    (hs : w.step a = some w') : w'.model.Paired := by
  cases a with
  | dispatch c =>
    cases hs
    exact paired_dispatch h hok
  | addDevice device =>
    cases hs
    obtain ⟨-, hstate, hp⟩ := sameActive_addDevice w.model device
    rw [AppModel.Paired, hstate, hp]
    exact h
  | replaceDevices devices =>
    cases hs
    exact h

/-- **A request waits if and only if the state waits for it**, as long as every approval offers the
view. -/
theorem paired (mode : DeploymentMode) (w : Watched) (hw : (watched mode).ReachVia Seeing w)
    (r : Text) : (∃ deviceId, w.model.state = .waitingForApproval deviceId r) ↔
      ∃ q, w.model.pendingRequest = some q ∧ q.requestId = r := by
  have hpaired : w.model.Paired := hw.invariant (I := fun w => w.model.Paired)
    (AppModel.request_restingState mode) fun _ _ _ hI hok hs => paired_step hI hok hs
  rw [← AppState.request_eq_some, hpaired, Option.map_eq_some_iff]

theorem exists_paired : ∃ w, (watched .local_).ReachVia Seeing w ∧
    ∃ q, w.model.pendingRequest = some q ∧ q.requestId = ['r'] := by
  obtain ⟨w, hw, hwait⟩ := Machine.exists_reachVia (M := watched .local_) Seeing (attempt.take 2)
    (fun w => w.model.state.request = some ['r']) (by decide +kernel)
  exact ⟨w, hw, (paired .local_ w hw _).mp (AppState.request_eq_some.mp hwait)⟩

/-- **A state that waits for nothing**: the host cannot grant the view, and the approval fails after
it has taken the request. -/
theorem unpaired : ∃ w, (watched .local_).Reach w ∧ w.model.state.request = some ['r'] ∧
    w.model.pendingRequest.isNone = true :=
  Machine.exists_reachVia (M := watched .local_) (fun _ _ => True)
    (attempt.take 2 ++ [.dispatch (.approveRequest ['r'] .none 1)]) _ (by decide +kernel)

end Watched

end OpenStream.App
