import OpenStream.Lib.Runs
import OpenStream.Path.Controller

/-!
# Both ends agree on the active path

A host and a client controller joined by a network that keeps every record ever sent and delivers
any of them, on the slot it was sent on, at any time and any number of times.

* **`Joint.agreement`**
-/

namespace OpenStream.Path

open List

def sends (actions : List MigrationAction) : List (PathSlot × PathControl) :=
  actions.filterMap fun
    | .send slot record => some (slot, record)
    | _ => none

namespace MigrationController

variable {m m' : MigrationController}

/-- The host has sent a commit that was never confirmed. -/
def Closing (m : MigrationController) : Prop :=
  m.state = .commitPending ∨ m.state = .commitUnconfirmed

/-- What a controller keeps of itself. -/
structure WF (m : MigrationController) : Prop where
  pending : ∀ p, m.pending = some p → p.generation = m.activeGeneration + 1
  closing : m.Closing → m.role = .host ∧ ∃ p, m.pending = some p ∧ p.proved = true
  committed : ∀ c, m.committed = some c → c.1 ≤ m.activeGeneration

/-- What a call may send: a commit only while it keeps the commit open, a confirmation only of a
switch already made. -/
def MaySend (m m' : MigrationController) : PathControl → Prop
  | .commit g _ => m.role = .host ∧ m'.Closing ∧ g = m.activeGeneration + 1
  | .commitAck g _ => m.role = .client ∧ g ≤ m.activeGeneration
  | _ => True

/-- A call that switches nothing. -/
structure Quiet (m m' : MigrationController) (actions : List MigrationAction) : Prop where
  role : m'.role = m.role
  active : m'.activeGeneration = m.activeGeneration
  wf : m'.WF
  closing : m.Closing → m'.Closing
  sends : ∀ x ∈ sends actions, MaySend m m' x.2

/-- A call that switches to the next generation, and the record that made it. -/
structure Switched (m m' : MigrationController) (actions : List MigrationAction)
    (record : PathControl) : Prop where
  role : m'.role = m.role
  active : m'.activeGeneration = m.activeGeneration + 1
  wf : m'.WF
  cause : (m.role = .client ∧ ∃ t, record = .commit (m.activeGeneration + 1) t ∧
      ∀ x ∈ sends actions, x.2 = .commitAck (m.activeGeneration + 1) t) ∨
    (m.role = .host ∧ m.Closing ∧ (∃ t, record = .commitAck (m.activeGeneration + 1) t) ∧
      sends actions = [])

theorem Quiet.refl (h : m.WF) : Quiet m m [] := ⟨rfl, rfl, h, id, by simp [Path.sends]⟩

theorem Quiet.same (h : m.WF) {actions : List MigrationAction}
    (hs : ∀ x ∈ Path.sends actions, MaySend m m x.2) : Quiet m m actions :=
  ⟨rfl, rfl, h, id, hs⟩

theorem wf_new (role : Role) : (new role).WF := by
  refine ⟨fun _ h => ?_, fun h => ?_, fun _ h => ?_⟩
  · cases h
  · rcases h with h | h <;> cases h
  · cases h

theorem nextGeneration_eq {g g' : ℕ} (h : nextGeneration g = some g') : g' = g + 1 := by
  unfold nextGeneration at h
  split_ifs at h
  exact (Option.some.inj h).symm

/-! ## One call at a time -/

section

variable (h : m.WF)

include h

theorem quiet_prepare (hc : ¬ m.Closing) {g : ℕ}
    (hg : g = m.activeGeneration + 1) (target : MigrationTarget) (token : MigrationToken) (now : ℕ) :
    Quiet m (m.prepare g target token now).1 (m.prepare g target token now).2 := by
  refine ⟨rfl, rfl, ⟨?_, ?_, h.committed⟩, fun hcl => absurd hcl hc, by simp [prepare, Path.sends]⟩
  · intro p hp
    simp only [prepare, Option.some.injEq] at hp
    rw [← hp]
    exact hg
  · rintro (hcl | hcl) <;> cases hcl

theorem WF.not_closing (hp : m.pending = none) : ¬ m.Closing := by
  intro hc
  obtain ⟨-, p, hp', -⟩ := h.closing hc
  rw [hp] at hp'
  cases hp'

theorem quiet_start (target : MigrationTarget) (token : MigrationToken) (now : ℕ) :
    match m.start target token now with
    | (m', .ok actions) => Quiet m m' actions
    | (m', .error _) => m' = m := by
  unfold start
  split_ifs with h1 h2 h3
  · rfl
  · rfl
  · rfl
  · cases hg : nextGeneration m.activeGeneration with
    | none => rfl
    | some g =>
      have hnone : m.pending = none := by
        cases hp : m.pending with
        | none => rfl
        | some p => simp [hp] at h1
      have hq := quiet_prepare h (h.not_closing hnone) (nextGeneration_eq hg) target token now
      refine { hq with sends := fun x hx => ?_ }
      simp only [Path.sends, filterMap_cons, filterMap_nil,
        mem_singleton] at hx
      rw [hx]
      trivial

theorem quiet_opened (now : ℕ) : Quiet m (m.opened now).1 (m.opened now).2 := by
  unfold opened
  cases hp : m.pending with
  | none => exact .refl h
  | some p =>
    refine ⟨rfl, rfl, ⟨?_, ?_, h.committed⟩, id, ?_⟩
    · intro q hq
      cases hq
      exact h.pending p hp
    · intro hc
      obtain ⟨hrole, q, hq, hproved⟩ := h.closing hc
      rw [hp] at hq
      cases hq
      exact ⟨hrole, _, rfl, hproved⟩
    · simp [Path.sends, MaySend]

theorem quiet_oldPathFailed : Quiet m m.oldPathFailed [] :=
  ⟨rfl, rfl, { h with }, id, by simp [Path.sends]⟩

theorem quiet_failPreparation (reason : AbortReason) :
    Quiet m (m.failPreparation reason).1 (m.failPreparation reason).2 := by
  unfold failPreparation
  split_ifs with hc
  · have hcl : m.Closing := by simpa [Closing] using hc
    exact ⟨rfl, rfl, ⟨h.pending, fun _ => h.closing hcl, h.committed⟩, fun _ => .inr rfl,
      by simp [Path.sends]⟩
  · have hcl : ¬ m.Closing := by simpa [Closing] using hc
    cases hp : m.pending with
    | none => exact .refl h
    | some p =>
      refine ⟨rfl, rfl, ⟨?_, ?_, h.committed⟩, fun h' => absurd h' hcl, ?_⟩
      · intro q hq
        cases hq
      · rintro (hc' | hc') <;> cases hc'
      · simp [Path.sends, MaySend]

theorem WF.update {p q : PendingMigration} (hp : m.pending = some p)
    (hg : q.generation = p.generation) (hproved : p.proved = true → q.proved = true) :
    WF { m with pending := some q } := by
  refine ⟨?_, ?_, h.committed⟩
  · intro q' hq'
    cases hq'
    exact hg.trans (h.pending p hp)
  · intro hc
    obtain ⟨hrole, p', hp', hpr⟩ := h.closing hc
    rw [hp] at hp'
    cases hp'
    exact ⟨hrole, q, rfl, hproved hpr⟩

theorem quiet_tick (now : ℕ) : Quiet m (m.tick now).1 (m.tick now).2 := by
  unfold tick
  split_ifs with hd
  · exact ⟨rfl, rfl, { h with }, id, by simp [Path.sends]⟩
  cases hp : m.pending with
  | none => exact .refl h
  | some p =>
    simp only
    split_ifs with h1 h2
    · exact quiet_failPreparation h .timeout
    · exact .refl h
    · refine ⟨rfl, rfl, h.update hp rfl id, id, fun x hx => ?_⟩
      by_cases hc : m.state = .commitPending
      · rw [retries, if_pos hc] at hx
        simp only [Path.sends, filterMap_cons, filterMap_nil, mem_singleton] at hx
        rw [hx]
        exact ⟨(h.closing (.inl hc)).1, .inl hc, h.pending p hp⟩
      · rw [retries, if_neg hc] at hx
        revert x
        split_ifs <;> simp [Path.sends, MaySend]

variable (ingress : PathSlot)

theorem quiet_receiveRequest (requestId : UInt32) (kind : PathKind)
    (random : Option MigrationToken) (now : ℕ) :
    Quiet m (m.receiveRequest ingress requestId kind random now).1
      (m.receiveRequest ingress requestId kind random now).2 := by
  have hm : WF { m with lastRequest := some requestId } := { h with }
  unfold receiveRequest
  split_ifs with h1 h2
  · exact .refl h
  · exact ⟨rfl, rfl, hm, id, by simp [Path.sends, MaySend]⟩
  · cases random with
    | none => exact ⟨rfl, rfl, hm, id, by simp [Path.sends]⟩
    | some token =>
      have hq := quiet_start hm kind token now
      simp only
      split
      · rename_i m'' actions heq
        rw [heq] at hq
        exact { hq with }
      · rename_i m'' e heq
        rw [heq] at hq
        rw [hq]
        exact ⟨rfl, rfl, hm, id, by simp [Path.sends]⟩

theorem quiet_receivePrepare (g : ℕ) (kind : PathKind)
    (token : MigrationToken) (now : ℕ) :
    Quiet m (m.receivePrepare ingress g kind token now).1
      (m.receivePrepare ingress g kind token now).2 := by
  unfold receivePrepare
  by_cases h1 : (m.role ≠ .client || ingress ≠ ⟨m.activeGeneration⟩ ||
      nextGeneration m.activeGeneration ≠ some g || token = zeroToken) = true
  · rw [if_pos h1]
    exact .refl h
  cases hp : m.pending with
  | some p =>
    simp only
    split_ifs <;> exact .same h (by simp [Path.sends, MaySend])
  | none =>
    split_ifs
    · exact .refl h
    · exact .same h (by simp [Path.sends, MaySend])
    · refine quiet_prepare h (h.not_closing hp) (nextGeneration_eq ?_) kind token now
      simp only [Bool.or_eq_true, decide_eq_true_eq, not_or, not_not] at h1
      exact h1.1.2

theorem quiet_receiveAbort (g : ℕ) :
    Quiet m (m.receiveAbort ingress g).1 (m.receiveAbort ingress g).2 := by
  unfold receiveAbort
  split_ifs with h1
  · refine ⟨rfl, rfl, ⟨?_, ?_, h.committed⟩, ?_, by simp [Path.sends]⟩
    · intro p hp
      cases hp
    · rintro (hc | hc) <;> cases hc
    · simp only [Bool.and_eq_true, Bool.or_eq_true, decide_eq_true_eq] at h1
      rintro (hc | hc) <;> rcases h1.2 with hs | hs <;> rw [hs] at hc <;> cases hc
  · exact .refl h

theorem quiet_tryCommit {p q : PendingMigration} (hp : m.pending = some p)
    (hg : q.generation = p.generation) (hproved : p.proved = true → q.proved = true) (now : ℕ) :
    Quiet m (m.tryCommit q now).1 (m.tryCommit q now).2 := by
  unfold tryCommit
  by_cases h1 : (m.role = .host && q.proved && q.peerReady && m.state = .ready) = true
  · rw [if_pos h1]
    simp only [Bool.and_eq_true, decide_eq_true_eq] at h1
    have hu := h.update hp (q := { q with nextRetry := now + COMMIT_RETRY }) hg hproved
    refine ⟨rfl, rfl, ⟨hu.pending, ?_, h.committed⟩, ?_, ?_⟩
    · intro _
      exact ⟨h1.1.1.1, _, rfl, h1.1.1.2⟩
    · intro _
      exact .inl rfl
    · intro x hx
      simp only [Path.sends, filterMap_cons, filterMap_nil, mem_singleton] at hx
      rw [hx]
      exact ⟨h1.1.1.1, .inl rfl, hg.trans (h.pending p hp)⟩
  · rw [if_neg h1]
    exact ⟨rfl, rfl, h.update hp hg hproved, id, by simp [Path.sends]⟩

theorem quiet_receiveAttempt {p : PendingMigration} (hp : m.pending = some p)
    (ingress : PathSlot) {record : PathControl} (now : ℕ)
    (hr : attemptOf record = some (p.generation, p.token)) :
    Quiet m (m.receiveAttempt p ingress record now).1 (m.receiveAttempt p ingress record now).2 ∨
      Switched m (m.receiveAttempt p ingress record now).1
        (m.receiveAttempt p ingress record now).2 record := by
  have hgen := h.pending p hp
  have hsame := quiet_tryCommit h hp (q := p) rfl id now
  cases record with
  | request | prepare | abort => cases hr
  | probe g t =>
    left
    simp only [receiveAttempt]
    split_ifs
    · refine { hsame with sends := fun x hx => ?_ }
      simp only [Path.sends, filterMap_cons, mem_cons] at hx
      rcases hx with rfl | hx
      · trivial
      · exact hsame.sends x hx
    · exact hsame
  | probeAck g t =>
    left
    simp only [receiveAttempt]
    split_ifs with h1
    · -- a commit is open only once the path is proved, so none is here
      simp only [Bool.and_eq_true, Bool.not_eq_true'] at h1
      have hnc : ¬ m.Closing := by
        intro hc
        obtain ⟨-, q, hq, hpr⟩ := h.closing hc
        rw [hp] at hq
        cases hq
        rw [hpr] at h1
        cases h1.2
      have hm : WF { m with state := .ready } :=
        ⟨h.pending, (fun hc => by rcases hc with hc | hc <;> cases hc), h.committed⟩
      have hq := quiet_tryCommit hm (p := p) (q := { p with proved := true }) hp rfl
        (fun _ => rfl) now
      refine ⟨hq.role, hq.active, hq.wf, fun hc => absurd hc hnc, fun x hx => ?_⟩
      simp only [Path.sends, filterMap_cons, mem_cons] at hx
      rcases hx with rfl | hx
      · trivial
      · exact hq.sends x hx
    · exact hsame
  | ready g t size =>
    left
    simp only [receiveAttempt]
    split_ifs
    · exact quiet_tryCommit h hp (q := { p with peerReady := true }) rfl id now
    · exact hsame
  | commit g t =>
    cases hr
    simp only [receiveAttempt]
    split_ifs with h1
    · right
      simp only [Bool.and_eq_true, decide_eq_true_eq] at h1
      refine ⟨rfl, hgen, ?_, .inl ⟨h1.1.1, p.token, by rw [hgen], ?_⟩⟩
      · refine ⟨fun q hq => ?_, fun hc => ?_, fun c hc => ?_⟩
        · cases hq
        · rcases hc with hc | hc <;> cases hc
        · cases hc
          exact le_rfl
      · intro x hx
        simp only [activate, Path.sends, filterMap_append, filterMap_cons,
          filterMap_nil, nil_append, mem_singleton] at hx
        rw [hx, hgen]
    · exact .inl hsame
  | commitAck g t =>
    cases hr
    simp only [receiveAttempt]
    split_ifs with h1
    · right
      simp only [Bool.and_eq_true, decide_eq_true_eq] at h1
      refine ⟨rfl, hgen, ?_, .inr ⟨h1.1.1, .inl h1.1.2, ⟨p.token, by rw [hgen]⟩, rfl⟩⟩
      refine ⟨fun q hq => ?_, fun hc => ?_, fun c hc => ?_⟩
      · cases hq
      · rcases hc with hc | hc <;> cases hc
      · cases hc
        exact le_rfl
    · exact .inl hsame

theorem quiet_receivePending (record : PathControl) (now : ℕ) :
    Quiet m (m.receivePending ingress record now).1 (m.receivePending ingress record now).2 ∨
      Switched m (m.receivePending ingress record now).1
        (m.receivePending ingress record now).2 record := by
  unfold receivePending
  split
  · rename_i p g t hp hr
    split_ifs with h1
    · exact .inl (.refl h)
    · simp only [Bool.or_eq_true, decide_eq_true_eq, not_or, not_not] at h1
      obtain ⟨⟨rfl, rfl⟩, -⟩ := h1
      exact quiet_receiveAttempt h hp ingress now hr
  · exact .inl (.refl h)

theorem quiet_receive (record : PathControl)
    (random : Option MigrationToken) (now : ℕ) :
    Quiet m (m.receive ingress record random now).1 (m.receive ingress record random now).2 ∨
      Switched m (m.receive ingress record random now).1
        (m.receive ingress record random now).2 record := by
  cases record with
  | request id kind => exact .inl (quiet_receiveRequest h ingress id kind random now)
  | prepare g kind t => exact .inl (quiet_receivePrepare h ingress g kind t now)
  | abort g r => exact .inl (quiet_receiveAbort h ingress g)
  | commit g t =>
    simp only [receive]
    split_ifs with h1
    · left
      simp only [repeatsAck, Bool.and_eq_true, decide_eq_true_eq] at h1
      refine .same h fun x hx => ?_
      simp only [Path.sends, filterMap_cons, filterMap_nil, mem_singleton] at hx
      rw [hx]
      exact ⟨h1.1.1, h.committed _ h1.1.2⟩
    · exact quiet_receivePending h ingress _ now
  | probe | probeAck | ready | commitAck => exact quiet_receivePending h ingress _ now

end

end MigrationController

/-! ## Both ends -/

/-- Both controllers, and every record either has ever sent. -/
structure Joint where
  host : MigrationController
  client : MigrationController
  hostWire : List (PathSlot × PathControl)
  clientWire : List (PathSlot × PathControl)

/-- A call at one end, or a delivery to it. -/
inductive Act
  | start (side : Role) (target : MigrationTarget) (token : MigrationToken) (now : ℕ)
  | opened (side : Role) (now : ℕ)
  | tick (side : Role) (now : ℕ)
  | oldPathFailed (side : Role)
  | failPreparation (side : Role) (reason : AbortReason)
  /-- The `i`-th record the other end sent arrives, on the slot it was sent on. -/
  | deliver (side : Role) (i : ℕ) (random : Option MigrationToken) (now : ℕ)
  /-- The client's driver asks the host to migrate. -/
  | request (ingress : PathSlot) (requestId : UInt32) (kind : PathKind)
    (random : Option MigrationToken) (now : ℕ)

namespace Joint

variable (s : Joint)

def controller : Role → MigrationController
  | .host => s.host
  | .client => s.client

/-- What the other end has sent. -/
def inbox : Role → List (PathSlot × PathControl)
  | .host => s.clientWire
  | .client => s.hostWire

/-- A call returned: its controller replaces the old one and its records go on the wire. -/
def put (side : Role) (m : MigrationController) (actions : List MigrationAction) : Joint :=
  match side with
  | .host => { s with host := m, hostWire := s.hostWire ++ sends actions }
  | .client => { s with client := m, clientWire := s.clientWire ++ sends actions }

def step : Act → Option Joint
  | .start side target token now =>
    match (s.controller side).start target token now with
    | (m, .ok actions) => some (s.put side m actions)
    | (m, .error _) => some (s.put side m [])
  | .opened side now =>
    let (m, actions) := (s.controller side).opened now
    some (s.put side m actions)
  | .tick side now =>
    let (m, actions) := (s.controller side).tick now
    some (s.put side m actions)
  | .oldPathFailed side => some (s.put side (s.controller side).oldPathFailed [])
  | .failPreparation side reason =>
    let (m, actions) := (s.controller side).failPreparation reason
    some (s.put side m actions)
  | .deliver side i random now => do
    let (ingress, record) ← (s.inbox side)[i]?
    let (m, actions) := (s.controller side).receive ingress record random now
    some (s.put side m actions)
  | .request ingress requestId kind random now =>
    let (m, actions) := s.host.receive ingress (.request requestId kind) random now
    some (s.put .host m actions)

end Joint

/-- The two ends and their network as a machine. -/
def joint : Runs.Machine Joint Act where
  start := ⟨.new .host, .new .client, [], []⟩
  step := Joint.step

namespace Joint

open MigrationController

variable {s s' : Joint} {m : MigrationController} {actions : List MigrationAction}

/-- What holds of both ends and of the records between them. -/
structure Inv (s : Joint) : Prop where
  host : s.host.role = .host ∧ s.host.WF
  client : s.client.role = .client ∧ s.client.WF
  level : s.client.activeGeneration = s.host.activeGeneration ∨
    (s.client.activeGeneration = s.host.activeGeneration + 1 ∧ s.host.Closing)
  commits : ∀ x ∈ s.hostWire, ∀ g t, x.2 = .commit g t → g ≤ s.host.activeGeneration ∨
    (g = s.host.activeGeneration + 1 ∧ s.host.Closing)
  acks : ∀ x ∈ s.clientWire, ∀ g t, x.2 = .commitAck g t → g ≤ s.client.activeGeneration

section

variable (h : Inv s)
include h

theorem Inv.quiet_host (hq : Quiet s.host m actions) : Inv (s.put .host m actions) := by
  refine ⟨⟨hq.role.trans h.host.1, hq.wf⟩, h.client, ?_, ?_, h.acks⟩
  · show _ = m.activeGeneration ∨ _ = m.activeGeneration + 1 ∧ m.Closing
    rw [hq.active]
    exact h.level.imp_right fun hl => ⟨hl.1, hq.closing hl.2⟩
  · intro x hx g t hrec
    show g ≤ m.activeGeneration ∨ g = m.activeGeneration + 1 ∧ m.Closing
    rw [hq.active]
    rcases mem_append.mp hx with hx | hx
    · exact (h.commits x hx g t hrec).imp_right fun hl => ⟨hl.1, hq.closing hl.2⟩
    · have hsend := hq.sends x hx
      rw [hrec] at hsend
      exact .inr ⟨hsend.2.2, hsend.2.1⟩

theorem Inv.quiet_client (hq : Quiet s.client m actions) : Inv (s.put .client m actions) := by
  refine ⟨h.host, ⟨hq.role.trans h.client.1, hq.wf⟩, ?_, h.commits, ?_⟩
  · show m.activeGeneration = _ ∨ m.activeGeneration = _ ∧ _
    rw [hq.active]
    exact h.level
  · intro x hx g t hrec
    show g ≤ m.activeGeneration
    rw [hq.active]
    rcases mem_append.mp hx with hx | hx
    · exact h.acks x hx g t hrec
    · have hsend := hq.sends x hx
      rw [hrec] at hsend
      exact hsend.2

theorem Inv.quiet {side : Role} (hq : Quiet (s.controller side) m actions) :
    Inv (s.put side m actions) := by
  cases side with
  | host => exact h.quiet_host hq
  | client => exact h.quiet_client hq

theorem Inv.wf (side : Role) : (s.controller side).WF := by
  cases side with
  | host => exact h.host.2
  | client => exact h.client.2

theorem Inv.switched_host {slot : PathSlot} {record : PathControl}
    (hx : (slot, record) ∈ s.clientWire) (hs : Switched s.host m actions record) :
    Inv (s.put .host m actions) := by
  rcases hs.cause with ⟨hr, -⟩ | ⟨-, -, ⟨t, hrec⟩, hsends⟩
  · rw [h.host.1] at hr
    cases hr
  have hle := h.acks _ hx _ t hrec
  refine ⟨⟨hs.role.trans h.host.1, hs.wf⟩, h.client, ?_, ?_, h.acks⟩
  · left
    show s.client.activeGeneration = m.activeGeneration
    rw [hs.active]
    rcases h.level with hl | hl <;> omega
  · intro y hy g t hrec'
    left
    show g ≤ m.activeGeneration
    rw [hs.active]
    rcases mem_append.mp hy with hy | hy
    · rcases h.commits y hy g t hrec' with hl | hl <;> omega
    · rw [hsends] at hy
      cases hy

theorem Inv.switched_client {slot : PathSlot} {record : PathControl}
    (hx : (slot, record) ∈ s.hostWire) (hs : Switched s.client m actions record) :
    Inv (s.put .client m actions) := by
  rcases hs.cause with ⟨-, t, hrec, hsends⟩ | ⟨hr, -⟩
  swap
  · rw [h.client.1] at hr
    cases hr
  have hopen := h.commits _ hx _ t hrec
  refine ⟨h.host, ⟨hs.role.trans h.client.1, hs.wf⟩, ?_, h.commits, ?_⟩
  · right
    show m.activeGeneration = _ ∧ _
    rw [hs.active]
    rcases hopen with hl | ⟨hl, hc⟩
    · rcases h.level with hl' | ⟨hl', -⟩ <;> omega
    · exact ⟨hl, hc⟩
  · intro y hy g t' hrec'
    show g ≤ m.activeGeneration
    rw [hs.active]
    rcases mem_append.mp hy with hy | hy
    · have := h.acks y hy g t' hrec'
      omega
    · have := (hsends y hy).symm.trans hrec'
      cases this
      exact le_rfl

theorem Inv.step {a : Act} (hst : step s a = some s') : Inv s' := by
  cases a with
  | start side target token now =>
    have hq := quiet_start (h.wf side) target token now
    simp only [Joint.step] at hst
    split at hst
    · rename_i m actions heq
      rw [heq] at hq
      cases hst
      exact h.quiet hq
    · rename_i m e heq
      rw [heq] at hq
      cases hst
      rw [hq]
      exact h.quiet (.refl (h.wf side))
  | opened side now =>
    cases hst
    exact h.quiet (quiet_opened (h.wf side) now)
  | tick side now =>
    cases hst
    exact h.quiet (quiet_tick (h.wf side) now)
  | oldPathFailed side =>
    cases hst
    exact h.quiet (quiet_oldPathFailed (h.wf side))
  | failPreparation side reason =>
    cases hst
    exact h.quiet (quiet_failPreparation (h.wf side) reason)
  | deliver side i random now =>
    simp only [Joint.step, Option.bind_eq_bind, Option.bind_eq_some_iff] at hst
    obtain ⟨⟨ingress, record⟩, hx, hst⟩ := hst
    have hmem := mem_of_getElem? hx
    cases hst
    rcases quiet_receive (h.wf side) ingress record random now with hq | hs
    · exact h.quiet hq
    · cases side with
      | host => exact h.switched_host hmem hs
      | client => exact h.switched_client hmem hs
  | request ingress requestId kind random now =>
    cases hst
    exact h.quiet_host (quiet_receiveRequest h.host.2 ingress requestId kind random now)

end

theorem inv_of_reach (h : joint.Reach s) : Inv s := by
  refine h.invariant ⟨⟨rfl, wf_new _⟩, ⟨rfl, wf_new _⟩, .inl rfl, ?_, ?_⟩
    fun _ _ _ hi _ hst => hi.step hst
  · intro x hx
    cases hx
  · intro x hx
    cases hx

/-- **Path migration agreement**: the active generations are equal, or the client's is one greater
and the host's commit is open or unconfirmed. -/
theorem agreement (h : joint.Reach s) :
    (s.client.activeGeneration = s.host.activeGeneration ∨
      (s.client.activeGeneration = s.host.activeGeneration + 1 ∧
        (s.host.state = .commitPending ∨ s.host.state = .commitUnconfirmed))) ∧
      ∀ a b, s.host.applicationSlot = .ok a → s.client.applicationSlot = .ok b → a = b := by
  have hl := (inv_of_reach h).level
  refine ⟨hl, fun a b ha hb => ?_⟩
  have hslot : ∀ (m : MigrationController) (x : PathSlot), m.applicationSlot = .ok x →
      x = ⟨m.activeGeneration⟩ ∧ ¬ m.Closing := by
    intro m x hx
    unfold applicationSlot at hx
    unfold Closing
    cases hstate : m.state <;> rw [hstate] at hx <;> cases hx <;> simp
  obtain ⟨rfl, hnc⟩ := hslot _ _ ha
  obtain ⟨rfl, -⟩ := hslot _ _ hb
  rcases hl with hl | ⟨-, hc⟩
  · rw [hl]
  · exact absurd hc hnc

/-- An attempt up to the client's switch: both ends prepare, prove the path and say so, the host
commits and the commit arrives. -/
def attempt (token : MigrationToken) : List Act :=
  [.start .host .directUdp token 0, .deliver .client 0 none 0, .opened .host 0, .opened .client 0,
    .deliver .client 1 none 0, .deliver .host 0 none 0, .deliver .client 2 none 0,
    .deliver .host 1 none 0, .deliver .host 2 none 0, .deliver .client 4 none 0]

theorem agreement_switching : ∃ s, joint.Reach s ∧
    s.client.activeGeneration = s.host.activeGeneration + 1 ∧
    (s.host.state = .commitPending ∨ s.host.state = .commitUnconfirmed) := by
  obtain ⟨s, h, hs⟩ := joint.exists_reachVia (fun _ _ => True)
    (attempt (Vector.replicate PATH_TOKEN_BYTES 7))
    (fun s => s.client.activeGeneration = s.host.activeGeneration + 1) (by decide)
  refine ⟨s, h, hs, ?_⟩
  rcases (agreement h).1 with hl | ⟨-, hl⟩
  · omega
  · exact hl

end Joint

end OpenStream.Path
