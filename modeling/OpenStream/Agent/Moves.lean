import OpenStream.Agent.Supervisor

/-!
# What a call to the supervisor can do

* **`run_moves`**: every call has an outcome, and it is one of the moves.
-/

namespace OpenStream.Agent

/-! ## The moves -/

/-- When a child that was told to end may be killed. -/
def stopDeadline (now : Instant) : Except AgentError Unit → Instant
  | .ok () => now + STOP_GRACE_PERIOD
  | .error _ => now

structure Same (a a' : HostAgent) : Prop where
  config : a'.config = a.config
  child : a'.child = a.child
  restartCount : a'.restartCount = a.restartCount
  startedAt : a'.startedAt = a.startedAt
  stopDeadline : a'.stopDeadline = a.stopDeadline
  state : a'.state = a.state ∨ a.state = .starting ∧ a'.state = .ready
  nextRestartAt : a.state = .backoff → a'.nextRestartAt = a.nextRestartAt
  stopRequested : a.stopRequested = true → a'.stopRequested = true

theorem Same.refl (a : HostAgent) : Same a a :=
  ⟨rfl, rfl, rfl, rfl, rfl, .inl rfl, fun _ => rfl, id⟩

/-- A restart is due after the delay of the next number, or there is none left. -/
structure Scheduled (c : HostAgentConfig) (count : ℕ) (now : Instant) (a' : HostAgent) : Prop where
  config : a'.config = c
  child : a'.child = none
  state : a'.state = .failed ∨ a'.state = .backoff ∧ count < c.policy.maxRestarts ∧
    a'.restartCount = count + 1 ∧
    a'.nextRestartAt = some (now + fromMillis (c.policy.delayMs (count + 1)))

/-- The calls that may spawn, with the restarts counted so far. -/
inductive Spawning (a : HostAgent) (now : Instant) : Command → ℕ → Prop
  | start : a.state = .stopped ∨ a.state = .failed → Spawning a now .start 0
  | restart {d : Instant} : a.state = .backoff → a.nextRestartAt = some d → d ≤ now →
    Spawning a now .tick a.restartCount

/-- What a call can do. -/
inductive Moves (a : HostAgent) (now : Instant) : Command → Outcome → Prop
  | keeps {command : Command} {a' : HostAgent} {effects : List Effect} {answer : Answer} :
    Same a a' → (effects = [] ∨ ∃ child seen, effects = [.tryWait child seen] ∧
      ∀ exit, seen ≠ .ok (some exit)) →
    (command = .stop → a'.state = .stopped ∨ a'.state = .stopping ∧ a'.stopRequested = true) →
    (∀ config, command = .replaceConfig config → answer.toBool = false) →
    Moves a now command (a', effects, answer)
  | halts {a' : HostAgent} {answer : Answer} : a.child = none → a'.config = a.config →
    a'.child = none → a'.state = .stopped → Moves a now .stop (a', [], answer)
  | replaces {config : HostAgentConfig} : a.child = none → config.policy.maxRestarts ≤ 100 →
    Moves a now (.replaceConfig config) (.idle config, [], .ok [])
  | spawns {command : Command} {count : ℕ} {a' : HostAgent} {spec : ChildSpec} {child : Child}
      {answer : Answer} :
    Spawning a now command count → a'.config = a.config → a'.child = some child →
    a'.state = .starting → a'.startedAt = some now → a'.restartCount = count →
    Moves a now command (a', [.spawn spec (.ok child)], answer)
  | fails {command : Command} {count : ℕ} {a' : HostAgent} {spec : ChildSpec} {error : AgentError}
      {answer : Answer} :
    Spawning a now command count → Scheduled a.config count now a' →
    Moves a now command (a', [.spawn spec (.error error)], answer)
  | tells {command : Command} {a' : HostAgent} {child : Child} {effects : List Effect}
      {told : Except AgentError Unit} {answer : Answer} :
    a.child = some child → command = .tick ∧ a.state ≠ .stopping ∨
      command = .stop ∧ a'.stopRequested = true →
    (effects = [] ∨ effects = [.tryWait child (.ok none)]) →
    a'.config = a.config → a'.child = some child → a'.restartCount = a.restartCount →
    a'.startedAt = a.startedAt → a'.state = .stopping →
    a'.stopDeadline = some (Agent.stopDeadline now told) →
    Moves a now command (a', effects ++ [.terminate child told], answer)
  | kills {a' : HostAgent} {child : Child} {d : Instant} {killed : Except AgentError Unit}
      {answer : Answer} :
    a.state = .stopping → a.child = some child → a.stopDeadline = some d → d ≤ now → Same a a' →
    Moves a now .tick (a', [.tryWait child (.ok none), .forceKill child killed], answer)
  | reaps {a' : HostAgent} {child : Child} {exit : ChildExit} {answer : Answer} :
    a.child = some child →
    (a'.config = a.config ∧ a'.child = none ∧ a'.state = .stopped ∨ a.stopRequested = false ∧
      Scheduled a.config
        (if a.ranFor now a.config.policy.resetAfterMs then 0 else a.restartCount) now a') →
    Moves a now .tick
      (a', [.tryWait child (.ok (some exit)), .cleanupAfterReap child], answer)

def Held (a : HostAgent) : Prop :=
  a.child ≠ none ↔ a.state = .starting ∨ a.state = .ready ∨ a.state = .stopping

theorem HostAgentConfig.maxRestarts_le {c : HostAgentConfig} {pairingFile : Except AgentError Unit}
    (h : c.validate pairingFile = .ok ()) : c.policy.maxRestarts ≤ 100 := by
  unfold HostAgentConfig.validate at h
  cases hs : c.child.validate pairingFile with
  | error e =>
    rw [hs] at h
    cases h
  | ok u =>
    cases hp : c.policy.validate with
    | error e =>
      rw [hs, hp] at h
      cases h
    | ok v =>
      unfold ChildPolicy.validate at hp
      split_ifs at hp with hbad
      omega

/-! ## Every call is a move -/

section Moves

variable {a : HostAgent} {now : Instant} {w : World}
variable {b : HostAgent} {child : Child}

theorem scheduleRestart_scheduled {a : HostAgent} (hc : a.child = none)
    (hmax : a.config.policy.maxRestarts ≤ 100) (error : HostErrorCode)
    (events : List HostAgentEvent) :
    Scheduled a.config a.restartCount now (a.scheduleRestart now error events).1 := by
  unfold HostAgent.scheduleRestart
  split_ifs with h
  · exact ⟨rfl, hc, .inl rfl⟩
  · have hmin : min (a.restartCount + 1) (2 ^ 32 - 1) = a.restartCount + 1 := by omega
    rw [hmin]
    exact ⟨rfl, hc, .inr ⟨rfl, by omega, rfl, rfl⟩⟩

theorem spawn_moves {command : Command} {count : ℕ}
    (hs : Spawning a now command count) (hcfg : b.config = a.config) (hc : b.child = none)
    (hst : b.state = a.state) (hcount : b.restartCount = count)
    (hmax : a.config.policy.maxRestarts ≤ 100) : Moves a now command (b.spawn now w) := by
  have hstop : b.state ≠ .stopping := by
    rw [hst]
    cases hs with
    | start h => rcases h with h | h <;> rw [h] <;> decide
    | restart h => rw [h]; decide
  unfold HostAgent.spawn
  rw [if_neg (by simp [hc, hstop])]
  cases w.spawn with
  | error e =>
    refine .fails hs ?_
    subst hcount
    rw [← hcfg] at hmax ⊢
    exact scheduleRestart_scheduled hc hmax _ _
  | ok child => exact .spawns hs hcfg rfl rfl rfl hcount

theorem start_moves (hheld : Held a) (hmax : a.config.policy.maxRestarts ≤ 100) :
    Moves a now .start (a.start now w) := by
  unfold HostAgent.start
  split_ifs with h
  · exact .keeps (.refl a) (.inl rfl) nofun nofun
  · have hst : a.state = .stopped ∨ a.state = .failed := by
      cases hs : a.state <;> simp_all
    have hc : a.child = none := by
      by_contra hne
      rcases hheld.mp hne with hs | hs | hs <;> simp [hs] at h
    exact spawn_moves (.start hst) rfl hc rfl rfl hmax

theorem beginStopping_moves {command : Command}
    {effects : List Effect} {pending : Option ChildExitReason} (hc : a.child = some child)
    (hcmd : command = .tick ∧ a.state ≠ .stopping ∨ command = .stop ∧ b.stopRequested = true)
    (heff : effects = [] ∨ effects = [.tryWait child (.ok none)]) (hcfg : b.config = a.config)
    (hbc : b.child = some child) (hcount : b.restartCount = a.restartCount)
    (hat : b.startedAt = a.startedAt) :
    Moves a now command ((b.beginStopping child now pending w).1,
      effects ++ (b.beginStopping child now pending w).2.1,
      (b.beginStopping child now pending w).2.2) := by
  unfold HostAgent.beginStopping
  cases w.terminate with
  | ok u | error e => exact .tells hc hcmd heff hcfg hbc hcount hat rfl rfl

theorem stop_moves : Moves a now .stop (a.stop now w) := by
  unfold HostAgent.stop
  by_cases h : a.state = .stopped ∧ a.child = none ∧ a.nextRestartAt = none
  · rw [if_pos h]
    exact .keeps (.refl a) (.inl rfl) (fun _ => .inl h.1) nofun
  rw [if_neg h]
  cases hc : a.child with
  | none => exact .halts hc rfl rfl rfl
  | some child =>
    simp only
    by_cases hs : a.state = .stopping
    · rw [if_pos hs]
      refine .keeps ⟨rfl, hc.symm, rfl, rfl, rfl, .inl rfl, ?_, fun _ => rfl⟩ (.inl rfl)
        (fun _ => .inr ⟨hs, rfl⟩) nofun
      rw [hs]
      nofun
    · rw [if_neg hs]
      exact beginStopping_moves hc (.inr ⟨rfl, rfl⟩) (.inl rfl) rfl rfl rfl rfl

theorem replaceConfig_moves (config : HostAgentConfig) :
    Moves a now (.replaceConfig config) (a.replaceConfig config w) := by
  have hkeep : ∀ e, Moves a now (.replaceConfig config) (a, [], .error e) := fun e =>
    .keeps (.refl a) (.inl rfl) nofun fun _ _ => rfl
  unfold HostAgent.replaceConfig
  split_ifs with h
  · exact hkeep _
  · cases hv : config.validate w.pairingFile with
    | error e => exact hkeep e
    | ok u =>
      exact .replaces (by simp_all) (HostAgentConfig.maxRestarts_le hv)

theorem reaped_moves {exit : ChildExit} {answer : Answer}
    {error : HostErrorCode} {events : List HostAgentEvent} (hc : a.child = some child)
    (hmax : a.config.policy.maxRestarts ≤ 100) (hcfg : b.config = a.config) (hbc : b.child = none)
    (hcount : b.restartCount = a.restartCount) (hstop : a.stopRequested = false) :
    Moves a now .tick (((if a.ranFor now a.config.policy.resetAfterMs then
        { b with restartCount := 0 } else b).scheduleRestart now error events).1,
      [.tryWait child (.ok (some exit)), .cleanupAfterReap child], answer) := by
  refine .reaps hc (.inr ⟨hstop, ?_⟩)
  generalize a.ranFor now a.config.policy.resetAfterMs = long
  rw [← hcfg] at hmax ⊢
  cases long with
  | true => exact scheduleRestart_scheduled (a := { b with restartCount := 0 }) hbc hmax _ _
  | false =>
    rw [← hcount]
    exact scheduleRestart_scheduled hbc hmax _ _

theorem tickStopping_moves (hst : a.state = .stopping) (hc : a.child = some child)
    (hmax : a.config.policy.maxRestarts ≤ 100) :
    Moves a now .tick (a.tickStopping child now w) := by
  unfold HostAgent.tickStopping
  cases w.tryWait with
  | error e => exact .keeps (.refl a) (.inr ⟨_, _, rfl, nofun⟩) nofun nofun
  | ok seen =>
    cases seen with
    | some exit =>
      simp only [HostAgent.handleStopped]
      cases a.pendingTermination with
      | none => exact .reaps hc (.inl ⟨rfl, rfl, rfl⟩)
      | some reason =>
        simp only
        by_cases hstop : a.stopRequested = true
        · rw [if_pos hstop]
          exact .reaps hc (.inl ⟨rfl, rfl, rfl⟩)
        · rw [if_neg hstop]
          exact reaped_moves hc hmax rfl rfl rfl (by simpa using hstop)
    | none =>
      by_cases hk : (!a.forceKillSent && a.stopDeadline.any (· ≤ now)) = true
      · rw [if_pos hk]
        rw [Bool.and_eq_true, Option.any_eq_true] at hk
        obtain ⟨-, d, hd, hle⟩ := hk
        cases w.forceKill with
        | error e =>
          exact .kills hst hc hd (by simpa using hle)
            ⟨rfl, rfl, rfl, rfl, rfl, .inl rfl, fun _ => rfl, id⟩
        | ok u =>
          exact .kills hst hc hd (by simpa using hle)
            ⟨rfl, rfl, rfl, rfl, rfl, .inl rfl, fun _ => rfl, id⟩
      · rw [if_neg hk]
        exact .keeps (.refl a) (.inr ⟨_, _, rfl, nofun⟩) nofun nofun

theorem observe_same (a : HostAgent) (now : Instant) (w : World) : Same a (a.observe now w).1 := by
  unfold HostAgent.observe
  cases a.config.frameHeartbeatFile with
  | none => exact ⟨rfl, rfl, rfl, rfl, rfl, .inl rfl, fun _ => rfl, id⟩
  | some path =>
    split_ifs <;> exact ⟨rfl, rfl, rfl, rfl, rfl, .inl rfl, fun _ => rfl, id⟩

theorem tickChild_moves (hst : a.state ≠ .stopping) (hc : a.child = some child)
    (hmax : a.config.policy.maxRestarts ≤ 100) : Moves a now .tick (a.tickChild child now w) := by
  unfold HostAgent.tickChild
  cases w.tryWait with
  | error e => exact .keeps (.refl a) (.inr ⟨_, _, rfl, nofun⟩) nofun nofun
  | ok seen =>
    cases seen with
    | some exit =>
      simp only [HostAgent.handleExit]
      by_cases hstop : (a.stopRequested || !(ChildExitReason.ofExit exit).shouldRestart) = true
      · rw [if_pos hstop]
        exact .reaps hc (.inl ⟨rfl, rfl, rfl⟩)
      · rw [if_neg hstop]
        rw [Bool.or_eq_true, not_or] at hstop
        exact reaped_moves hc hmax rfl rfl rfl (by simpa using hstop.1)
    | none =>
      have hends : ∀ (b : HostAgent) (reason : ChildExitReason), Same a b →
          Moves a now .tick ((b.beginStopping child now (some reason) w).1,
            .tryWait child (.ok none) :: (b.beginStopping child now (some reason) w).2.1,
            (b.beginStopping child now (some reason) w).2.2) := fun b reason hb =>
        beginStopping_moves hc (.inl ⟨rfl, hst⟩) (.inr rfl) hb.config (hb.child.trans hc)
          hb.restartCount hb.startedAt
      have hkeep : ∀ (b : HostAgent) (answer : Answer), Same a b →
          Moves a now .tick (b, [.tryWait child (.ok none)], answer) := fun b answer hb =>
        .keeps hb (.inr ⟨_, _, rfl, nofun⟩) nofun nofun
      have hobs := observe_same a now w
      by_cases hlife : a.maxLifetimeReached now = true
      · rw [if_pos hlife]
        exact hends a _ (.refl a)
      generalize a.observe now w = seen at hobs
      obtain ⟨a', healthy⟩ := seen
      simp only at hobs ⊢
      have htimed : Same a { a' with lastError := some .frameLivenessTimeout } := { hobs with }
      by_cases hstart : a'.state = .starting
      · rw [if_pos hstart]
        have hwas : a.state = .starting := by
          rcases hobs.state with h | ⟨h, -⟩
          · rw [← h, hstart]
          · exact h
        split_ifs
        · refine hkeep _ _ { hobs with state := .inr ⟨hwas, rfl⟩ }
        · exact hends _ _ htimed
        · exact hkeep _ _ hobs
      · rw [if_neg hstart]
        split_ifs
        · exact hends _ _ htimed
        · exact hkeep _ _ hobs

theorem tick_moves (hheld : Held a) (hmax : a.config.policy.maxRestarts ≤ 100) :
    ∃ o, a.tick now w = some o ∧ Moves a now .tick o := by
  unfold HostAgent.tick
  by_cases hst : a.state = .stopping
  · rw [if_pos hst]
    obtain ⟨child, hc⟩ := Option.ne_none_iff_exists'.mp (hheld.mpr (.inr (.inr hst)))
    exact ⟨_, by rw [hc]; rfl, tickStopping_moves hst hc hmax⟩
  rw [if_neg hst]
  by_cases hb : a.state = .backoff
  · rw [if_pos hb]
    have hc : a.child = none := by
      by_contra hne
      rcases hheld.mp hne with hs | hs | hs <;> rw [hs] at hb <;> cases hb
    by_cases hd : a.nextRestartAt.any (· ≤ now) = true
    · rw [if_pos hd]
      rw [Option.any_eq_true] at hd
      obtain ⟨d, hd, hle⟩ := hd
      exact ⟨_, rfl, spawn_moves (.restart hb hd (by simpa using hle)) rfl hc rfl rfl hmax⟩
    · rw [if_neg hd]
      exact ⟨_, rfl, .keeps (.refl a) (.inl rfl) nofun nofun⟩
  rw [if_neg hb]
  cases hc : a.child with
  | none => exact ⟨_, rfl, .keeps (.refl a) (.inl rfl) nofun nofun⟩
  | some child => exact ⟨_, rfl, tickChild_moves hst hc hmax⟩

/-- **Every call has an outcome, and it is one of the moves.** -/
theorem run_moves (hheld : Held a) (hmax : a.config.policy.maxRestarts ≤ 100) (now : Instant)
    (w : World) : ∀ command, ∃ o, a.run now w command = some o ∧ Moves a now command o
  | .start => ⟨_, rfl, start_moves hheld hmax⟩
  | .stop => ⟨_, rfl, stop_moves⟩
  | .tick => tick_moves hheld hmax
  | .replaceConfig config => ⟨_, rfl, replaceConfig_moves config⟩

end Moves

end OpenStream.Agent
