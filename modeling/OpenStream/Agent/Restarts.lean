import OpenStream.Agent.Moves
import OpenStream.Lib.Runs

/-!
# One child at a time, and a bounded number of restarts

The laws of the supervisor are stated on the calls it received and on what each asked of the
platform, newest first; the agent's own fields do not occur in them.

* **`Supervised.every_call_lawful`**
-/

namespace OpenStream.Agent

open Runs List

/-! ## The calls of a run -/

/-- A call: when it was made, the configuration in force before and after, what it asked of the
platform and what it answered. -/
structure Turn where
  command : Command
  now : Instant
  config : HostAgentConfig
  newConfig : HostAgentConfig
  effects : List Effect
  answer : Answer

/-- The factory was asked for a child. -/
def Effect.isSpawn : Effect → Bool
  | .spawn _ _ => true
  | _ => false

def Effect.spawned : Effect → Option Child
  | .spawn _ (.ok child) => some child
  | _ => none

/-- The child whose end was seen. -/
def Effect.reaped : Effect → Option Child
  | .tryWait child (.ok (some _)) => some child
  | _ => none

/-- A child could not be had, or ended. -/
def Effect.fails : Effect → Bool
  | .spawn _ (.error _) => true
  | .tryWait _ (.ok (some _)) => true
  | _ => false

def Effect.deadline (child : Child) (now : Instant) : Effect → Option Instant
  | .terminate told answer => if told = child then some (stopDeadline now answer) else none
  | _ => none

namespace Turn

def spawns (t : Turn) : Bool := t.effects.any Effect.isSpawn

def spawned (t : Turn) : List Child := t.effects.filterMap Effect.spawned

def reaped (t : Turn) : List Child := t.effects.filterMap Effect.reaped

def fails (t : Turn) : Bool := t.effects.any Effect.fails

def deadline (child : Child) (t : Turn) : Option Instant :=
  t.effects.findSome? (Effect.deadline child t.now)

def bornAt (child : Child) (t : Turn) : Option Instant :=
  if child ∈ t.spawned then some t.now else none

def restarts (t : Turn) : Bool := t.command = .tick && t.spawns

end Turn

def spawned (turns : List Turn) : List Child := turns.flatMap Turn.spawned

def reaped (turns : List Turn) : List Child := turns.flatMap Turn.reaped

def bornAt (child : Child) (turns : List Turn) : Option Instant :=
  turns.findSome? (Turn.bornAt child)

def deadline (child : Child) (turns : List Turn) : Option Instant :=
  turns.findSome? (Turn.deadline child)

def halted : List Turn → Bool
  | [] => false
  | t :: older =>
    match t.command with
    | .stop => true
    | .start => false
    | _ => halted older

def Turn.resets (t : Turn) (older : List Turn) : Bool :=
  match t.command with
  | .start => t.spawns
  | .replaceConfig _ => t.answer.toBool
  | _ => t.reaped.any fun child => (Agent.bornAt child older).any fun born =>
      fromMillis t.config.policy.resetAfterMs ≤ t.now - born

def attempts : List Turn → ℕ
  | [] => 0
  | t :: older =>
    if t.resets older then 0 else if t.restarts then attempts older + 1 else attempts older

/-- What may be said of a call, given the calls before it. -/
structure Lawful (t : Turn) (older : List Turn) : Prop where
  /-- Every child handed out before has been reaped. -/
  alone : t.spawns → spawned older = reaped older
  started : t.spawns → halted older → t.command = .start
  /-- The configuration changes only while no child exists. -/
  configured : t.newConfig ≠ t.config → spawned older = reaped older
  /-- The restarts since the last reset are within the policy's limit. -/
  limited : t.restarts → attempts (t :: older) ≤ t.config.policy.maxRestarts
  /-- A restart waits for its delay after the failure that caused it. -/
  waited : t.restarts → ∃ f, older.find? Turn.fails = some f ∧
    f.now + fromMillis (t.config.policy.delayMs (attempts (t :: older))) ≤ t.now
  /-- A child is not killed before its stop deadline. -/
  spared : ∀ child answer, .forceKill child answer ∈ t.effects →
    ∃ d, deadline child older = some d ∧ d ≤ t.now

/-- An agent and the calls it received, the last one first. -/
structure Supervised where
  agent : HostAgent
  turns : List Turn

/-- A call to make, with what the platform will answer. -/
structure Call where
  command : Command
  now : Instant
  world : World

namespace Supervised

def step (s : Supervised) (x : Call) : Option Supervised :=
  (s.agent.run x.now x.world x.command).map fun o =>
    ⟨o.1, ⟨x.command, x.now, s.agent.config, o.1.config, o.2.1, o.2.2⟩ :: s.turns⟩

end Supervised

def supervising (a : HostAgent) : Machine Supervised Call := ⟨⟨a, []⟩, Supervised.step⟩

/-! ## The invariant -/

/-- The agent's fields say of the run what the laws need. -/
structure Inv (a : HostAgent) (turns : List Turn) : Prop where
  policy : a.config.policy.maxRestarts ≤ 100
  held : Held a
  live : spawned turns = a.child.toList ++ reaped turns
  born : ∀ child, a.child = some child → a.startedAt = bornAt child turns
  bound : attempts turns ≤ a.config.policy.maxRestarts
  counted : a.child ≠ none → a.restartCount = attempts turns
  waiting : a.state = .backoff → a.restartCount = attempts turns + 1 ∧
    a.restartCount ≤ a.config.policy.maxRestarts ∧ ∃ f, turns.find? Turn.fails = some f ∧
      a.nextRestartAt = some (f.now + fromMillis (a.config.policy.delayMs a.restartCount))
  told : a.state = .stopping → ∀ child, a.child = some child → deadline child turns = a.stopDeadline
  ceased : halted turns = true → a.state = .stopped ∨ a.state = .stopping ∧ a.stopRequested = true

/-- A call that asked for no child and saw none end. -/
structure Calm (t : Turn) : Prop where
  spawned : t.spawned = []
  spawns : t.spawns = false
  reaped : t.reaped = []
  fails : t.fails = false

section Calm

variable {t : Turn} {older : List Turn}

section

variable (h : Calm t)
include h

theorem Calm.restarts : t.restarts = false := by
  rw [Turn.restarts, h.spawns, Bool.and_false]

theorem Calm.attempts
    (hr : ∀ config, t.command = .replaceConfig config → t.answer.toBool = false) :
    attempts (t :: older) = attempts older := by
  have hresets : t.resets older = false := by
    unfold Turn.resets
    cases hc : t.command with
    | start => exact h.spawns
    | replaceConfig config => exact hr config hc
    | stop | tick => simp [h.reaped]
  simp [Agent.attempts, hresets, h.restarts]

theorem Calm.spawned_cons : Agent.spawned (t :: older) = Agent.spawned older := by
  rw [Agent.spawned, flatMap_cons, h.spawned, nil_append]
  rfl

theorem Calm.reaped_cons : Agent.reaped (t :: older) = Agent.reaped older := by
  rw [Agent.reaped, flatMap_cons, h.reaped, nil_append]
  rfl

theorem Calm.bornAt_cons (child : Child) : bornAt child (t :: older) = bornAt child older := by
  have hnone : t.bornAt child = none := by
    rw [Turn.bornAt, h.spawned, if_neg not_mem_nil]
  rw [bornAt, findSome?_cons, hnone]
  rfl

theorem Calm.find?_cons : (t :: older).find? Turn.fails = older.find? Turn.fails :=
  find?_cons_of_neg (by simp [h.fails])

theorem Calm.lawful
    (hcfg : t.newConfig ≠ t.config → Agent.spawned older = Agent.reaped older)
    (hk : ∀ child answer, .forceKill child answer ∈ t.effects →
      ∃ d, deadline child older = some d ∧ d ≤ t.now) : Lawful t older where
  alone hs := by simp [h.spawns] at hs
  started hs := by simp [h.spawns] at hs
  configured := hcfg
  limited hs := by simp [h.restarts] at hs
  waited hs := by simp [h.restarts] at hs
  spared := hk

end

end Calm

theorem halted_cons_of_ne {t : Turn} {older : List Turn} (h1 : t.command ≠ .start)
    (h2 : t.command ≠ .stop) : halted (t :: older) = halted older := by
  cases hc : t.command with
  | start => exact absurd hc h1
  | stop => exact absurd hc h2
  | tick | replaceConfig config => simp only [halted, hc]

section Step

variable {a a' : HostAgent} {turns : List Turn} {t : Turn}

theorem Inv.keep (h : Inv a turns) (ht : Calm t)
    (hr : ∀ config, t.command = .replaceConfig config → t.answer.toBool = false)
    (hs : Same a a') (hd : ∀ child, t.deadline child = none) (hstop : t.command = .stop →
      a'.state = .stopped ∨ a'.state = .stopping ∧ a'.stopRequested = true) :
    Inv a' (t :: turns) where
  policy := by rw [hs.config]; exact h.policy
  held := by
    have hheld := h.held
    unfold Held at hheld ⊢
    rw [hs.child, hheld]
    rcases hs.state with he | ⟨h1, h2⟩
    · rw [he]
    · simp [h1, h2]
  live := by rw [ht.spawned_cons, ht.reaped_cons, hs.child]; exact h.live
  born child hc := by
    rw [hs.startedAt, ht.bornAt_cons]
    exact h.born child (hs.child ▸ hc)
  bound := by rw [ht.attempts hr, hs.config]; exact h.bound
  counted hc := by
    rw [ht.attempts hr, hs.restartCount]
    exact h.counted (hs.child ▸ hc)
  waiting hb := by
    have hb' : a.state = .backoff := by
      rcases hs.state with he | ⟨-, h2⟩
      · rw [← he, hb]
      · rw [h2] at hb
        cases hb
    rw [ht.attempts hr, ht.find?_cons, hs.config, hs.restartCount, hs.nextRestartAt hb']
    exact h.waiting hb'
  told hst child hc := by
    have hst' : a.state = .stopping := by
      rcases hs.state with he | ⟨-, h2⟩
      · rw [← he, hst]
      · rw [h2] at hst
        cases hst
    rw [deadline, findSome?_cons, hd child, hs.stopDeadline]
    exact h.told hst' child (hs.child ▸ hc)
  ceased hh := by
    by_cases h1 : t.command = .start
    · simp [Agent.halted, h1] at hh
    by_cases h2 : t.command = .stop
    · exact hstop h2
    rw [halted_cons_of_ne h1 h2] at hh
    rcases h.ceased hh with h3 | ⟨h3, h4⟩
    · rcases hs.state with he | ⟨h5, -⟩
      · exact .inl (he.trans h3)
      · rw [h3] at h5
        cases h5
    · rcases hs.state with he | ⟨h5, -⟩
      · exact .inr ⟨he.trans h3, hs.stopRequested h4⟩
      · rw [h3] at h5
        cases h5

theorem Inv.rest (h : Inv a turns) (ht : Calm t) (hc : a.child = none) (hc' : a'.child = none)
    (hst : a'.state = .stopped) (hpolicy : a'.config.policy.maxRestarts ≤ 100)
    (hbound : attempts (t :: turns) ≤ a'.config.policy.maxRestarts) : Inv a' (t :: turns) where
  policy := hpolicy
  held := by simp [Held, hc', hst]
  live := by rw [ht.spawned_cons, ht.reaped_cons, hc', ← hc]; exact h.live
  born child hc := by simp [hc'] at hc
  bound := hbound
  counted hne := absurd hc' hne
  waiting hb := by simp [hst] at hb
  told hs := by simp [hst] at hs
  ceased _ := .inl hst

theorem Inv.no_child (h : Inv a turns) (hc : a.child = none) : spawned turns = reaped turns := by
  have hlive := h.live
  rwa [hc] at hlive

theorem Inv.tell (h : Inv a turns) {child : Child} (hc : a.child = some child) (ht : Calm t)
    (hcmd : t.command = .tick ∧ a.state ≠ .stopping ∨
      t.command = .stop ∧ a'.stopRequested = true)
    (hcfg : a'.config = a.config) (hc' : a'.child = some child)
    (hcount : a'.restartCount = a.restartCount) (hat : a'.startedAt = a.startedAt)
    (hst : a'.state = .stopping) (hd : t.deadline child = a'.stopDeadline)
    (hsome : a'.stopDeadline ≠ none) : Inv a' (t :: turns) := by
  have hr : ∀ config, t.command = .replaceConfig config → t.answer.toBool = false := by
    intro config he
    rcases hcmd with ⟨h1, -⟩ | ⟨h1, -⟩ <;> rw [h1] at he <;> cases he
  refine ⟨by rw [hcfg]; exact h.policy, by simp [Held, hc', hst], ?_, ?_, ?_, ?_, ?_, ?_, ?_⟩
  · rw [ht.spawned_cons, ht.reaped_cons, hc', ← hc]
    exact h.live
  · intro c he
    rw [hat, ht.bornAt_cons]
    exact h.born c (hc.trans (hc'.symm.trans he))
  · rw [ht.attempts hr, hcfg]
    exact h.bound
  · intro _
    rw [ht.attempts hr, hcount]
    exact h.counted (by simp [hc])
  · intro hb
    simp [hst] at hb
  · intro _ c he
    rw [hc'] at he
    cases he
    obtain ⟨d, hd'⟩ := Option.ne_none_iff_exists'.mp hsome
    rw [deadline, findSome?_cons, hd, hd']
  · intro hh
    rcases hcmd with ⟨h1, h2⟩ | ⟨h1, h2⟩
    · rw [halted_cons_of_ne (by rw [h1]; decide) (by rw [h1]; decide)] at hh
      rcases h.ceased hh with h3 | ⟨h3, -⟩
      · have := h.held.mp (by simp [hc])
        simp [h3] at this
      · exact absurd h3 h2
    · exact .inr ⟨hst, h2⟩

variable {now : Instant} {command : Command} {count : ℕ}

section

variable (h : Inv a turns)
include h

theorem Inv.spawning (hs : Spawning a now command count) :
    a.child = none ∧ count ≤ a.config.policy.maxRestarts ∧
      (command ≠ .start → a.state = .backoff) := by
  have hnone : a.state ≠ .starting → a.state ≠ .ready → a.state ≠ .stopping → a.child = none := by
    intro h1 h2 h3
    by_contra hne
    rcases h.held.mp hne with he | he | he <;> contradiction
  cases hs with
  | start hst =>
    refine ⟨?_, Nat.zero_le _, absurd rfl⟩
    rcases hst with he | he <;> apply hnone <;> rw [he] <;> decide
  | restart hb =>
    refine ⟨?_, (h.waiting hb).2.1, fun _ => hb⟩
    apply hnone <;> rw [hb] <;> decide

theorem Inv.attempts_spawning (hs : Spawning a now t.command count)
    (hsp : t.spawns = true) (hre : t.reaped = []) : attempts (t :: turns) = count := by
  generalize hcmd : t.command = command at hs
  cases hs with
  | start =>
    have hresets : t.resets turns = true := by
      rw [Turn.resets, hcmd]
      exact hsp
    simp [attempts, hresets]
  | restart hb =>
    have hresets : t.resets turns = false := by
      rw [Turn.resets, hcmd]
      simp [hre]
    have hrestarts : t.restarts = true := by
      simp [Turn.restarts, hcmd, hsp]
    simp only [attempts, hresets, hrestarts, Bool.false_eq_true, if_false, if_true]
    exact (h.waiting hb).1.symm

theorem Inv.not_halted (hb : a.state = .backoff) : halted turns = false := by
  by_contra hh
  rw [Bool.not_eq_false] at hh
  rcases h.ceased hh with hs | ⟨hs, -⟩ <;> rw [hb] at hs <;> cases hs

theorem Inv.lawful_spawning (hs : Spawning a t.now t.command count)
    (hcfg : t.config = a.config) (hnew : t.newConfig = a.config) (hsp : t.spawns = true)
    (hre : t.reaped = []) (hk : ∀ child answer, Effect.forceKill child answer ∉ t.effects) :
    Lawful t turns := by
  obtain ⟨hc, hcount, hback⟩ := h.spawning hs
  have hatt := h.attempts_spawning hs hsp hre
  refine ⟨fun _ => h.no_child hc, ?_, ?_, ?_, ?_, fun c e hm => absurd hm (hk c e)⟩
  · intro _ hh
    by_contra hne
    rw [h.not_halted (hback hne)] at hh
    cases hh
  · intro hne
    exact absurd (hnew.trans hcfg.symm) hne
  · intro _
    rw [hatt, hcfg]
    exact hcount
  · intro hr
    rw [hatt, hcfg]
    generalize hcmd : t.command = command at hs
    cases hs with
    | start => simp [Turn.restarts, hcmd] at hr
    | restart hb hnext hle =>
      obtain ⟨-, -, f, hf, hnext'⟩ := h.waiting hb
      rw [hnext] at hnext'
      cases hnext'
      exact ⟨f, hf, hle⟩

theorem Inv.spawn (hs : Spawning a t.now t.command count) {child : Child}
    (hsp : t.spawns = true) (hre : t.reaped = []) (hch : t.spawned = [child])
    (hcfg : a'.config = a.config) (hc' : a'.child = some child) (hst : a'.state = .starting)
    (hat : a'.startedAt = some t.now) (hcount : a'.restartCount = count) : Inv a' (t :: turns) := by
  obtain ⟨hc, hle, hback⟩ := h.spawning hs
  have hatt := h.attempts_spawning hs hsp hre
  refine ⟨by rw [hcfg]; exact h.policy, by simp [Held, hc', hst], ?_, ?_, ?_, ?_, ?_, ?_, ?_⟩
  · rw [spawned, reaped, flatMap_cons, flatMap_cons, hch, hre, hc']
    exact congrArg (child :: ·) (h.no_child hc)
  · intro c he
    rw [hc'] at he
    cases he
    have hborn : t.bornAt child = some t.now := by
      rw [Turn.bornAt, hch, if_pos mem_cons_self]
    rw [hat, bornAt, findSome?_cons, hborn]
  · rw [hatt, hcfg]
    exact hle
  · intro _
    rw [hatt, hcount]
  · intro hb
    simp [hst] at hb
  · intro hb
    simp [hst] at hb
  · intro hh
    by_cases h1 : t.command = .start
    · simp [Agent.halted, h1] at hh
    · have h2 : t.command ≠ .stop := by
        intro he
        rw [he] at hs
        cases hs
      rw [halted_cons_of_ne h1 h2, h.not_halted (hback h1)] at hh
      cases hh

theorem Inv.schedule (hs : Scheduled a.config count t.now a')
    (hlive : spawned (t :: turns) = reaped (t :: turns)) (hf : t.fails = true)
    (hatt : attempts (t :: turns) = count) (hle : count ≤ a.config.policy.maxRestarts)
    (hh : halted (t :: turns) = false) : Inv a' (t :: turns) := by
  have hstate : a'.state = .failed ∨ a'.state = .backoff := hs.state.imp id And.left
  refine ⟨by rw [hs.config]; exact h.policy, ?_, ?_, ?_, ?_, ?_, ?_, ?_, ?_⟩
  · rcases hstate with he | he <;> simp [Held, hs.child, he]
  · rw [hlive, hs.child]
    rfl
  · intro c he
    simp [hs.child] at he
  · rw [hatt, hs.config]
    exact hle
  · intro hne
    exact absurd hs.child hne
  · intro hb
    rcases hs.state with he | ⟨-, hlt, hcount, hnext⟩
    · simp [he] at hb
    · rw [hatt, hcount, hs.config]
      exact ⟨rfl, hlt, t, find?_cons_of_pos hf, hnext⟩
  · intro hb
    rcases hstate with he | he <;> simp [he] at hb
  · intro he
    rw [hh] at he
    cases he

end

end Step

section Step

variable {a a' : HostAgent} {turns : List Turn} {t : Turn}

theorem Inv.reap (h : Inv a turns) {child : Child} (hc : a.child = some child)
    (hcmd : t.command = .tick) (hcfg : t.config = a.config) (hsp : t.spawned = [])
    (hspawns : t.spawns = false) (hre : t.reaped = [child]) (hf : t.fails = true)
    (hout : a'.config = a.config ∧ a'.child = none ∧ a'.state = .stopped ∨
      a.stopRequested = false ∧ Scheduled a.config
        (if a.ranFor t.now a.config.policy.resetAfterMs then 0 else a.restartCount) t.now a') :
    Inv a' (t :: turns) := by
  have hlive : spawned (t :: turns) = reaped (t :: turns) := by
    rw [spawned, reaped, flatMap_cons, flatMap_cons, hsp, hre]
    have hl := h.live
    rw [hc] at hl
    exact hl
  have hresets : t.resets turns = a.ranFor t.now a.config.policy.resetAfterMs := by
    rw [Turn.resets, hcmd, hcfg, HostAgent.ranFor, h.born child hc]
    simp [hre, any_cons, any_nil]
  have hatt : attempts (t :: turns) =
      if a.ranFor t.now a.config.policy.resetAfterMs then 0 else a.restartCount := by
    have hrestarts : t.restarts = false := by
      rw [Turn.restarts, hspawns, Bool.and_false]
    rw [attempts, hresets, hrestarts, h.counted (by simp [hc])]
    simp [Bool.false_eq_true]
  have hle : attempts (t :: turns) ≤ a.config.policy.maxRestarts := by
    rw [hatt, h.counted (by simp [hc])]
    have := h.bound
    split_ifs <;> omega
  rcases hout with ⟨h1, h2, h3⟩ | ⟨hstop, hs⟩
  · refine ⟨by rw [h1]; exact h.policy, by simp [Held, h2, h3], by rw [hlive, h2]; rfl, ?_,
      by rw [h1]; exact hle, absurd h2, ?_, ?_, fun _ => .inl h3⟩
    · intro c he
      simp [h2] at he
    · intro hb
      simp [h3] at hb
    · intro hb
      simp [h3] at hb
  · refine h.schedule hs hlive hf hatt (hatt ▸ hle) ?_
    rw [halted_cons_of_ne (by rw [hcmd]; decide) (by rw [hcmd]; decide)]
    by_contra hh
    rw [Bool.not_eq_false] at hh
    rcases h.ceased hh with he | ⟨-, he⟩
    · have := h.held.mp (by simp [hc])
      simp [he] at this
    · rw [hstop] at he
      cases he

end Step

theorem Inv.step {a a' : HostAgent} {turns : List Turn} {now : Instant} {command : Command}
    {effects : List Effect} {answer : Answer} (h : Inv a turns)
    (hm : Moves a now command (a', effects, answer)) :
    Inv a' (⟨command, now, a.config, a'.config, effects, answer⟩ :: turns) ∧
      Lawful ⟨command, now, a.config, a'.config, effects, answer⟩ turns := by
  cases hm with
  | keeps hs heff hstop hr =>
    have ht : Calm ⟨command, now, a.config, a'.config, effects, answer⟩ ∧
        (∀ child, Turn.deadline child ⟨command, now, a.config, a'.config, effects, answer⟩ = none) ∧
        ∀ child e, Effect.forceKill child e ∉ effects := by
      rcases heff with rfl | ⟨child, seen, rfl, hseen⟩
      · exact ⟨⟨rfl, rfl, rfl, rfl⟩, fun _ => rfl, by simp⟩
      · rcases seen with e | _ | exit
        · exact ⟨⟨rfl, rfl, rfl, rfl⟩, fun _ => rfl, by simp⟩
        · exact ⟨⟨rfl, rfl, rfl, rfl⟩, fun _ => rfl, by simp⟩
        · exact absurd rfl (hseen exit)
    obtain ⟨hcalm, hdl, hkill⟩ := ht
    exact ⟨h.keep hcalm hr hs hdl hstop, hcalm.lawful (absurd hs.config)
      fun child e hmem => absurd hmem (hkill child e)⟩
  | halts hc hcfg hc' hst =>
    have hcalm : Calm ⟨.stop, now, a.config, a'.config, [], answer⟩ := ⟨rfl, rfl, rfl, rfl⟩
    refine ⟨h.rest hcalm hc hc' hst (by rw [hcfg]; exact h.policy) ?_,
      hcalm.lawful (absurd hcfg) (by simp)⟩
    rw [hcalm.attempts nofun, hcfg]
    exact h.bound
  | @replaces config hc hmax =>
    have hcalm : Calm ⟨.replaceConfig config, now, a.config, config, [], .ok []⟩ :=
      ⟨rfl, rfl, rfl, rfl⟩
    exact ⟨h.rest hcalm hc rfl rfl hmax (Nat.zero_le _),
      hcalm.lawful (fun _ => h.no_child hc) (by simp)⟩
  | spawns hs hcfg hc' hst hat hcount =>
    exact ⟨h.spawn hs rfl rfl rfl hcfg hc' hst hat hcount,
      h.lawful_spawning hs rfl hcfg rfl rfl (by simp)⟩
  | fails hs hsch =>
    obtain ⟨hc, hle, hback⟩ := h.spawning hs
    refine ⟨h.schedule hsch (h.no_child hc) rfl (h.attempts_spawning hs rfl rfl) hle ?_,
      h.lawful_spawning hs rfl hsch.config rfl rfl (by simp)⟩
    cases hs with
    | start => rfl
    | restart hb => exact h.not_halted hb
  | @tells _ _ child pre told _ hc hcmd hpre hcfg hc' hcount hat hst hd =>
    have ht : Calm ⟨command, now, a.config, a'.config, pre ++ [.terminate child told], answer⟩ ∧
        Turn.deadline child ⟨command, now, a.config, a'.config, pre ++ [.terminate child told],
          answer⟩ = some (stopDeadline now told) ∧
        ∀ c e, Effect.forceKill c e ∉ pre ++ [.terminate child told] := by
      rcases hpre with rfl | rfl
      · exact ⟨⟨rfl, rfl, rfl, rfl⟩, by simp [Turn.deadline, Effect.deadline], by simp⟩
      · refine ⟨⟨rfl, rfl, rfl, rfl⟩, ?_, by simp⟩
        simp [Turn.deadline, findSome?, Effect.deadline]
    obtain ⟨hcalm, hdl, hkill⟩ := ht
    exact ⟨h.tell hc hcalm hcmd hcfg hc' hcount hat hst (hdl.trans hd.symm) (by simp [hd]),
      hcalm.lawful (absurd hcfg) fun c e hmem => absurd hmem (hkill c e)⟩
  | @kills _ child d killed _ hst hc hd hle hs =>
    have hcalm : Calm ⟨.tick, now, a.config, a'.config,
        [.tryWait child (.ok none), .forceKill child killed], answer⟩ := ⟨rfl, rfl, rfl, rfl⟩
    refine ⟨h.keep hcalm nofun hs (fun _ => rfl) nofun,
      hcalm.lawful (absurd hs.config) ?_⟩
    intro c e hmem
    simp only [mem_cons, reduceCtorEq, Effect.forceKill.injEq, not_mem_nil, or_false,
      false_or] at hmem
    obtain ⟨rfl, -⟩ := hmem
    exact ⟨d, (h.told hst c hc).trans hd, hle⟩
  | @reaps _ child exit _ hc hout =>
    have hcfg : a'.config = a.config := by
      rcases hout with ⟨he, -⟩ | ⟨-, hs⟩
      · exact he
      · exact hs.config
    refine ⟨h.reap hc rfl rfl rfl rfl rfl rfl hout, ?_⟩
    refine ⟨nofun, nofun, absurd hcfg, ?_, ?_, by simp⟩
    · intro hr
      simp [Turn.restarts, Turn.spawns, Effect.isSpawn] at hr
    · intro hr
      simp [Turn.restarts, Turn.spawns, Effect.isSpawn] at hr

/-! ## Every run -/

namespace Supervised

variable {config : HostAgentConfig} {pairingFile : Except AgentError Unit} {a : HostAgent}
  {s : Supervised}

theorem inv_start (h : HostAgent.withFactory config pairingFile = .ok a) : Inv a [] := by
  unfold HostAgent.withFactory at h
  cases hv : config.validate pairingFile with
  | error e =>
    rw [hv] at h
    cases h
  | ok u =>
    rw [hv] at h
    cases h
    refine ⟨HostAgentConfig.maxRestarts_le hv, by simp [Held, HostAgent.idle], rfl, nofun,
      Nat.zero_le _, absurd rfl, nofun, nofun, nofun⟩

theorem inv_of_reach (hnew : HostAgent.withFactory config pairingFile = .ok a)
    (h : (supervising a).Reach s) :
    Inv s.agent s.turns ∧ ∀ newer t older, s.turns = newer ++ t :: older → Lawful t older := by
  refine h.invariant (I := fun s => Inv s.agent s.turns ∧
    ∀ newer t older, s.turns = newer ++ t :: older → Lawful t older) ⟨inv_start hnew, ?_⟩ ?_
  · intro newer t older he
    simp [supervising] at he
  · rintro s ⟨command, now, w⟩ s' ⟨hi, hl⟩ - hstep
    obtain ⟨⟨a', effects, answer⟩, hrun, hm⟩ := run_moves hi.held hi.policy now w command
    simp only [supervising, Supervised.step, hrun, Option.map_some, Option.some.injEq] at hstep
    subst hstep
    obtain ⟨hi', hl'⟩ := hi.step hm
    refine ⟨hi', fun newer t older he => ?_⟩
    cases newer with
    | nil =>
      obtain ⟨rfl, rfl⟩ := he
      exact hl'
    | cons t' newer =>
      simp only [cons_append, cons.injEq] at he
      exact hl newer t older he.2

/-- **Every call of a supervisor is lawful**, whatever the calls, their times and the platform's
answers. -/
theorem every_call_lawful (hnew : HostAgent.withFactory config pairingFile = .ok a)
    (h : (supervising a).Reach s) {newer : List Turn} {t : Turn} {older : List Turn}
    (hs : s.turns = newer ++ t :: older) : Lawful t older :=
  (inv_of_reach hnew h).2 newer t older hs

/-- One restart, half a second after a crash. -/
def oneRestart : HostAgentConfig :=
  { child := ⟨['h'], [], [], none⟩, policy := ⟨1, 500, 30000, 60000⟩, backend := ['f']
    startupGraceMs := 5000, maxChildLifetimeMs := none, frameHeartbeatFile := none
    configRevision := ['r'] }

/-- A platform that hands out the child with the given handle and says that the child ended with the
given code, or runs. -/
def answering (handle : ℕ) (code : Option ℤ) : World :=
  { pairingFile := .ok (), spawn := .ok ⟨handle, none⟩
    tryWait := .ok (code.map fun code => ⟨false, some code, none⟩), terminate := .ok ()
    forceKill := .ok (), heartbeat := ⟨none, .starting, 0⟩ }

theorem every_call_lawful_restart : ∃ s, (supervising (.idle oneRestart)).Reach s ∧
    ∃ newer t older, s.turns = newer ++ t :: older ∧ t.restarts = true ∧ Lawful t older := by
  have hnew : HostAgent.withFactory oneRestart (.ok ()) = .ok (.idle oneRestart) := rfl
  obtain ⟨s, h, hs⟩ := (supervising (.idle oneRestart)).exists_reachVia (fun _ _ => True)
    [⟨.start, 0, answering 0 none⟩, ⟨.tick, fromMillis 100, answering 1 (some 1)⟩,
      ⟨.tick, fromMillis 600, answering 1 none⟩, ⟨.stop, fromMillis 700, answering 2 none⟩,
      ⟨.tick, fromMillis 2700, answering 2 none⟩]
    (fun s => s.turns.any Turn.restarts = true) (by decide +kernel)
  obtain ⟨t, hmem, ht⟩ := any_eq_true.mp hs
  obtain ⟨newer, older, hsplit⟩ := append_of_mem hmem
  exact ⟨s, h, newer, t, older, hsplit, ht, every_call_lawful hnew h hsplit⟩

end Supervised

end OpenStream.Agent
