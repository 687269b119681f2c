import OpenStream.Lib.Binary64
import OpenStream.Lib.Runs
import OpenStream.Lowlat.Conn

/-!
# What a punch can come to

An attempt beside what is known of it from outside: every datagram it emitted, the addresses its
caller offered, and those whose requests authenticated.

* **`punches`**
-/

namespace OpenStream.Lowlat

open Bytes Stun Conn Runs

/-! ## Attempts -/

/-- A datagram that was emitted, and when. -/
structure Emission (F : Type) where
  now : F
  egress : Egress

/-- An attempt, and what is known of it from outside. -/
structure Attempt (F : Type) where
  conn : Conn F
  /-- Newest first. -/
  log : List (Emission F)
  /-- Added by the caller. -/
  offered : List SocketAddr
  /-- Added by a request that authenticated. -/
  verified : List SocketAddr

inductive Attempt.Action (F : Type)
  | addCandidate (addr : SocketAddr)
  | addServer (addr : SocketAddr)
  | processInput (datagram : Str) (source : SocketAddr)
  | poll (now : F)
  | getOutput (now : F) (outLen : ℕ)

def authenticRequest (hashes : Hashes) (password datagram : Str) : Bool :=
  match Stun.Message.parse datagram with
  | .ok message => message.method = .bindingRequest && message.verify hashes password
  | .error _ => false

def isCheck (bytes : Str) : Bool := bytes.take 2 = be 2 TYPE_BINDING_REQUEST && 20 < bytes.length

/-- The identifier of the last check to an address. -/
def latestCheck {F : Type} (log : List (Emission F)) (addr : SocketAddr) : Option Str :=
  (log.find? fun e => e.egress.dest = addr && isCheck e.egress.bytes).map fun e =>
    (e.egress.bytes.drop 8).take 12

namespace Attempt

section Machine

variable {F : Type} [F64 F] (hashes : Hashes)

/-- What a call does. -/
def step (s : Attempt F) : Action F → Option (Attempt F)
  | .addCandidate addr =>
    match s.conn.addCandidate addr with
    | (conn, .ok ()) => some { s with conn := conn, offered := canonical addr :: s.offered }
    | (conn, .error _) => some { s with conn := conn }
  | .addServer addr => some { s with conn := (s.conn.addServer addr).1 }
  | .processInput datagram source =>
    let verified :=
      if authenticRequest hashes s.conn.credentials.localPwd datagram &&
          ((s.conn.addCandidate (canonical source)).2 matches .ok ()) then
        canonical source :: s.verified
      else s.verified
    some { s with conn := (s.conn.processInput hashes datagram source).1, verified := verified }
  | .poll now => some { s with conn := s.conn.poll now }
  | .getOutput now outLen =>
    match s.conn.getOutput hashes now outLen with
    | (conn, some (.ok egress)) => some { s with conn := conn, log := ⟨now, egress⟩ :: s.log }
    | (conn, _) => some { s with conn := conn }

def machine (credentials : Credentials) (seed : Vector UInt8 16) (start : F) :
    Machine (Attempt F) (Action F) where
  start := ⟨Conn.new credentials seed start, [], [], []⟩
  step := step hashes

end Machine

end Attempt

/-! ## The latest check -/

section Log

variable {F : Type} {now : F} {dest addr : SocketAddr} {ttl : Ttl} {bytes : Str}
  {log : List (Emission F)}

theorem isCheck_of_headed {tid : TransactionId} (h : Headed TYPE_BINDING_REQUEST tid bytes)
    (hlen : 20 < bytes.length) : isCheck bytes = true := by
  rw [isCheck, h.type]
  simpa using hlen

theorem not_isCheck_response {tid : TransactionId} (h : Headed TYPE_BINDING_SUCCESS tid bytes) :
    isCheck bytes = false := by
  rw [isCheck, h.type]
  rfl

theorem latestCheck_cons_other (h : isCheck bytes = false) :
    latestCheck (⟨now, ⟨dest, ttl, bytes⟩⟩ :: log) addr = latestCheck log addr := by
  rw [latestCheck, List.find?_cons_of_neg (by simp [h])]
  rfl

theorem latestCheck_cons_ne (h : dest ≠ addr) :
    latestCheck (⟨now, ⟨dest, ttl, bytes⟩⟩ :: log) addr = latestCheck log addr := by
  rw [latestCheck, List.find?_cons_of_neg (by simp [h])]
  rfl

theorem latestCheck_cons_self {tid : TransactionId} (h : Headed TYPE_BINDING_REQUEST tid bytes)
    (hlen : 20 < bytes.length) :
    latestCheck (⟨now, ⟨dest, ttl, bytes⟩⟩ :: log) dest = some tid.toList := by
  rw [latestCheck, List.find?_cons_of_pos (by simp [isCheck_of_headed h hlen]), Option.map_some,
    h.identifier]

end Log

/-! ## What every run keeps -/

def probes {F : Type} (log : List (Emission F)) : ℕ :=
  log.countP fun e => e.egress.ttl = .probe

/-- What the attempt holds of its past. -/
structure Tracked {F : Type} (credentials : Credentials) (s : Attempt F) : Prop where
  credentials : s.conn.credentials = credentials
  distinct : ((checks s.conn.candidates).map Prod.fst).Nodup
  known : ∀ addr ∈ (checks s.conn.candidates).map Prod.fst, addr ∈ s.offered ∨ addr ∈ s.verified
  latest : ∀ addr tid, (addr, some tid) ∈ checks s.conn.candidates →
    latestCheck s.log addr = some tid.toList
  probes : probes s.log ≤ if s.conn.probeSent then 1 else 0
  last : s.conn.lastSentMs = s.log.head?.map Emission.now

namespace Tracked

variable {F : Type} {credentials : Credentials} {s s' : Attempt F}

theorem silent (h : Tracked credentials s) (hcred : s'.conn.credentials = s.conn.credentials)
    (hchecks : checks s'.conn.candidates = checks s.conn.candidates) (hlog : s'.log = s.log)
    (hoffered : s.offered ⊆ s'.offered) (hverified : s.verified ⊆ s'.verified)
    (hprobe : s.conn.probeSent = true → s'.conn.probeSent = true)
    (hlast : s'.conn.lastSentMs = s.conn.lastSentMs) : Tracked credentials s' where
  credentials := hcred.trans h.credentials
  distinct := hchecks ▸ h.distinct
  known addr haddr := (h.known addr (hchecks ▸ haddr)).imp (@hoffered addr) (@hverified addr)
  latest addr tid hmem := hlog ▸ h.latest addr tid (hchecks ▸ hmem)
  probes := by
    have hle := h.probes
    rw [hlog]
    split_ifs at hle with hsent
    · rwa [if_pos (hprobe hsent)]
    · omega
  last := by rw [hlast, hlog, h.last]

theorem admitted (h : Tracked credentials s) {addr : SocketAddr} {candidates : Slots (Candidate F)}
    (hnew : addr ∉ (checks s.conn.candidates).map Prod.fst)
    (hperm : (checks candidates).Perm ((addr, none) :: checks s.conn.candidates))
    (hcred : s'.conn.credentials = s.conn.credentials) (hcand : s'.conn.candidates = candidates)
    (hlog : s'.log = s.log) (hoffered : s.offered ⊆ s'.offered)
    (hverified : s.verified ⊆ s'.verified) (haddr : addr ∈ s'.offered ∨ addr ∈ s'.verified)
    (hprobe : s'.conn.probeSent = s.conn.probeSent)
    (hlast : s'.conn.lastSentMs = s.conn.lastSentMs) : Tracked credentials s' where
  credentials := hcred.trans h.credentials
  distinct := by
    rw [hcand, (hperm.map Prod.fst).nodup_iff, List.map_cons, List.nodup_cons]
    exact ⟨hnew, h.distinct⟩
  known other hother := by
    rw [hcand, (hperm.map Prod.fst).mem_iff, List.map_cons, List.mem_cons] at hother
    rcases hother with rfl | hother
    · exact haddr
    · exact (h.known other hother).imp (@hoffered other) (@hverified other)
  latest other tid hmem := by
    rw [hcand, hperm.mem_iff, List.mem_cons] at hmem
    rcases hmem with hmem | hmem
    · cases congrArg Prod.snd hmem
    · rw [hlog]
      exact h.latest other tid hmem
  probes := by
    rw [hlog, hprobe]
    exact h.probes
  last := by rw [hlast, hlog, h.last]

theorem addCandidate (h : Tracked credentials s) (addr : SocketAddr)
    {pending : Slots (SocketAddr × TransactionId)} {offered verified : List SocketAddr}
    (hoffered : s.offered ⊆ offered) (hverified : s.verified ⊆ verified)
    (haddr : (s.conn.addCandidate addr).2 = .ok () →
      canonical addr ∈ offered ∨ canonical addr ∈ verified) :
    Tracked credentials
      ⟨{ (s.conn.addCandidate addr).1 with pending := pending }, s.log, offered, verified⟩ := by
  rcases s.conn.addCandidate_cases addr with ⟨result, heq⟩ | ⟨candidates, heq, hnew, hperm⟩
  · rw [heq]
    exact h.silent rfl rfl rfl hoffered hverified id rfl
  · rw [heq] at haddr ⊢
    exact h.admitted hnew hperm rfl rfl rfl hoffered hverified (haddr rfl) rfl rfl

theorem probes_cons {e : Emission F} {log : List (Emission F)} :
    Lowlat.probes (e :: log) = Lowlat.probes log + if e.egress.ttl = .probe then 1 else 0 := by
  rw [Lowlat.probes, List.countP_cons]
  simp [Lowlat.probes]

variable [F64 F]

theorem emits (h : Tracked credentials s) {now : F} {conn : Conn F} {egress : Egress}
    {outLen : ℕ}
    (hemits : Emits now outLen s.conn conn (some (.ok egress))) :
    Tracked credentials { s with conn := conn, log := ⟨now, egress⟩ :: s.log } := by
  cases hemits with
  | response dest tid bytes pending hpace hhead =>
    refine ⟨h.credentials, h.distinct, h.known, ?_, ?_, rfl⟩
    · intro addr tid' hmem
      rw [latestCheck_cons_other (not_isCheck_response hhead)]
      exact h.latest addr tid' hmem
    · rw [probes_cons]
      exact h.probes
  | reflexive dest bytes servers counter hpace hstate hlen =>
    refine ⟨h.credentials, h.distinct, h.known, ?_, ?_, rfl⟩
    · intro addr tid' hmem
      rw [latestCheck_cons_other (by simp [isCheck, hlen])]
      exact h.latest addr tid' hmem
    · rw [probes_cons]
      exact h.probes
  | check dest ttl tid bytes candidates probeSent counter hpace hstate hhead hlen hchecks hprobe =>
    have haddrs : (checks candidates).map Prod.fst = (checks s.conn.candidates).map Prod.fst := by
      rw [hchecks, addrs_checks, addrs_checks]
      exact Slots.map_modifyFirst (by intro x; rfl) _
    refine ⟨h.credentials, haddrs ▸ h.distinct, fun addr ha => h.known addr (haddrs ▸ ha), ?_, ?_,
      rfl⟩
    · -- the check just sent is the latest to its candidate, and no other candidate changed
      intro addr tid' hmem
      rw [show checks _ = _ from hchecks] at hmem
      obtain ⟨x, hx, hxeq⟩ := List.mem_map.mp hmem
      have hdistinct := h.distinct
      rw [addrs_checks] at hdistinct
      rcases Slots.mem_modifyFirst_key hdistinct (Slots.mem_taken.mp hx) with
        ⟨hold, hne⟩ | ⟨y, hy, rfl, rfl⟩
      · rw [latestCheck_cons_ne (Ne.symm ((Prod.mk.inj hxeq).1 ▸ hne))]
        exact h.latest _ tid' (List.mem_map.mpr ⟨x, Slots.mem_taken.mpr hold, hxeq⟩)
      · cases hxeq
        exact latestCheck_cons_self hhead hlen
    · have hle := h.probes
      rw [probes_cons]
      rcases hprobe with ⟨rfl, hsent, rfl⟩ | ⟨rfl, rfl⟩
      · rw [hsent] at hle
        simpa using hle
      · simpa using hle

end Tracked

/-! ## One step -/

namespace Attempt

variable {F : Type} [F64 F] {hashes : Hashes} {s s' : Attempt F} {a : Action F}

def AnsweredBy (hashes : Hashes) (credentials : Credentials) (s : Attempt F) (a : Action F)
    (addr : SocketAddr) : Prop :=
  ∃ datagram source message, a = .processInput datagram source ∧
    Stun.Message.parse datagram = .ok message ∧ message.method = .bindingSuccess ∧
    message.verify hashes credentials.remotePwd = true ∧
    latestCheck s.log addr = some message.tid.toList ∧
    (addr ∈ s.offered ∨ addr ∈ s.verified)

/-- Everything a step can do, given what was tracked before it. -/
inductive Moves (hashes : Hashes) (credentials : Credentials) (s : Attempt F) (a : Action F) :
    Attempt F → Prop
  | stays {s' : Attempt F} (hstate : s'.conn.state = s.conn.state) (hlog : s'.log = s.log) :
      Moves hashes credentials s a s'
  | expires {s' : Attempt F} {failure : Failure} (hfrom : s.conn.state = .checking)
      (hstate : s'.conn.state = .failed failure) (hlog : s'.log = s.log) :
      Moves hashes credentials s a s'
  | establishes {s' : Attempt F} {addr : SocketAddr} (hfrom : s.conn.state = .checking)
      (hstate : s'.conn.state = .established addr) (hlog : s'.log = s.log)
      (hanswer : AnsweredBy hashes credentials s a addr) : Moves hashes credentials s a s'
  | emits {s' : Attempt F} {now : F} {egress : Egress} (hstate : s'.conn.state = s.conn.state)
      (hlog : s'.log = ⟨now, egress⟩ :: s.log)
      (hpace : F64.lt 0.0 (s.conn.paceWait now) = false)
      (hresponse : s.conn.state ≠ .checking → egress.bytes.take 2 = be 2 TYPE_BINDING_SUCCESS) :
      Moves hashes credentials s a s'

variable {credentials : Credentials}

theorem step_processInput (h : Tracked credentials s) (datagram : Str) (source : SocketAddr)
    (hstep : step hashes s (.processInput datagram source) = some s') :
    Tracked credentials s' ∧ Moves hashes credentials s (.processInput datagram source) s' := by
  cases hstep
  have hverified : s.verified ⊆
      if authenticRequest hashes s.conn.credentials.localPwd datagram &&
        ((s.conn.addCandidate (canonical source)).2 matches .ok ()) then
      canonical source :: s.verified else s.verified := by
    split_ifs
    · exact List.subset_cons_self _ _
    · exact List.Subset.refl _
  have hhears := s.conn.hears_processInput hashes datagram source
  generalize (s.conn.processInput hashes datagram source).1 = conn at hhears ⊢
  cases hhears with
  | dropped => exact ⟨h.silent rfl rfl rfl (List.Subset.refl _) hverified id rfl, .stays rfl rfl⟩
  | server servers =>
    exact ⟨h.silent rfl rfl rfl (List.Subset.refl _) hverified id rfl, .stays rfl rfl⟩
  | request hparse hmethod hverify pending =>
    refine ⟨h.addCandidate (canonical source) (List.Subset.refl _) hverified fun hok => .inr ?_,
      .stays (state_addCandidate _ _) rfl⟩
    have hauthentic : authenticRequest hashes s.conn.credentials.localPwd datagram = true := by
      simp [authenticRequest, hparse, hmethod, hverify]
    rw [hauthentic, hok, canonical_canonical]
    exact List.mem_cons_self
  | @answer message candidate hparse hmethod hverify hfind candidates haddrs hchecks state hstate =>
    refine ⟨⟨h.credentials, haddrs ▸ h.distinct, ?_, ?_, h.probes, h.last⟩, ?_⟩
    · intro addr haddr
      exact (h.known addr (haddrs ▸ haddr)).imp id (@hverified addr)
    · intro addr tid hmem
      exact h.latest addr tid (hchecks addr tid hmem)
    · rcases hstate with ⟨hfrom, rfl⟩ | ⟨hfrom, rfl⟩
      · refine .establishes hfrom rfl rfl
          ⟨datagram, source, message, rfl, hparse, hmethod, ?_, ?_, ?_⟩
        · rw [← h.credentials]
          exact hverify
        · exact h.latest _ _ hfind
        · exact h.known _ (List.mem_map_of_mem hfind)
      · exact .stays rfl rfl

theorem step_getOutput (h : Tracked credentials s) (now : F) (outLen : ℕ)
    (hstep : step hashes s (.getOutput now outLen) = some s') :
    Tracked credentials s' ∧ Moves hashes credentials s (.getOutput now outLen) s' := by
  have hemits := s.conn.emits_getOutput hashes now outLen
  simp only [step] at hstep
  generalize s.conn.getOutput hashes now outLen = result at hemits hstep
  obtain ⟨conn, output⟩ := result
  rcases output with _ | ⟨e | egress⟩
  · cases hstep
    cases hemits
    exact ⟨h, .stays rfl rfl⟩
  · cases hstep
    cases hemits with
    | failed e pending probeSent counter hprobe =>
      exact ⟨h.silent rfl rfl rfl (List.Subset.refl _) (List.Subset.refl _) hprobe rfl,
        .stays rfl rfl⟩
  · cases hstep
    refine ⟨h.emits hemits, ?_⟩
    cases hemits with
    | response dest tid bytes pending hpace hhead => exact .emits rfl rfl hpace fun _ => hhead.type
    | reflexive dest bytes servers counter hpace hstate hlen
    | check dest ttl tid bytes candidates probeSent counter hpace hstate =>
      exact .emits rfl rfl hpace (absurd hstate)

theorem step_moves (h : Tracked credentials s) (hstep : step hashes s a = some s') :
    Tracked credentials s' ∧ Moves hashes credentials s a s' := by
  cases a with
  | addCandidate addr =>
    have hoffered : s.offered ⊆ canonical addr :: s.offered := List.subset_cons_self _ _
    rcases s.conn.addCandidate_cases addr with ⟨result, heq⟩ | ⟨candidates, heq, hnew, hperm⟩
    · cases result <;> simp only [step, heq, Option.some.injEq] at hstep <;> subst hstep
      · exact ⟨h, .stays rfl rfl⟩
      · exact ⟨h.silent rfl rfl rfl hoffered (List.Subset.refl _) id rfl, .stays rfl rfl⟩
    · simp only [step, heq, Option.some.injEq] at hstep
      subst hstep
      exact ⟨h.admitted hnew hperm rfl rfl rfl hoffered (List.Subset.refl _)
        (.inl List.mem_cons_self) rfl rfl, .stays rfl rfl⟩
  | addServer addr =>
    cases hstep
    obtain ⟨servers, hservers⟩ : ∃ servers,
        (s.conn.addServer addr).1 = { s.conn with servers := servers } := by
      simp only [addServer]
      split_ifs
      · exact ⟨_, rfl⟩
      · split <;> exact ⟨_, rfl⟩
    rw [hservers]
    exact ⟨h.silent rfl rfl rfl (List.Subset.refl _) (List.Subset.refl _) id rfl, .stays rfl rfl⟩
  | processInput datagram source => exact step_processInput h datagram source hstep
  | poll now =>
    cases hstep
    rcases s.conn.poll_cases now with heq | ⟨failure, hstate, heq⟩
    · rw [heq]
      exact ⟨h, .stays rfl rfl⟩
    · rw [heq]
      exact ⟨h.silent rfl rfl rfl (List.Subset.refl _) (List.Subset.refl _) id rfl,
        .expires hstate rfl rfl⟩
  | getOutput now outLen => exact step_getOutput h now outLen hstep

theorem tracked_start (seed : Vector UInt8 16) (start : F) :
    Tracked credentials (machine hashes credentials seed start).start where
  credentials := rfl
  distinct := List.nodup_nil
  known _ h := by cases h
  latest _ _ h := by cases h
  probes := le_rfl
  last := rfl

end Attempt

/-! ## Pacing -/

open Binary64

def Paced (log : List (Emission Float)) : Prop :=
  (∀ e ∈ log, e.now.isFinite = true) →
    log.Pairwise fun later earlier => earlier.now + PACING_MS ≤ later.now

theorem val_pacing : val PACING_MS = 10 := by
  rw [val, show un PACING_MS = .finite .positive (5 * 2 ^ 50) (-49) (by decide) from rfl]
  norm_num [value, signed]

theorem Paced.cons {c : Conn Float} {log : List (Emission Float)} (h : Paced log) {now : Float}
    {egress : Egress} (hlast : c.lastSentMs = log.head?.map Emission.now)
    (hpace : F64.lt 0.0 (c.paceWait now) = false) : Paced (⟨now, egress⟩ :: log) := by
  intro hfin
  obtain ⟨hnow, hfin⟩ := List.forall_mem_cons.mp hfin
  have hpairs := h hfin
  refine List.pairwise_cons.mpr ⟨?_, hpairs⟩
  cases log with
  | nil => exact nofun
  | cons last log =>
    have hlastfin := hfin last List.mem_cons_self
    have hround := isRound_add hlastfin (y := PACING_MS) rfl
    have hgap : last.now + PACING_MS ≤ now := by
      refine le_of_no_wait hround.ne_notANumber hnow ?_
      rw [paceWait, hlast] at hpace
      exact of_decide_eq_false hpace
    have hgrows : last.now ≤ last.now + PACING_MS := by
      refine Binary64.le_add (Binary64.ne_notANumber hlastfin) rfl ?_
      rw [val_pacing]
      norm_num
    intro e he
    rcases List.mem_cons.mp he with rfl | he
    · exact hgap
    · have hearlier := List.rel_of_pairwise_cons hpairs he
      exact Binary64.le_trans (Binary64.le_trans hearlier hgrows) hgap

/-! ## Every run -/

variable {hashes : Hashes} {credentials : Credentials} {seed : Vector UInt8 16} {start : Float}

theorem Attempt.reach_tracked {s : Attempt Float}
    (h : (Attempt.machine hashes credentials seed start).Reach s) :
    Tracked credentials s ∧ Paced s.log := by
  refine Machine.ReachVia.invariant (I := fun s => Tracked credentials s ∧ Paced s.log)
    ⟨Attempt.tracked_start seed start, fun _ => .nil⟩ ?_ h
  intro s a s' hs _ hstep
  obtain ⟨htracked, hpaced⟩ := hs
  obtain ⟨htracked', hmoves⟩ := Attempt.step_moves htracked hstep
  refine ⟨htracked', ?_⟩
  cases hmoves with
  | stays _ hlog | expires _ _ hlog | establishes _ _ hlog _ => exact hlog ▸ hpaced
  | emits _ hlog hpace _ => exact hlog ▸ hpaced.cons htracked.last hpace

/-- **The punch.** Its state changes once, by an authenticated answer to the latest check; one probe
at most is emitted; and where all times are finite, emissions are apart by the interval. -/
theorem punches {s : Attempt Float} (h : (Attempt.machine hashes credentials seed start).Reach s) :
    (∀ a s', Attempt.step hashes s a = some s' → s.conn.state ≠ .checking →
      s'.conn.state = s.conn.state) ∧
    (∀ a s' addr, Attempt.step hashes s a = some s' → s.conn.state = .checking →
      s'.conn.state = .established addr → Attempt.AnsweredBy hashes credentials s a addr) ∧
    (∀ a s' e, Attempt.step hashes s a = some s' → s.conn.state ≠ .checking →
      s'.log = e :: s.log → e.egress.bytes.take 2 = be 2 TYPE_BINDING_SUCCESS) ∧
    (s.log.countP fun e => e.egress.ttl = .probe) ≤ 1 ∧
    ((∀ e ∈ s.log, e.now.isFinite = true) →
      s.log.Pairwise fun later earlier => earlier.now + PACING_MS ≤ later.now) := by
  obtain ⟨htracked, hpaced⟩ := Attempt.reach_tracked h
  have hgrown : ∀ (e : Emission Float) (log : List (Emission Float)), log ≠ e :: log :=
    fun e log heq => by simpa using congrArg List.length heq
  refine ⟨?_, ?_, ?_, ?_, hpaced⟩
  · intro a s' hstep hne
    cases (Attempt.step_moves htracked hstep).2 with
    | stays hstate _ | emits hstate _ _ _ => exact hstate
    | expires hfrom _ _ | establishes hfrom _ _ _ => exact absurd hfrom hne
  · intro a s' addr hstep hfrom hto
    cases (Attempt.step_moves htracked hstep).2 with
    | stays hstate _ | emits hstate _ _ _ =>
      rw [hstate, hfrom] at hto
      cases hto
    | expires _ hstate _ =>
      rw [hstate] at hto
      cases hto
    | establishes _ hstate _ hanswer =>
      rw [hstate] at hto
      cases hto
      exact hanswer
  · intro a s' e hstep hne hlog
    cases (Attempt.step_moves htracked hstep).2 with
    | stays _ hsame | expires _ _ hsame | establishes _ _ hsame _ =>
      exact absurd (hsame.symm.trans hlog) (hgrown e s.log)
    | emits _ hnew _ hresponse =>
      rw [hnew] at hlog
      cases hlog
      exact hresponse hne
  · have hle := htracked.probes
    rw [probes] at hle
    split_ifs at hle <;> omega

/-! ## Two peers, evaluated -/

/-- Digests that are not secret, to evaluate with: identifiers follow the counter. -/
def plainHashes : Hashes where
  sha1 bytes := Vector.replicate 20 (bytes.getLastD 0)
  hmacSha1 key _ := Vector.replicate 20 (key.getLastD 0)

def plainCredentials : Credentials := ⟨[0x61], [0x62], [0x63], [0x64]⟩

def neighbour (host : UInt8) : SocketAddr := .v4 #v[10, 0, 0, host] 9000

def plainAttempt : Machine (Attempt Float) (Attempt.Action Float) :=
  Attempt.machine plainHashes plainCredentials (Vector.replicate 16 0) 0.0

/-- A peer's answer to the check with the given identifier. -/
def answerTo (counter : UInt8) : Str :=
  ((encodeBindingResponse plainHashes 256 (Vector.replicate 12 counter) (neighbour 1)
    plainCredentials.remotePwd).toOption).getD []

/-- A peer's own check. -/
def askedBy : Str :=
  ((encodeBindingRequest plainHashes 256 (Vector.replicate 12 7)
    plainCredentials.remoteUfrag plainCredentials.localUfrag (List.replicate 8 0)
    plainCredentials.localPwd).toOption).getD []

/-- **A path is established and the peer answered afterwards**, at least the interval after the
probe. -/
theorem punches_answered :
    ∃ s, plainAttempt.Reach s ∧ s.conn.state = .established (neighbour 1) ∧ s.log.length = 2 ∧
      s.log.Pairwise fun later earlier => earlier.now + PACING_MS ≤ later.now := by
  obtain ⟨s, hs, hstate, hlen, hfin⟩ := Machine.exists_reachVia (M := plainAttempt)
    (fun _ _ => True)
    [.addCandidate (neighbour 1), .getOutput 0.5 256,
      .processInput (answerTo 0) (neighbour 1), .processInput askedBy (neighbour 2), .poll 1.0,
      .getOutput 20.0 256]
    (fun s => s.conn.state = .established (neighbour 1) ∧ s.log.length = 2 ∧
      ∀ e ∈ s.log, e.now.isFinite = true) (by decide +kernel)
  exact ⟨s, hs, hstate, hlen, (punches hs).2.2.2.2 hfin⟩

/-- **Datagrams closer than the interval**: past a time that is not a number, and where the sum of a
tenth and ten is rounded down. -/
theorem paced_too_close :
    (∃ s, plainAttempt.Reach s ∧
      s.log.map (fun e => (e.now.isFinite, val e.now)) = [(true, 5), (false, 0), (true, 0)]) ∧
    (∃ s, plainAttempt.Reach s ∧
      s.log.map (fun e => (e.now.isFinite, val e.now)) =
        [(true, 5685794529555251 / 2 ^ 49), (true, 3602879701896397 / 2 ^ 55)]) ∧
    (5685794529555251 / 2 ^ 49 - 3602879701896397 / 2 ^ 55 : ℚ) < 10 := by
  refine ⟨?_, ?_, by norm_num⟩
  · exact Machine.exists_reachVia (M := plainAttempt) (fun _ _ => True)
      [.addCandidate (neighbour 1), .addCandidate (neighbour 2), .getOutput 0.0 256,
        .getOutput (0.0 / 0.0) 256, .getOutput 5.0 256] _ (by decide +kernel)
  · exact Machine.exists_reachVia (M := plainAttempt) (fun _ _ => True)
      [.addCandidate (neighbour 1), .getOutput 0.1 256, .getOutput 10.1 256] _
      (by decide +kernel)

end OpenStream.Lowlat
