import OpenStream.HostBroker.Ceilings

/-!
# Connections that share the leases

Any number of connections come, make requests and go, and time passes.

* `SessionLeases.Takes`, `SessionLeases.acquire_cases`: all that `acquire` can do.
* **`Broker.leases_exclusive`**: an approval is granted exactly if no other live connection holds it;
  who is granted it holds it, until dropped or until it expires, and a drop frees it.
* **`Broker.refusal_leaves_no_trace`**: exactly when a refused open changes nothing for anybody.
  **`Broker.refused_open_keeps_lease`**: one that keeps others out.
-/

namespace OpenStream.HostBroker

open HostIpc Bytes Runs List Function

/-- A connection gives up what it holds; the entries stay. -/
def SessionLeases.release (l : SessionLeases) (connection : ℕ) : SessionLeases :=
  ⟨l.entries.map fun lease =>
    if lease.holder = some connection then { lease with holder := none } else lease⟩

/-- The live connections of a broker, and the leases that they share. -/
structure Broker where
  now : ℕ
  leases : SessionLeases
  sessions : ℕ → Option BrokerSession

namespace Broker

inductive Act
  | connect (id : ℕ) (ceiling : Capabilities) (authority : GrantAuthority)
  /-- A request, with what the token source and the frame source have for it. -/
  | request (id : ℕ) (r : ServiceRequest) (nextId : ℕ) (opened : Except CaptureFailure OpenedCapture)
  | drop (id : ℕ)
  | wait (ms : ℕ)

variable (hmac : Str → Str → Str)

/-- What a request of a connection leaves. -/
def handle (b : Broker) (s : BrokerSession) (r : ServiceRequest) (nextId : ℕ)
    (opened : Except CaptureFailure OpenedCapture) : Outcome :=
  s.handleRequest hmac ⟨b.now, nextId, b.leases, opened⟩ r

def act (b : Broker) : Act → Broker × List BrokerEvent
  | .connect id ceiling authority =>
    (if (b.sessions id).isSome then b else { b with
      sessions := Function.update b.sessions id (some (.withParts ceiling authority id)) }, [])
  | .request id r nextId opened =>
    match b.sessions id with
    | none => (b, [])
    | some s =>
      let o := b.handle hmac s r nextId opened
      ({ b with leases := o.leases, sessions := Function.update b.sessions id (some o.session) },
        o.events)
  | .drop id => ({ b with leases := b.leases.release id,
                          sessions := Function.update b.sessions id none }, [])
  | .wait ms => ({ b with now := b.now + ms }, [])

def broker : Machine Broker Act := ⟨⟨0, ⟨[]⟩, fun _ => none⟩, fun b a => some (b.act hmac a).1⟩

/-- What a run of actions is answered. -/
def answers (b : Broker) : List Act → List (List BrokerEvent)
  | [] => []
  | a :: acts => (b.act hmac a).2 :: answers (b.act hmac a).1 acts

/-- Approvals that verify are those issued: a nonce stands for one session and one expiry. -/
def Genuine (issued : ℕ → Option (Str × ℕ)) (b : Broker) : Act → Prop
  | .request id (.openCapture _ approval _ _) _ _ => ∀ s ∈ b.sessions id,
      ∀ g ∈ (SessionGrant.decodeAndVerify hmac approval s.authority.key b.now
        s.authority.deviceId).toOption, issued g.nonce = some (g.sessionId, g.expiresAtMs)
  | _ => True

instance (issued : ℕ → Option (Str × ℕ)) (b : Broker) (a : Act) :
    Decidable (Genuine hmac issued b a) := by
  unfold Genuine
  split <;> infer_instance

end Broker

/-! ## Leases -/

namespace SessionLeases

variable {l : SessionLeases} {nonce expiresAtMs now connection : ℕ} {sessionId : Str}

/-- The entries that have not expired. -/
abbrev kept (l : SessionLeases) (now : ℕ) : List Lease := l.entries.filter (now ≤ ·.expiresAtMs)

/-- The first of some entries with a nonce. -/
abbrev entryOf (entries : List Lease) (nonce : ℕ) : Option Lease := entries.find? (·.nonce = nonce)

/-- **What `acquire` can leave when it succeeds**, `kept` being the entries that have not expired. -/
inductive Takes (kept : List Lease) (nonce : ℕ) (sessionId : Str) (expiresAtMs connection : ℕ) :
    List Lease → Prop
  | again {x : Lease} (hx : entryOf kept nonce = some x) (hs : x.sessionId = sessionId)
      (hc : x.holder = some connection) : Takes kept nonce sessionId expiresAtMs connection kept
  | free {x : Lease} {before after : List Lease} (hx : entryOf kept nonce = some x)
      (hkept : kept = before ++ x :: after) (hbefore : ∀ y ∈ before, y.nonce ≠ nonce)
      (hs : x.sessionId = sessionId) (hc : x.holder = none) :
      Takes kept nonce sessionId expiresAtMs connection
        (before ++ { x with holder := some connection } :: after)
  | added (hnone : entryOf kept nonce = none) :
      Takes kept nonce sessionId expiresAtMs connection
        (kept ++ [⟨nonce, sessionId, expiresAtMs, some connection⟩])

/-- **What `acquire` does.** -/
theorem acquire_cases {l' : SessionLeases} {outcome : LeaseOutcome}
    (h : l.acquire nonce sessionId expiresAtMs now connection = (l', outcome)) :
    (∃ x, entryOf (l.kept now) nonce = some x ∧ l' = ⟨l.kept now⟩ ∧
      (x.sessionId ≠ sessionId ∧ outcome = .sessionMismatch ∨
        (∃ c, x.holder = some c ∧ c ≠ connection) ∧ outcome = .heldElsewhere)) ∨
    Takes (l.kept now) nonce sessionId expiresAtMs connection l'.entries ∧
      (outcome = .granted ∨ outcome = .reattached) := by
  simp only [acquire] at h
  split at h
  · next x hx =>
    have hnonce : x.nonce = nonce := by simpa using find?_some hx
    split_ifs at h with hs
    · cases h
      exact .inl ⟨x, hx, rfl, .inl ⟨hs, rfl⟩⟩
    rw [not_not] at hs
    split at h
    · next c hc =>
      split_ifs at h with hown <;> cases h
      · exact .inr ⟨.again hx hs (hown ▸ hc), .inr rfl⟩
      · exact .inl ⟨x, hx, rfl, .inr ⟨⟨c, hc, hown⟩, rfl⟩⟩
    · next hc =>
      obtain ⟨a, a', before, after, hbefore, ha, hkept, he⟩ := exists_of_replaceF
        (p := fun lease : Lease => if lease.nonce = nonce then
          some { lease with holder := some connection } else none)
        (mem_of_find?_eq_some hx) (if_pos hnonce)
      rw [Option.ite_none_right_eq_some, Option.some.injEq] at ha
      obtain ⟨ha, rfl⟩ := ha
      have hbefore : ∀ y ∈ before, y.nonce ≠ nonce := by simpa using hbefore
      have hfirst : entryOf (l.kept now) nonce = some a := by
        rw [entryOf, kept, hkept, find?_append, find?_eq_none.mpr (by simpa using hbefore)]
        simp [ha]
      obtain rfl : x = a := Option.some.inj (hx.symm.trans hfirst)
      rw [he] at h
      cases h
      exact .inr ⟨.free hx hkept hbefore hs hc, .inr rfl⟩
  · next hnone =>
    cases h
    exact .inr ⟨.added hnone, .inl rfl⟩

section Takes

variable {entries : List Lease}
variable (h : Takes (l.kept now) nonce sessionId expiresAtMs connection entries)

include h

theorem Takes.mem {y : Lease} (hy : y ∈ entries) :
    ∃ x, (x ∈ l.kept now ∨ x = ⟨nonce, sessionId, expiresAtMs, some connection⟩) ∧
      (y = x ∨ y = { x with holder := some connection }) := by
  cases h with
  | again => exact ⟨y, .inl hy, .inl rfl⟩
  | free _ hkept =>
    rw [hkept]
    rcases mem_append.mp hy with hy | hy
    · exact ⟨y, .inl (mem_append_left _ hy), .inl rfl⟩
    rcases mem_cons.mp hy with rfl | hy
    · exact ⟨_, .inl (mem_append_right _ mem_cons_self), .inr rfl⟩
    · exact ⟨y, .inl (mem_append_right _ (mem_cons_of_mem _ hy)), .inl rfl⟩
  | added =>
    rcases mem_append.mp hy with hy | hy
    · exact ⟨y, .inl hy, .inl rfl⟩
    · exact ⟨y, .inr (mem_singleton.mp hy), .inl rfl⟩

theorem Takes.nonces : entries.map Lease.nonce = (l.kept now).map Lease.nonce ∨
    nonce ∉ (l.kept now).map Lease.nonce ∧
      entries.map Lease.nonce = (l.kept now).map Lease.nonce ++ [nonce] := by
  cases h with
  | again => exact .inl rfl
  | free _ hkept =>
    rw [hkept]
    exact .inl (by simp)
  | added hnone =>
    refine .inr ⟨fun hm => ?_, by simp⟩
    obtain ⟨x, hx, hn⟩ := mem_map.mp hm
    exact find?_eq_none.mp hnone x hx (by simpa using hn)

/-- Every entry is left, as it is if somebody holds it. -/
theorem Takes.keeps {x : Lease} (hx : x ∈ l.kept now) :
    ∃ y ∈ entries, y.nonce = x.nonce ∧ ∀ c, x.holder = some c → y = x := by
  cases h with
  | again => exact ⟨x, hx, rfl, fun _ _ => rfl⟩
  | free _ hkept _ _ hfree =>
    rw [hkept] at hx
    rcases mem_append.mp hx with hx | hx
    · exact ⟨x, mem_append_left _ hx, rfl, fun _ _ => rfl⟩
    rcases mem_cons.mp hx with rfl | hx
    · refine ⟨_, mem_append_right _ mem_cons_self, rfl, fun c hc => ?_⟩
      cases hfree.symm.trans hc
    · exact ⟨x, mem_append_right _ (mem_cons_of_mem _ hx), rfl, fun _ _ => rfl⟩
  | added => exact ⟨x, mem_append_left _ hx, rfl, fun _ _ => rfl⟩

theorem Takes.holds : ∃ x, entryOf entries nonce = some x ∧ x.sessionId = sessionId ∧
    x.holder = some connection := by
  cases h with
  | again hx hs hc => exact ⟨_, hx, hs, hc⟩
  | @free x before after hx _ hbefore hs =>
    have hnonce : x.nonce = nonce := by simpa using find?_some hx
    refine ⟨{ x with holder := some connection }, ?_, hs, rfl⟩
    rw [entryOf, find?_append, find?_eq_none.mpr (by simpa using hbefore)]
    simp [hnonce]
  | added hnone =>
    refine ⟨⟨nonce, sessionId, expiresAtMs, some connection⟩, ?_, rfl, rfl⟩
    rw [entryOf, find?_append, show find? _ _ = none from hnone]
    simp

/-- Nobody else held it. -/
theorem Takes.unheld (hdistinct : ((l.kept now).map Lease.nonce).Nodup) {y : Lease}
    (hy : y ∈ l.kept now) (hn : y.nonce = nonce) {c : ℕ} (hc : y.holder = some c) :
    c = connection := by
  have hfound {x : Lease} (hx : entryOf (l.kept now) nonce = some x) : y = x :=
    inj_on_of_nodup_map hdistinct hy (mem_of_find?_eq_some hx)
      (hn.trans (Eq.symm (by simpa using find?_some hx)))
  cases h with
  | again hx _ hc' =>
    rw [hfound hx, hc'] at hc
    exact (Option.some.inj hc).symm
  | free hx _ _ _ hfree =>
    rw [hfound hx, hfree] at hc
    cases hc
  | added hnone => exact absurd (by simpa using hn) (find?_eq_none.mp hnone y hy)

/-- Nothing changes exactly if the connection held the entry before. -/
theorem Takes.kept_iff (hle : now ≤ expiresAtMs) : kept ⟨entries⟩ now = l.kept now ↔
    (entryOf (l.kept now) nonce).bind Lease.holder = some connection := by
  have hkept : kept ⟨entries⟩ now = entries := by
    refine filter_eq_self.mpr fun y hy => ?_
    obtain ⟨x, hx | rfl, rfl | rfl⟩ := h.mem hy
    · exact (mem_filter.mp hx).2
    · exact (mem_filter.mp hx).2
    · exact decide_eq_true hle
    · exact decide_eq_true hle
  rw [hkept]
  constructor
  · intro heq
    obtain ⟨x, hx, -, hc⟩ := h.holds
    rw [← heq, hx]
    exact hc
  · intro hheld
    cases h with
    | again => rfl
    | free hx _ _ _ hc =>
      rw [hx, Option.bind_some, hc] at hheld
      cases hheld
    | added hnone =>
      rw [hnone] at hheld
      cases hheld

end Takes

/-- Only expired entries have gone. -/
def Thins (l l' : SessionLeases) (now : ℕ) : Prop :=
  l'.kept now = l.kept now ∧ l'.entries.Sublist l.entries

theorem kept_kept (l : SessionLeases) (now : ℕ) : kept ⟨l.kept now⟩ now = l.kept now := by
  simp [kept, filter_filter]

theorem nonces_release (l : SessionLeases) (connection : ℕ) :
    (l.release connection).entries.map Lease.nonce = l.entries.map Lease.nonce := by
  simp only [release, map_map]
  refine map_congr_left fun x _ => ?_
  grind

end SessionLeases

namespace BrokerSession

variable {hmac : Str → Str → Str} {out : Surroundings} {s : BrokerSession}

variable (hmac out s) in
theorem verifyApproval_cases (approval : Str) :
    (s.verifyApproval hmac out approval).2.toOption = none ∧
        out.leases.Thins (s.verifyApproval hmac out approval).1 out.now ∨
      ∃ g, (s.verifyApproval hmac out approval).2 = .ok g ∧
        SessionLeases.Takes (out.leases.kept out.now) g.nonce g.sessionId g.expiresAtMs s.connection
          (s.verifyApproval hmac out approval).1.entries := by
  unfold verifyApproval
  split_ifs
  · exact .inl ⟨rfl, rfl, .refl _⟩
  split
  · exact .inl ⟨rfl, rfl, .refl _⟩
  next g _ =>
    generalize ho : out.leases.acquire g.nonce g.sessionId g.expiresAtMs out.now s.connection = o
    obtain ⟨leases, outcome⟩ := o
    rcases SessionLeases.acquire_cases ho with ⟨x, -, rfl, hwhy⟩ | ⟨htakes, hgot⟩
    · have hthin : out.leases.Thins ⟨out.leases.kept out.now⟩ out.now :=
        ⟨out.leases.kept_kept out.now, filter_sublist⟩
      rcases hwhy with ⟨-, rfl⟩ | ⟨-, rfl⟩
      · exact .inl ⟨rfl, hthin⟩
      · exact .inl ⟨rfl, hthin⟩
    · rcases hgot with rfl | rfl
      · exact .inr ⟨g, rfl, htakes⟩
      · exact .inr ⟨g, rfl, htakes⟩

theorem connection_handleRequest (r : ServiceRequest) :
    (s.handleRequest hmac out r).session.connection = s.connection := by
  unfold handleRequest
  split_ifs
  · cases r <;> simp only [handleHandshake]
    split_ifs <;> rfl
  · cases r <;> simp only [openApproved, switchAuthorised]
    all_goals repeat' (first | rfl | split)

variable (hmac out s) in
/-- **What a request does to the leases**: nothing, or an approval that verifies takes its own. -/
theorem handleRequest_leases (r : ServiceRequest) :
    s.verifies hmac out r = none ∧
        out.leases.Thins (s.handleRequest hmac out r).leases out.now ∨
      ∃ g, s.verifies hmac out r = some g ∧
        SessionLeases.Takes (out.leases.kept out.now) g.nonce g.sessionId g.expiresAtMs s.connection
          (s.handleRequest hmac out r).leases.entries := by
  have hsame : out.leases.Thins out.leases out.now := ⟨rfl, .refl _⟩
  unfold handleRequest
  split_ifs with hs
  · refine .inl ⟨?_, hsame⟩
    cases r with
    | openCapture => simp [verifies, show s.handshaken = false by simpa using hs]
    | _ => rfl
  have hs : s.handshaken = true := by simpa using hs
  cases r with
  | openCapture tokenId approval requested params =>
    simp only [checkOpen, verifies, hs, Bool.true_and]
    by_cases htoken : (decide (tokenId = NO_GRANT) || s.authorised tokenId) = true
    · rw [if_pos htoken, if_neg (by simpa [or_iff_not_imp_left] using htoken)]
      have hcases := s.verifyApproval_cases hmac out approval
      generalize s.verifyApproval hmac out approval = v at hcases
      obtain ⟨leases, v⟩ := v
      rcases hcases with ⟨hnone, hthin⟩ | ⟨g, rfl, htakes⟩
      · cases v with
        | error message => exact .inl ⟨rfl, hthin⟩
        | ok g => cases hnone
      · refine .inr ⟨g, rfl, ?_⟩
        dsimp only
        split_ifs <;> exact htakes
    · rw [if_neg htoken, if_pos (by simpa using htoken)]
      exact .inl ⟨rfl, hsame⟩
  | switchCapture | input =>
    dsimp only
    split_ifs <;> exact .inl ⟨rfl, hsame⟩
  | _ => exact .inl ⟨rfl, hsame⟩

end BrokerSession

namespace Broker

variable {hmac : Str → Str → Str} {issued : ℕ → Option (Str × ℕ)} {b t : Broker}

/-- Every nonce has one entry, for the session it was issued for, held by a live connection if any. -/
structure Held (issued : ℕ → Option (Str × ℕ)) (b : Broker) : Prop where
  distinct : (b.leases.entries.map Lease.nonce).Nodup
  bound : ∀ l ∈ b.leases.entries, issued l.nonce = some (l.sessionId, l.expiresAtMs)
  live : ∀ l ∈ b.leases.entries, ∀ c, l.holder = some c → (b.sessions c).isSome
  own : ∀ id s, b.sessions id = some s → s.connection = id

theorem Held.kept_distinct (h : Held issued b) : ((b.leases.kept b.now).map Lease.nonce).Nodup :=
  h.distinct.sublist (filter_sublist.map _)

theorem Held.eq_issued (h : Held issued b) {l : Lease} (hl : l ∈ b.leases.entries) {nonce : ℕ}
    (hn : l.nonce = nonce) {p : Str × ℕ} (hp : issued nonce = some p) :
    l.sessionId = p.1 ∧ l.expiresAtMs = p.2 := by
  have hbound := h.bound l hl
  rw [hn, hp, Option.some.injEq] at hbound
  rw [hbound]
  exact ⟨rfl, rfl⟩

theorem Held.leased (h : Held issued b) {id : ℕ} {x : BrokerSession} {leases : SessionLeases}
    (hs : (b.sessions id).isSome) (hx : x.connection = id)
    (hl : leases.entries.Sublist b.leases.entries ∨ ∃ nonce sessionId expiresAtMs,
      issued nonce = some (sessionId, expiresAtMs) ∧ SessionLeases.Takes (b.leases.kept b.now) nonce
        sessionId expiresAtMs id leases.entries) :
    Held issued { b with leases := leases, sessions := update b.sessions id (some x) } := by
  have hlive : ∀ c, (b.sessions c).isSome → (update b.sessions id (some x) c).isSome := by
    grind
  have hown : ∀ i y, update b.sessions id (some x) i = some y → y.connection = i := by
    intro i y hy
    obtain ⟨rfl, ⟨⟩⟩ | ⟨-, hy⟩ := update_cases hy
    · exact hx
    · exact h.own i y hy
  obtain hl | ⟨nonce, sessionId, expiresAtMs, hissued, hacq⟩ := hl
  · exact ⟨h.distinct.sublist (hl.map _), fun x hx => h.bound x (hl.subset hx),
      fun x hx c hc => hlive c (h.live x (hl.subset hx) c hc), hown⟩
  refine ⟨?_, fun y hy => ?_, fun y hy c hc => hlive c ?_, hown⟩
  · rcases hacq.nonces with he | ⟨hnew, he⟩
    · rw [he]
      exact h.kept_distinct
    · rw [he, nodup_append]
      exact ⟨h.kept_distinct, by simp, by grind⟩
  · obtain ⟨z, hz | rfl, rfl | rfl⟩ := hacq.mem hy
    · exact h.bound y (mem_of_mem_filter hz)
    · exact h.bound z (mem_of_mem_filter hz)
    · exact hissued
    · exact hissued
  · obtain ⟨z, hz | rfl, rfl | rfl⟩ := hacq.mem hy
    · exact h.live y (mem_of_mem_filter hz) c hc
    all_goals grind

theorem Held.step (h : Held issued b) {a : Act} (hok : b.Genuine hmac issued a) :
    Held issued (b.act hmac a).1 := by
  cases a with
  | connect id ceiling authority =>
    simp only [act]
    split_ifs with hid
    · exact h
    · refine ⟨h.distinct, h.bound, fun l hl c hc => ?_, fun i y hy => ?_⟩
      · have := h.live l hl c hc
        grind
      · have := h.own i y
        grind [BrokerSession.withParts]
  | request id r nextId opened =>
    simp only [act]
    split
    · exact h
    · rename_i s hs
      refine h.leased (by simp [hs]) ((BrokerSession.connection_handleRequest r).trans (h.own id s hs)) ?_
      rcases s.handleRequest_leases hmac ⟨b.now, nextId, b.leases, opened⟩ r with
        ⟨-, hthin⟩ | ⟨g, hg, htakes⟩
      · exact .inl hthin.2
      · obtain ⟨tokenId, approval, _, _, rfl, hdec⟩ := BrokerSession.verifies_some hg
        rw [h.own id s hs] at htakes
        exact .inr ⟨_, _, _, hok s hs g (by rw [hdec]; rfl), htakes⟩
  | drop id =>
    refine ⟨by rw [act, SessionLeases.nonces_release]; exact h.distinct, fun l hl => ?_,
      fun l hl c hc => ?_, fun i y hy => ?_⟩
    · obtain ⟨x, hx, rfl⟩ := mem_map.mp hl
      have := h.bound x hx
      grind
    · obtain ⟨x, hx, rfl⟩ := mem_map.mp hl
      have := h.live x hx c
      show (update b.sessions id none c).isSome
      grind
    · have hy : update b.sessions id none i = some y := hy
      have := h.own i y
      grind
  | wait ms => exact { h with }

/-- An entry stays until it has expired, as it is if its holder does not go. -/
theorem kept_act (a : Act) {l : Lease} (hl : l ∈ b.leases.entries) (hnow : b.now ≤ l.expiresAtMs) :
    ∃ x ∈ (b.act hmac a).1.leases.entries, x.nonce = l.nonce ∧
      ∀ c, l.holder = some c → a ≠ .drop c → x = l := by
  have hsame {entries : List Lease} (hl : l ∈ entries) : ∃ x ∈ entries, x.nonce = l.nonce ∧
      ∀ c, l.holder = some c → a ≠ .drop c → x = l := ⟨l, hl, rfl, fun _ _ _ => rfl⟩
  cases a with
  | connect id ceiling authority =>
    simp only [act]
    split_ifs <;> exact hsame hl
  | request id r nextId opened =>
    simp only [act]
    split
    · exact hsame hl
    · rename_i s hs
      have hkept : l ∈ b.leases.kept b.now := mem_filter.mpr ⟨hl, decide_eq_true hnow⟩
      rcases s.handleRequest_leases hmac ⟨b.now, nextId, b.leases, opened⟩ r with
        ⟨-, hthin⟩ | ⟨g, -, htakes⟩
      · exact hsame (mem_of_mem_filter (hthin.1 ▸ hkept))
      · obtain ⟨x, hx, hn, hstays⟩ := htakes.keeps hkept
        exact ⟨x, hx, hn, fun c hc _ => hstays c hc⟩
  | drop id =>
    refine ⟨_, mem_map_of_mem hl, ?_, fun c hc hne => if_neg fun hid => hne ?_⟩
    · split_ifs <;> rfl
    · rw [Option.some.inj (hc.symm.trans hid)]
  | wait ms => exact hsame hl

theorem now_le_act (a : Act) : b.now ≤ (b.act hmac a).1.now := by
  cases a <;> simp only [act] <;> repeat' (first | exact le_rfl | exact Nat.le_add_right _ _ | split)

theorem held (h : (broker hmac).ReachVia (Genuine hmac issued) b) : Held issued b := by
  refine h.invariant ⟨nodup_nil, nofun, nofun, nofun⟩ fun b a b' h hok hst => ?_
  cases hst
  exact h.step hok

/-- **An approval is granted exactly when no other live connection holds it**, and its entry stays
while it is valid. Whoever is granted it holds it; a holder stays one until it is dropped, and then
holds nothing. -/
theorem leases_exclusive (h : (broker hmac).ReachVia (Genuine hmac issued) b) :
    (b.leases.entries.map Lease.nonce).Nodup ∧
    (∀ l ∈ b.leases.entries, issued l.nonce = some (l.sessionId, l.expiresAtMs) ∧
      ∀ c, l.holder = some c → (b.sessions c).isSome) ∧
    (∀ id s nextId opened approval g, b.sessions id = some s → s.authority.isConfigured →
      SessionGrant.decodeAndVerify hmac approval s.authority.key b.now s.authority.deviceId = .ok g →
      issued g.nonce = some (g.sessionId, g.expiresAtMs) →
      ((s.verifyApproval hmac ⟨b.now, nextId, b.leases, opened⟩ approval).2 = .ok g ↔
        ∀ l ∈ b.leases.entries, l.nonce = g.nonce → ∀ c, l.holder = some c → c = id)) ∧
    (∀ l ∈ b.leases.entries, ∀ t, ((broker hmac).startAt b).ReachVia (Genuine hmac issued) t →
      t.now ≤ l.expiresAtMs →
      ∃ l' ∈ t.leases.entries, l'.nonce = l.nonce ∧ l'.sessionId = l.sessionId) ∧
    (∀ id s r nextId opened g, b.sessions id = some s →
      s.verifies hmac ⟨b.now, nextId, b.leases, opened⟩ r = some g →
      ∃ l ∈ (b.act hmac (.request id r nextId opened)).1.leases.entries,
        l.nonce = g.nonce ∧ l.sessionId = g.sessionId ∧ l.holder = some id) ∧
    (∀ l ∈ b.leases.entries, ∀ c, l.holder = some c → ∀ t,
      ((broker hmac).startAt b).ReachVia (fun b a => Genuine hmac issued b a ∧ a ≠ .drop c) t →
      t.now ≤ l.expiresAtMs → l ∈ t.leases.entries) ∧
    ∀ id, ∀ l ∈ (b.act hmac (.drop id)).1.leases.entries, l.holder ≠ some id := by
  have hb := held h
  refine ⟨hb.distinct, fun l hl => ⟨hb.bound l hl, hb.live l hl⟩,
    fun id s nextId opened approval g hs hconf hg hissued => ?_, fun l hl t ht hle => ?_,
    fun id s r nextId opened g hs hg => ?_, fun l hl c hc t ht hle => ?_, fun id l hl => ?_⟩
  · -- an entry for the nonce expires with the approval, which has not expired
    have hkept : ∀ l ∈ b.leases.entries, l.nonce = g.nonce →
        l ∈ b.leases.kept b.now ∧ l.sessionId = g.sessionId := by
      intro l hl hn
      obtain ⟨hsession, hexpires⟩ := hb.eq_issued hl hn hissued
      refine ⟨mem_filter.mpr ⟨hl, ?_⟩, hsession⟩
      rw [hexpires]
      exact decide_eq_true (SessionGrant.le_of_decodeAndVerify hg)
    rw [BrokerSession.verifyApproval, hconf, hg, hb.own id s hs]
    simp only [Bool.not_true, Bool.false_eq_true, if_false]
    generalize ho : b.leases.acquire g.nonce g.sessionId g.expiresAtMs b.now id = o
    obtain ⟨leases, outcome⟩ := o
    rcases SessionLeases.acquire_cases ho with ⟨x, hx, -, hwhy⟩ | ⟨htakes, hgot⟩
    · have hmem := mem_of_mem_filter (mem_of_find?_eq_some hx)
      have hnonce : x.nonce = g.nonce := by simpa using find?_some hx
      rcases hwhy with ⟨hs, -⟩ | ⟨⟨c, hc, hne⟩, rfl⟩
      · exact absurd (hkept x hmem hnonce).2 hs
      · exact iff_of_false (fun h => by cases h) fun hall => hne (hall x hmem hnonce c hc)
    · refine iff_of_true ?_ fun l hl hn c hc =>
        htakes.unheld hb.kept_distinct (hkept l hl hn).1 hn hc
      rcases hgot with rfl | rfl <;> rfl
  · -- the entry for the nonce is there until it expires
    have hstay : Held issued t ∧
        (t.now ≤ l.expiresAtMs → ∃ x ∈ t.leases.entries, x.nonce = l.nonce) := by
      refine ht.invariant (I := fun t => Held issued t ∧ (t.now ≤ l.expiresAtMs →
        ∃ x ∈ t.leases.entries, x.nonce = l.nonce)) ⟨hb, fun _ => ⟨l, hl, rfl⟩⟩
        fun b a b' ⟨h, hmem⟩ hok hst => ?_
      cases hst
      refine ⟨h.step hok, fun hnow => ?_⟩
      have hle := (now_le_act a).trans hnow
      obtain ⟨x, hx, hn⟩ := hmem hle
      obtain ⟨-, hexpires⟩ := h.eq_issued hx hn (hb.bound l hl)
      obtain ⟨y, hy, hyn, -⟩ := kept_act a hx (hexpires ▸ hle)
      exact ⟨y, hy, hyn.trans hn⟩
    obtain ⟨x, hx, hn⟩ := hstay.2 hle
    exact ⟨x, hx, hn, (hstay.1.eq_issued hx hn (hb.bound l hl)).1⟩
  · rcases s.handleRequest_leases hmac ⟨b.now, nextId, b.leases, opened⟩ r with
      ⟨hnone, -⟩ | ⟨g', hg', htakes⟩
    · rw [hg] at hnone
      cases hnone
    · rw [hg, Option.some.injEq] at hg'
      subst hg'
      obtain ⟨x, hx, hsession, hc⟩ := htakes.holds
      refine ⟨x, ?_, by simpa using find?_some hx, hsession, hc.trans (by rw [hb.own id s hs])⟩
      simp only [act, hs]
      exact mem_of_find?_eq_some hx
  · refine ht.invariant (I := fun t => t.now ≤ l.expiresAtMs → l ∈ t.leases.entries) (fun _ => hl)
      (fun b a b' hmem hok hst hnow => ?_) hle
    cases hst
    have hle := (now_le_act a).trans hnow
    obtain ⟨x, hx, -, hsame⟩ := kept_act a (hmem hle) hle
    exact hsame c hc hok.2 ▸ hx
  · obtain ⟨x, -, rfl⟩ := mem_map.mp hl
    grind

open Sample

/-- Two approvals of different nonces, each for a session of its own. -/
def approvals : List SessionGrant := [approval .all, { approval .all with sessionId := [116], nonce := 2 }]

def issuedThen (nonce : ℕ) : Option (Str × ℕ) :=
  (approvals.find? (·.nonce = nonce)).map fun g => (g.sessionId, g.expiresAtMs)

/-- A connection presents an approval. -/
def presents (id : ℕ) (g : SessionGrant) : Act :=
  .request id (.openCapture NO_GRANT (g.encode mac authority.key) .all params) (5 + id) (.ok ⟨1920, 1080⟩)

/-- Two connections, of which the first opens a capture. -/
def opening : List Act :=
  [.wait 1000, .connect 0 .all authority, .connect 1 .all authority,
    .request 0 (.hello PROTOCOL_VERSION) 0 (.ok ⟨1, 1⟩),
    .request 1 (.hello PROTOCOL_VERSION) 0 (.ok ⟨1, 1⟩),
    presents 0 (approval .all)]

/-- The connection that opened is granted the approval again, and the other one is not. -/
theorem leases_exclusive_two : ∃ b, (broker mac).ReachVia (Genuine mac issuedThen) b ∧
    (∃ s ∈ b.sessions 0, (s.verifyApproval mac ⟨b.now, 5, b.leases, .ok ⟨1, 1⟩⟩
      ((approval .all).encode mac authority.key)).2 = .ok (approval .all)) ∧
    ∃ s ∈ b.sessions 1, (s.verifyApproval mac ⟨b.now, 5, b.leases, .ok ⟨1, 1⟩⟩
      ((approval .all).encode mac authority.key)).2 ≠ .ok (approval .all) := by
  obtain ⟨b, hb, hnow, hheld, ⟨s, hs, ha⟩, s', hs', ha'⟩ :=
    (broker mac).exists_reachVia (Genuine mac issuedThen) opening (fun b => b.now = 1000 ∧
      b.leases.entries = [⟨1, [115], 60000, some 0⟩] ∧ (∃ s ∈ b.sessions 0, s.authority = authority) ∧
      ∃ s ∈ b.sessions 1, s.authority = authority) (by decide +kernel)
  have hdec : SessionGrant.decodeAndVerify mac ((approval .all).encode mac authority.key) authority.key
      b.now authority.deviceId = .ok (approval .all) := by
    rw [hnow]
    decide +kernel
  obtain ⟨-, -, hgranted, -⟩ := leases_exclusive hb
  refine ⟨b, hb, ⟨s, hs, ?_⟩, s', hs', ?_⟩
  · rw [hgranted 0 s 5 (.ok ⟨1, 1⟩) _ _ hs (by rw [ha]; rfl) (by rw [ha]; exact hdec)
      (by decide +kernel), hheld]
    simp
  · rw [Ne, hgranted 1 s' 5 (.ok ⟨1, 1⟩) _ _ hs' (by rw [ha']; rfl) (by rw [ha']; exact hdec)
      (by decide +kernel), hheld]
    simp [approval]

end Broker

/-! ## Refusals -/

/-- Whether an answer says that something was refused. -/
def refused (events : List BrokerEvent) : Bool :=
  events.any fun | .captureError c _ => c = code.UNAUTHORISED | _ => false

namespace SessionLeases

variable {l l' : SessionLeases} {now : ℕ}

theorem acquire_congr (h : l.kept now = l'.kept now) (nonce : ℕ) (sessionId : Str)
    (expiresAtMs connection : ℕ) : l.acquire nonce sessionId expiresAtMs now connection =
      l'.acquire nonce sessionId expiresAtMs now connection := by
  unfold acquire
  rw [show l.entries.filter (fun x => now ≤ x.expiresAtMs) = _ from h]

theorem kept_release (h : l.kept now = l'.kept now) (connection : ℕ) :
    (l.release connection).kept now = (l'.release connection).kept now := by
  have hfree (l : SessionLeases) : (l.release connection).kept now =
      (release ⟨l.kept now⟩ connection).entries := by
    simp only [kept, release, filter_map]
    congr 1
    refine filter_congr fun x _ => ?_
    grind
  rw [hfree, hfree, h]

theorem kept_later (h : l.kept now = l'.kept now) (ms : ℕ) : l.kept (now + ms) = l'.kept (now + ms) := by
  have hsub (l : SessionLeases) : l.kept (now + ms) = kept ⟨l.kept now⟩ (now + ms) := by
    simp only [kept, filter_filter]
    refine filter_congr fun x _ => ?_
    grind
  rw [hsub l, hsub l', h]

end SessionLeases

namespace BrokerSession

variable {hmac : Str → Str → Str} {s : BrokerSession} {nextId : ℕ}
  {opened : Except CaptureFailure OpenedCapture} {now : ℕ} {l l' : SessionLeases}
  {approval : Str} {tokenId : ℕ}

variable (hmac s nextId opened) in
theorem verifyApproval_congr (h : l.kept now = l'.kept now) (approval : Str) :
    (s.verifyApproval hmac ⟨now, nextId, l, opened⟩ approval).2 =
      (s.verifyApproval hmac ⟨now, nextId, l', opened⟩ approval).2 ∧
    (s.verifyApproval hmac ⟨now, nextId, l, opened⟩ approval).1.kept now =
      (s.verifyApproval hmac ⟨now, nextId, l', opened⟩ approval).1.kept now := by
  simp only [verifyApproval, SessionLeases.acquire_congr h]
  split_ifs
  · exact ⟨rfl, h⟩
  split
  · exact ⟨rfl, h⟩
  · split <;> exact ⟨rfl, rfl⟩

variable (hmac s nextId opened) in
theorem handleRequest_congr (h : l.kept now = l'.kept now) (r : ServiceRequest) :
    (s.handleRequest hmac ⟨now, nextId, l, opened⟩ r).session =
      (s.handleRequest hmac ⟨now, nextId, l', opened⟩ r).session ∧
    (s.handleRequest hmac ⟨now, nextId, l, opened⟩ r).events =
      (s.handleRequest hmac ⟨now, nextId, l', opened⟩ r).events ∧
    (s.handleRequest hmac ⟨now, nextId, l, opened⟩ r).leases.kept now =
      (s.handleRequest hmac ⟨now, nextId, l', opened⟩ r).leases.kept now := by
  unfold handleRequest
  split_ifs
  · exact ⟨rfl, rfl, h⟩
  cases r with
  | openCapture tokenId approval requested params =>
    have hv := s.verifyApproval_congr hmac nextId opened h approval
    simp only [checkOpen]
    split_ifs
    · exact ⟨rfl, rfl, h⟩
    generalize s.verifyApproval hmac ⟨now, nextId, l, opened⟩ approval = v at hv
    generalize s.verifyApproval hmac ⟨now, nextId, l', opened⟩ approval = v' at hv
    obtain ⟨leases, v⟩ := v
    obtain ⟨leases', v'⟩ := v'
    obtain ⟨rfl, hk⟩ := hv
    cases v with
    | error message => exact ⟨rfl, rfl, hk⟩
    | ok g =>
      dsimp only
      split_ifs <;> exact ⟨rfl, rfl, hk⟩
  | switchCapture | input =>
    dsimp only
    split_ifs <;> exact ⟨rfl, rfl, h⟩
  | _ => exact ⟨rfl, rfl, h⟩

/-- A refused open with an approval that verified leaves the session as it was: the connection serves
another session, or it has all that it is given. -/
def Unmoved (s : BrokerSession) (out : Surroundings) (requested : Capabilities)
    (params : CaptureParams) (g : SessionGrant) : Prop :=
  s.sessionId.isSome ∧ (s.sessionId = some g.sessionId →
    s.grant = none ∧ out.nextId = NO_GRANT ∨ ∃ t ∈ s.grant, s = s.grantTo g t requested params false)

section Refused

variable {out : Surroundings} {requested : Capabilities} {params : CaptureParams}

theorem openApproved_refused {g : SessionGrant} (hsame : ∀ x ∈ s.sessionId, x = g.sessionId)
    (hr : refused (s.openApproved out g requested params).2.2) :
    (s.openApproved out g requested params).1 = s ↔ s.Unmoved out requested params g := by
  have hserves : s.sessionId.isSome → s.sessionId = some g.sessionId := fun h => by
    obtain ⟨x, hx⟩ := Option.isSome_iff_exists.mp h
    rw [hx, hsame x hx]
  unfold openApproved at hr ⊢
  dsimp only at hr ⊢
  split at hr
  · next hnone =>
    have hgrant : s.grant = none ∧ out.nextId = NO_GRANT := by
      unfold token at hnone
      split at hnone
      · cases hnone
      · next hg =>
        split_ifs at hnone with hid
        exact ⟨hg, hid⟩
    refine ⟨fun heq => ?_, fun h => ?_⟩
    · exact ⟨by rw [← heq]; rfl, fun _ => .inl hgrant⟩
    · dsimp only
      rw [← hserves h.1]
  · next t ht =>
    split at hr
    · simp [refused] at hr
    next hopened =>
      refine ⟨fun heq => ?_, fun h => ?_⟩
      · refine ⟨by rw [← heq]; rfl, fun _ => .inr ⟨t, ?_, heq.symm⟩⟩
        rw [← heq]
        rfl
      · rcases h.2 (hserves h.1) with ⟨hg, hid⟩ | ⟨t', ht', heq⟩
        · simp [token, hg, hid] at ht
        · simp only [token, Option.mem_def.mp ht', Option.some.injEq] at ht
          subst ht
          exact heq.symm

theorem session_refused
    (hr : refused (s.handleRequest hmac out (.openCapture tokenId approval requested params)).events) :
    (s.handleRequest hmac out (.openCapture tokenId approval requested params)).session = s ↔
      ∀ g ∈ s.verifies hmac out (.openCapture tokenId approval requested params),
        s.Unmoved out requested params g := by
  unfold handleRequest at hr ⊢
  split_ifs at hr ⊢ with hs
  · simp [handleHandshake, refused, code.PROTOCOL_VIOLATION, code.UNAUTHORISED] at hr
  have hs : s.handshaken = true := by simpa using hs
  simp only [checkOpen, verifies, hs, Bool.true_and] at hr ⊢
  by_cases htoken : (decide (tokenId = NO_GRANT) || s.authorised tokenId) = true
  · have hgo : ¬ (decide (tokenId ≠ NO_GRANT) && !s.authorised tokenId) = true := by
      simpa [or_iff_not_imp_left] using htoken
    rw [if_neg hgo] at hr ⊢
    rw [if_pos htoken]
    generalize s.verifyApproval hmac out approval = v at hr ⊢
    obtain ⟨leases, message | g⟩ := v
    · exact iff_of_true rfl (by simp [Except.toOption])
    simp only [Except.toOption, Option.mem_some_iff, forall_eq'] at hr ⊢
    split_ifs at hr ⊢ with hother
    · refine iff_of_true rfl ?_
      refine ⟨?_, fun heq => by simp [heq] at hother⟩
      cases hx : s.sessionId with
      | none => simp [hx] at hother
      | some x => rfl
    · refine openApproved_refused (fun x hx => ?_) hr
      rw [Option.mem_def] at hx
      simpa [hx] using hother
  · rw [if_neg htoken, if_pos (by simpa using htoken)]
    exact iff_of_true rfl (fun g hg => by cases hg)

end Refused

end BrokerSession

namespace Broker

variable {hmac : Str → Str → Str} {b b' : Broker}

/-- The same connections at the same time, with the same leases apart from expired ones. -/
structure Alike (b b' : Broker) : Prop where
  now : b.now = b'.now
  sessions : b.sessions = b'.sessions
  kept : b.leases.kept b.now = b'.leases.kept b.now

theorem Alike.step (h : Alike b b') (a : Act) :
    (b.act hmac a).2 = (b'.act hmac a).2 ∧ Alike (b.act hmac a).1 (b'.act hmac a).1 := by
  obtain ⟨now, l, sessions⟩ := b
  obtain ⟨now', l', sessions'⟩ := b'
  obtain ⟨rfl, rfl, hk⟩ := h
  cases a with
  | connect id ceiling authority =>
    simp only [act]
    split_ifs <;> exact ⟨trivial, rfl, rfl, hk⟩
  | request id r nextId opened =>
    simp only [act]
    split
    · exact ⟨rfl, rfl, rfl, hk⟩
    · rename_i s hs
      obtain ⟨hsession, hevents, hleases⟩ := s.handleRequest_congr hmac nextId opened hk r
      refine ⟨hevents, rfl, ?_, hleases⟩
      simp [handle, hsession]
  | drop id => exact ⟨rfl, rfl, rfl, SessionLeases.kept_release hk id⟩
  | wait ms => exact ⟨rfl, rfl, rfl, SessionLeases.kept_later hk ms⟩

theorem Alike.answers (h : Alike b b') (acts : List Act) : b.answers hmac acts = b'.answers hmac acts := by
  induction acts generalizing b b' with
  | nil => rfl
  | cons a acts ih =>
    rw [Broker.answers, Broker.answers, (h.step a).1, ih (h.step a).2]

/-- **An open that is refused leaves no trace exactly if** the approval does not verify, or the
connection holds it already and the session is left as it was. -/
theorem refusal_leaves_no_trace {id tokenId nextId : ℕ} {s : BrokerSession} {approval : Str}
    {requested : Capabilities} {params : CaptureParams}
    {opened : Except CaptureFailure OpenedCapture} {t : Broker} (hs : b.sessions id = some s)
    (ht : (b.act hmac (.request id (.openCapture tokenId approval requested params) nextId opened)).1 = t)
    (hr : refused
      (b.act hmac (.request id (.openCapture tokenId approval requested params) nextId opened)).2) :
    (t.sessions = b.sessions ∧ t.leases.kept b.now = b.leases.kept b.now ∧
        ∀ acts, t.answers hmac acts = b.answers hmac acts) ↔
      ∀ g ∈ s.verifies hmac ⟨b.now, nextId, b.leases, opened⟩
          (.openCapture tokenId approval requested params),
        (SessionLeases.entryOf (b.leases.kept b.now) g.nonce).bind Lease.holder = some s.connection ∧
          s.Unmoved ⟨b.now, nextId, b.leases, opened⟩ requested params g := by
  simp only [act, hs] at ht hr
  have hsession := BrokerSession.session_refused hr
  have hsessions : t.sessions = b.sessions ↔
      (b.handle hmac s (.openCapture tokenId approval requested params) nextId opened).session = s := by
    rw [← ht, update_eq_iff, hs]
    simp [eq_comm]
  have hleases : t.leases.kept b.now = b.leases.kept b.now ↔
      ∀ g ∈ s.verifies hmac ⟨b.now, nextId, b.leases, opened⟩
        (.openCapture tokenId approval requested params),
        (SessionLeases.entryOf (b.leases.kept b.now) g.nonce).bind Lease.holder = some s.connection := by
    rw [← ht]
    rcases s.handleRequest_leases hmac ⟨b.now, nextId, b.leases, opened⟩
      (.openCapture tokenId approval requested params) with ⟨hnone, hthin⟩ | ⟨g, hg, htakes⟩
    · rw [hnone]
      exact iff_of_true hthin.1 (fun g hg => by cases hg)
    · obtain ⟨_, _, _, _, -, hdec⟩ := BrokerSession.verifies_some hg
      rw [hg]
      simp only [Option.mem_some_iff, forall_eq']
      exact htakes.kept_iff (SessionGrant.le_of_decodeAndVerify hdec)
  have hanswers (h1 : t.sessions = b.sessions) (h2 : t.leases.kept b.now = b.leases.kept b.now) :
      ∀ acts, t.answers hmac acts = b.answers hmac acts := by
    refine Alike.answers ⟨by rw [← ht], h1, ?_⟩
    rw [← ht] at h2 ⊢
    exact h2
  constructor
  · rintro ⟨h1, h2, -⟩ g hg
    exact ⟨hleases.mp h2 g hg, hsession.mp (hsessions.mp h1) g hg⟩
  · intro h
    have h1 := hsessions.mpr (hsession.mpr fun g hg => (h g hg).2)
    have h2 := hleases.mpr fun g hg => (h g hg).1
    exact ⟨h1, h2, hanswers h1 h2⟩

open Sample

/-- The second connection presents what the first one holds. -/
theorem refusal_leaves_no_trace_held : ∃ b, (broker mac).ReachVia (Genuine mac issuedThen) b ∧
    refused (b.act mac (presents 1 (approval .all))).2 ∧ ∀ acts,
      (b.act mac (presents 1 (approval .all))).1.answers mac acts = b.answers mac acts := by
  obtain ⟨b, hb, hr, s, hs, hnone⟩ := (broker mac).exists_reachVia (Genuine mac issuedThen) opening
    (fun b => refused (b.act mac (presents 1 (approval .all))).2 ∧ ∃ s ∈ b.sessions 1,
      s.verifies mac ⟨b.now, 6, b.leases, .ok ⟨1920, 1080⟩⟩ (.openCapture NO_GRANT
        ((approval .all).encode mac authority.key) .all params) = none)
    (by decide +kernel)
  refine ⟨b, hb, hr, ((refusal_leaves_no_trace hs rfl hr).mpr fun g hg => ?_).2.2⟩
  cases hnone.symm.trans hg

/-- **A refused open keeps the approval from others**, the connection that it is for among them. -/
theorem refused_open_keeps_lease : ∃ b, (broker mac).ReachVia (Genuine mac issuedThen) b ∧
    ∃ g ∈ approvals, refused (b.act mac (presents 0 g)).2 ∧
      (b.answers mac [presents 1 g]).map refused = [false] ∧
      ((b.act mac (presents 0 g)).1.answers mac [presents 1 g]).map refused = [true] :=
  (broker mac).exists_reachVia (Genuine mac issuedThen) opening _ (by decide +kernel)

end Broker

end OpenStream.HostBroker
