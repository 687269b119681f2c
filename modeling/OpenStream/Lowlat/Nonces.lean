import OpenStream.Lowlat.Calls

/-!
# Counters of a pair of sessions

A host and a guest share one key and one nonce prefix. They make any calls in any order, and any
bytes arrive at either of them. The counter a record carries is the counter of its nonce.

* **`Pair.counters_unique`**
-/

set_option linter.unusedSectionVars false

namespace OpenStream.Lowlat

open Bytes Runs Function

variable {n : ℕ} {F : Type}

/-- Two sessions, and what each of them sealed, the last first. -/
structure Pair (n : ℕ) (F : Type) where
  session : Direction → Session n F
  sent : List (Direction × Str)

namespace Pair

variable [NeZero n] [Double F]

/-- The record a call on a side lets out. -/
def emitted (d : Direction) : Option (Except Error Str) → List (Direction × Str)
  | some (.ok datagram) => [(d, datagram)]
  | _ => []

/-- One call on one side; a record that leaves it is kept. -/
def step (p : Pair n F) (a : Direction × Session.Call n F) : Option (Pair n F) :=
  let out := a.2.run (p.session a.1)
  some ⟨Function.update p.session a.1 out.1, emitted a.1 out.2 ++ p.sent⟩

variable (envelope : Envelope)

/-- Both sides start fresh with the same envelope. -/
def machine (level : Direction → ℕ) (nowMs : Direction → F) :
    Machine (Pair n F) (Direction × Session.Call n F) where
  start := ⟨fun d => .withDirection envelope d (level d) (nowMs d), []⟩
  step := step

/-! ## The invariant -/

/-- The record was sealed by its side, under a counter the side has spent. -/
def Sealed (p : Pair n F) (x : Direction × Str) : Prop :=
  ∃ tx : UInt64, tx.toNat < (p.session x.1).txCounter.toNat ∧
    ∃ plaintext outLen, envelope.sealInPlace (tx ||| x.1.sealBit) plaintext outLen = .ok x.2

structure Fresh (envelope : Envelope) (p : Pair n F) : Prop where
  keyed : ∀ d, (p.session d).envelope = envelope
  direction : ∀ d, (p.session d).direction = d
  bound : ∀ d, (p.session d).txCounter.toNat ≤ 2 ^ 63
  sealed : ∀ x ∈ p.sent, Sealed envelope p x
  unique : (p.sent.map fun x => counterOf x.2).Nodup

section Counters

variable {envelope : Envelope} {p : Pair n F}

theorem Fresh.toNat_counter (h : Fresh envelope p) {x : Direction × Str} (hx : x ∈ p.sent) :
    ∃ tx < (p.session x.1).txCounter.toNat, (counterOf x.2).toNat = tx + x.1.sealBit.toNat := by
  obtain ⟨tx, htx, plaintext, outLen, hs⟩ := h.sealed x hx
  refine ⟨tx.toNat, htx, ?_⟩
  rw [Envelope.counterOf_seal hs]
  exact x.1.toNat_or_sealBit (htx.trans_le (h.bound x.1))

theorem Fresh.next_unused (h : Fresh envelope p) (d : Direction)
    (hd : (p.session d).txCounter.toNat < 2 ^ 63) {x : Direction × Str} (hx : x ∈ p.sent) :
    counterOf x.2 ≠ (p.session d).txCounter ||| d.sealBit := by
  obtain ⟨tx, htx, hc⟩ := h.toNat_counter hx
  have hbound := h.bound x.1
  have hhost : (Direction.sealBit .host).toNat = 0 := rfl
  have hguest := Direction.toNat_sealBit_guest
  intro he
  rw [he, d.toNat_or_sealBit hd] at hc
  obtain ⟨e, datagram⟩ := x
  -- on the same side it is larger, on the other side the bit differs
  cases d <;> cases e <;> simp only at hc htx hbound <;> omega

end Counters

theorem fresh_start (level : Direction → ℕ) (nowMs : Direction → F) :
    Fresh envelope (machine (n := n) envelope level nowMs).start :=
  ⟨fun _ => rfl, fun _ => rfl, fun _ => Nat.zero_le _, by simp [machine], List.nodup_nil⟩

theorem emitted_cases (d : Direction) (out : Option (Except Error Str)) :
    emitted d out = [] ∨ ∃ datagram, out = some (.ok datagram) ∧ emitted d out = [(d, datagram)] := by
  unfold emitted
  split
  · next datagram => exact .inr ⟨datagram, rfl, rfl⟩
  · exact .inl rfl

theorem txCounter_mono {s s' : Session n F} {out : Option (Except Error Str)}
    (h : Session.Seals s.core s'.core out) (hb : s.txCounter.toNat ≤ 2 ^ 63) :
    s.txCounter.toNat ≤ s'.txCounter.toNat ∧ s'.txCounter.toNat ≤ 2 ^ 63 := by
  have hc : s'.txCounter = s.txCounter ∨
      s.txCounter.toNat < 2 ^ 63 ∧ s'.txCounter = s.txCounter + 1 := h.counter
  obtain hc | ⟨hlt, hc⟩ := hc
  · rw [hc]
    exact ⟨le_rfl, hb⟩
  · have hadd : (s.txCounter + 1).toNat = s.txCounter.toNat + 1 := by
      rw [UInt64.toNat_add, UInt64.toNat_one, Nat.mod_eq_of_lt (by omega)]
    rw [hc, hadd]
    omega

section Call

variable {envelope : Envelope} {p : Pair n F} {d : Direction} {s' : Session n F}
  {out : Option (Except Error Str)}

theorem Fresh.emitted_counter (h : Fresh envelope p) {datagram : Str}
    (hs : Session.Seals (p.session d).core s'.core (some (.ok datagram))) :
    (p.session d).txCounter.toNat < 2 ^ 63 ∧
      counterOf datagram = (p.session d).txCounter ||| d.sealBit ∧
      Sealed envelope ⟨update p.session d s', (d, datagram) :: p.sent⟩ (d, datagram) := by
  obtain ⟨⟨hlt, hnext⟩, plaintext, outLen, hsealed⟩ := hs.sealed datagram rfl
  have hnext : s'.txCounter = (p.session d).txCounter + 1 := hnext
  have hsealed : (p.session d).envelope.sealInPlace ((p.session d).txCounter |||
      (p.session d).direction.sealBit) plaintext outLen = .ok datagram := hsealed
  rw [h.keyed, h.direction] at hsealed
  refine ⟨hlt, Envelope.counterOf_seal hsealed, (p.session d).txCounter, ?_, plaintext, outLen,
    hsealed⟩
  have hlt : (p.session d).txCounter.toNat < 2 ^ 63 := hlt
  simp only [update_self]
  rw [hnext, UInt64.toNat_add, UInt64.toNat_one, Nat.mod_eq_of_lt (by omega)]
  exact Nat.lt_succ_self _

/-- **What a call leaves of the invariant**, from what it may do with counters. -/
theorem Fresh.call (h : Fresh envelope p)
    (hs : Session.Seals (p.session d).core s'.core out) :
    Fresh envelope ⟨update p.session d s', emitted d out ++ p.sent⟩ := by
  have hmono := txCounter_mono hs (h.bound d)
  have hcounter : ∀ e, (p.session e).txCounter.toNat ≤
      (update p.session d s' e).txCounter.toNat :=
    (forall_update_iff p.session fun e s =>
      (p.session e).txCounter.toNat ≤ s.txCounter.toNat).mpr ⟨hmono.1, fun _ _ => le_rfl⟩
  have hold {x : Direction × Str} {sent : List (Direction × Str)} (hx : x ∈ p.sent) :
      Sealed envelope ⟨update p.session d s', sent⟩ x := by
    obtain ⟨tx, htx, hsealed⟩ := h.sealed x hx
    exact ⟨tx, htx.trans_le (hcounter x.1), hsealed⟩
  have hkeyed : ∀ e, (update p.session d s' e).envelope = envelope :=
    (forall_update_iff p.session fun _ s => s.envelope = envelope).mpr
      ⟨hs.envelope.trans (h.keyed d), fun e _ => h.keyed e⟩
  have hdirection : ∀ e, (update p.session d s' e).direction = e :=
    (forall_update_iff p.session fun e s => s.direction = e).mpr
      ⟨hs.direction.trans (h.direction d), fun e _ => h.direction e⟩
  have hbound : ∀ e, (update p.session d s' e).txCounter.toNat ≤ 2 ^ 63 :=
    (forall_update_iff p.session fun _ s => s.txCounter.toNat ≤ 2 ^ 63).mpr
      ⟨hmono.2, fun e _ => h.bound e⟩
  obtain hnone | ⟨datagram, rfl, hone⟩ := emitted_cases d out
  · rw [hnone]
    exact ⟨hkeyed, hdirection, hbound, fun x hx => hold hx, h.unique⟩
  · obtain ⟨hlt, hc, hsealed⟩ := h.emitted_counter hs
    refine ⟨hkeyed, hdirection, hbound, fun x hx => ?_, ?_⟩
    · obtain rfl | hx := List.mem_cons.mp hx
      · exact hsealed
      · exact hold hx
    · refine List.nodup_cons.mpr ⟨fun hmem => ?_, h.unique⟩
      obtain ⟨x, hx, he⟩ := List.mem_map.mp hmem
      exact h.next_unused d hlt hx (he.trans hc)

end Call

theorem fresh_step {envelope : Envelope} {p p' : Pair n F} {a : Direction × Session.Call n F}
    (h : Fresh envelope p) (hs : step p a = some p') : Fresh envelope p' := by
  cases hs
  exact h.call ((p.session a.1).seals_run a.2)

/-! ## Runs -/

section Runs

variable {envelope : Envelope} {level : Direction → ℕ} {nowMs : Direction → F} {p : Pair n F}

theorem Reach.fresh (h : (machine envelope level nowMs).Reach p) : Fresh envelope p :=
  h.invariant (fresh_start envelope level nowMs) fun _ _ _ hp _ hs => fresh_step hp hs

theorem Fresh.processInput (h : Fresh envelope p) {x : Direction × Str} (hx : x ∈ p.sent)
    (nowMs : F) (scratchLen : ℕ) :
    (p.session x.1).processInput x.2 nowMs scratchLen = (p.session x.1, .error .decrypt) := by
  obtain ⟨tx, htx, plaintext, outLen, hs⟩ := h.sealed x hx
  have hown := x.1.fromDatagram_sealed (htx.trans_le (h.bound x.1)) hs
  rw [Session.processInput, if_pos]
  rw [hown, h.direction]
  exact fun he => x.1.ne_opposite (Option.some.inj he)

/-- **No counter is used twice** in any run of calls on the two sides, and no session accepts a
record its own side sealed. -/
theorem counters_unique (envelope : Envelope) (level : Direction → ℕ) (nowMs : Direction → F)
    (h : (machine envelope level nowMs).Reach p) :
    (p.sent.map fun x => counterOf x.2).Nodup ∧
      (∀ x ∈ p.sent, ∀ y ∈ p.sent, x.1 ≠ y.1 → counterOf x.2 ≠ counterOf y.2) ∧
      ∀ x ∈ p.sent,
        (∃ plaintext outLen, envelope.sealInPlace (counterOf x.2) plaintext outLen = .ok x.2) ∧
          ∀ nowMs scratchLen, (p.session x.1).processInput x.2 nowMs scratchLen =
            (p.session x.1, .error .decrypt) := by
  have hf := Reach.fresh h
  refine ⟨hf.unique, fun x hx y hy hne he => hne ?_, fun x hx => ⟨?_, hf.processInput hx⟩⟩
  · exact congrArg Prod.fst (List.inj_on_of_nodup_map hf.unique hx hy he)
  · obtain ⟨tx, -, plaintext, outLen, hs⟩ := hf.sealed x hx
    refine ⟨plaintext, outLen, ?_⟩
    rw [Envelope.counterOf_seal hs]
    exact hs

end Runs

theorem counters_unique_keepalives : ∃ p : Pair 1 Float,
    (machine ⟨.clear, [0, 0, 0, 0]⟩ (fun _ => 0) (fun _ => 0)).Reach p ∧
      p.sent.map (fun x => (counterOf x.2).toNat) = [1, 2 ^ 63, 0] ∧
      (p.sent.map fun x => counterOf x.2).Nodup := by
  obtain ⟨p, hp, hsent⟩ := Machine.exists_reachVia
    (M := machine (n := 1) (F := Float) ⟨.clear, [0, 0, 0, 0]⟩ (fun _ => 0) (fun _ => 0))
    (fun _ _ => True)
    [(.host, .poll 50), (.host, .getOutput 50 MAX_DATAGRAM), (.guest, .poll 50),
      (.guest, .getOutput 50 MAX_DATAGRAM), (.host, .emitPathProbe ⟨1, 1300, 1⟩ MAX_DATAGRAM)]
    (fun p => p.sent.map (fun x => (counterOf x.2).toNat) = [1, 2 ^ 63, 0]) (by decide +kernel)
  exact ⟨p, hp, hsent, (counters_unique _ _ _ hp).1⟩

end Pair

end OpenStream.Lowlat
