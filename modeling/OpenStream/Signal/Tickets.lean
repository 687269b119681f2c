import OpenStream.Lib.Text

/-!
# Relay tickets

A ticket is a code over the session and a claim, followed by the claim in clear. The code and the
digest of a proof are functions of their inputs.

* **`tickets_faithful`**: a minted ticket verifies as what it was minted for; what verifies was minted
  for that session; and where the code does not collide, a ticket stands for one claim on one session.
-/

namespace OpenStream.Signal

open Bytes Text Option

def MAX_SUBJECT_BYTES : ℕ := 64

/-- `host` or `client`. -/
def roleClass (host : Bool) : Str :=
  if host then [104, 111, 115, 116] else [99, 108, 105, 101, 110, 116]

/-- What a ticket says. -/
structure Verified where
  cls : Str
  subject : Str
  socketGeneration : ℕ
  proofDigest : Option Str
  deriving DecidableEq

namespace RelayTicket

/-- What the code is computed over after the class: the parts are separated by zero bytes, and a
digest follows `proof-digest-v1`. -/
def macTail (v : Verified) : Str :=
  0 :: v.subject ++ 0 :: be 8 v.socketGeneration ++ v.proofDigest.elim [] ([0, 112, 114, 111, 111, 102,
    45, 100, 105, 103, 101, 115, 116, 45, 118, 49, 0] ++ ·)

/-- What the code is computed over, after `relay-ticket-v2`. -/
def macInput (sessionId : Str) (v : Verified) : Str :=
  [114, 101, 108, 97, 121, 45, 116, 105, 99, 107, 101, 116, 45, 118, 50, 0] ++
    (sessionId ++ 0 :: v.cls ++ macTail v)

section

variable (hmac : Str → Str → Str) (sha256 : Str → Str) (secret sessionId : Str)

def mintWithDigest (v : Verified) : Str :=
  hex (hmac secret (macInput sessionId v)) ++ 46 :: (decimal v.socketGeneration ++ 46 ::
    (v.subject ++ v.proofDigest.elim [] (46 :: hex ·)))

def mint (cls subject : Str) (socketGeneration : ℕ) : Str :=
  mintWithDigest hmac secret sessionId ⟨cls, subject, socketGeneration, none⟩

/-- The digest of a proof, after `openstream relay proof v1` and a zero byte. -/
def proofDigest (proof : Str) : Str :=
  sha256 ([111, 112, 101, 110, 115, 116, 114, 101, 97, 109, 32, 114, 101, 108, 97, 121, 32, 112, 114,
    111, 111, 102, 32, 118, 49, 0] ++ proof)

def mintBound (cls subject : Str) (socketGeneration : ℕ) (proof : Str) : Str :=
  mintWithDigest hmac secret sessionId
    ⟨cls, subject, socketGeneration, some (proofDigest sha256 proof)⟩

end

def isSubjectByte (b : UInt8) : Bool :=
  isDigit b || (65 ≤ b && b ≤ 90) || (97 ≤ b && b ≤ 122) || b == 45 || b == 95 || b == 46

abbrev AllowedSubject (subject : Str) : Prop :=
  subject ≠ [] ∧ subject.length ≤ MAX_SUBJECT_BYTES ∧ subject.all isSubjectByte

/-- The subject and the digest of a proof, if one follows. -/
def splitProof (s : Str) : Option (Str × Option Str) :=
  match rsplitOnce 46 s with
  | some (subject, encoded) =>
    if encoded.length = 64 then (unhex encoded).map (subject, some ·) else some (s, none)
  | none => some (s, none)

/-- The claim that a ticket states in clear, for either class. -/
def read (ticket : Str) : Option (Str → Verified) := do
  let (mac, rest) ← splitOnce 46 ticket
  let (generationText, subjectAndProof) ← splitOnce 46 rest
  let socketGeneration ← parseU64 generationText
  let (subject, proofDigest) ← splitProof subjectAndProof
  if mac.length ≠ 64 ∨ socketGeneration = 0 ∨ decimal socketGeneration ≠ generationText ∨
    ¬AllowedSubject subject then none
  else some fun cls => ⟨cls, subject, socketGeneration, proofDigest⟩

def verify (hmac : Str → Str → Str) (secret sessionId ticket : Str) : Option Verified :=
  (read ticket).bind fun claim =>
    ([roleClass true, roleClass false].find? fun cls =>
      mintWithDigest hmac secret sessionId (claim cls) = ticket).map claim

/-- A claim that tickets are minted for. -/
structure Mintable (v : Verified) : Prop where
  cls : ∃ host, v.cls = roleClass host
  subject : AllowedSubject v.subject
  generation : 0 < v.socketGeneration ∧ v.socketGeneration < 2 ^ 64
  digest : ∀ d ∈ v.proofDigest, d.length = 32

variable {hmac : Str → Str → Str} {sha256 : Str → Str} {secret sessionId sessionId' ticket : Str}
  {v v' : Verified}

theorem splitProof_append (hsubject : v.subject.length ≤ MAX_SUBJECT_BYTES)
    (hdigest : ∀ d ∈ v.proofDigest, d.length = 32) :
    splitProof (v.subject ++ v.proofDigest.elim [] (46 :: hex ·)) =
      some (v.subject, v.proofDigest) := by
  unfold splitProof
  cases hd : v.proofDigest with
  | none =>
    -- what follows the last dot of a subject is too short to be a digest
    rw [elim_none, List.append_nil]
    split
    · rename_i subject encoded h
      have := length_of_rsplitOnce h
      rw [if_neg (by unfold MAX_SUBJECT_BYTES at hsubject; omega)]
    · rfl
  | some d =>
    have hlen : (hex d).length = 64 := by rw [length_hex, hdigest d hd]
    simp [elim_some, rsplitOnce_append (dot_notMem_hex d), hlen, unhex_hex]

variable (sessionId) in
theorem read_mintWithDigest (hlen : ∀ m, (hmac secret m).length = 32) (h : Mintable v) :
    read (mintWithDigest hmac secret sessionId v) = some fun cls => { v with cls := cls } := by
  have hdot : 46 ∉ decimal v.socketGeneration := fun hd =>
    absurd (isDigit_of_mem_decimal hd) (by decide)
  have hmac : (hex (hmac secret (macInput sessionId v))).length = 64 := by rw [length_hex, hlen]
  simp only [read, mintWithDigest, splitOnce_append (dot_notMem_hex _), splitOnce_append hdot,
    parseU64_decimal h.generation.2, splitProof_append h.subject.2.1 h.digest, bind_eq_bind,
    bind_some, hmac]
  have := h.generation.1
  have := h.subject
  grind

/-- The session and the class are told apart, whatever bytes a session id has. -/
theorem macInput_inj (hcls : ∃ host, v.cls = roleClass host) (hcls' : ∃ host, v'.cls = roleClass host)
    (hrest : { v with cls := v'.cls } = v') (h : macInput sessionId v = macInput sessionId' v') :
    sessionId = sessionId' ∧ v = v' := by
  obtain ⟨host, hcls⟩ := hcls
  obtain ⟨host', hcls'⟩ := hcls'
  have htail : macTail v = macTail v' := hrest ▸ rfl
  have hends := List.append_cancel_left h
  rw [htail] at hends
  replace hends := List.append_cancel_right hends
  have hhost : host = host' := by
    rw [hcls, hcls'] at hends
    replace hends := congrArg List.reverse hends
    revert hends
    cases host <;> cases host' <;> simp [roleClass]
  subst hhost
  rw [← hcls] at hcls'
  rw [hcls'] at hends hrest
  exact ⟨List.append_cancel_right hends, hrest⟩

theorem mintWithDigest_inj (hlen : ∀ m, (hmac secret m).length = 32) {messages : Set Str}
    (hfree : messages.InjOn (hmac secret)) (h : Mintable v) (h' : Mintable v')
    (hm : macInput sessionId v ∈ messages) (hm' : macInput sessionId' v' ∈ messages)
    (heq : mintWithDigest hmac secret sessionId v = mintWithDigest hmac secret sessionId' v') :
    sessionId = sessionId' ∧ v = v' := by
  have hread := read_mintWithDigest sessionId hlen h
  rw [heq, read_mintWithDigest sessionId' hlen h', some.injEq] at hread
  have hcode := (List.append_inj heq (by simp [hlen])).1
  exact macInput_inj h.cls h'.cls (congrFun hread v'.cls).symm (hfree hm hm' (hex_injective hcode))

theorem length_of_splitProof {s subject d : Str} (h : splitProof s = some (subject, some d)) :
    d.length = 32 := by
  unfold splitProof at h
  split at h
  · split_ifs at h with hlen
    · obtain ⟨d', hd, heq⟩ := map_eq_some_iff.mp h
      cases heq
      rw [length_of_unhex hd, hlen]
    · cases h
  · cases h

theorem mintable_of_verify (hsome : verify hmac secret sessionId ticket = some v) :
    ticket = mintWithDigest hmac secret sessionId v ∧ Mintable v := by
  obtain ⟨claim, hread, hfind⟩ := bind_eq_some_iff.mp hsome
  obtain ⟨cls, hcls, rfl⟩ := map_eq_some_iff.mp hfind
  simp only [read, bind_eq_bind, bind_eq_some_iff, ite_none_left_eq_some,
    some.injEq, not_or, not_not] at hread
  obtain ⟨first, -, second, -, generation, hparse, ⟨subject, digest⟩, hsplit,
    ⟨-, hpos, -, hsubject⟩, rfl⟩ := hread
  refine ⟨Eq.symm (by simpa using List.find?_some hcls), ⟨?_, hsubject, ⟨?_, ?_⟩, fun d hd => ?_⟩⟩
  · rcases List.mem_pair.mp (List.mem_of_find?_eq_some hcls) with rfl | rfl
    · exact ⟨true, rfl⟩
    · exact ⟨false, rfl⟩
  · exact Nat.pos_of_ne_zero hpos
  · simp only [parseU64, ite_none_right_eq_some, some.injEq] at hparse
    obtain ⟨⟨-, -, hlt⟩, rfl⟩ := hparse
    exact hlt
  · cases hd
    exact length_of_splitProof hsplit

theorem verify_mintWithDigest (hlen : ∀ m, (hmac secret m).length = 32) {messages : Set Str}
    (hfree : messages.InjOn (hmac secret)) (h : Mintable v)
    (hm : ∀ host, macInput sessionId { v with cls := roleClass host } ∈ messages) :
    verify hmac secret sessionId (mintWithDigest hmac secret sessionId v) = some v := by
  rw [verify, read_mintWithDigest sessionId hlen h, bind_some]
  obtain ⟨host, hcls⟩ := h.cls
  cases host with
  | true =>
    rw [← hcls]
    simp
  | false =>
    have hne : mintWithDigest hmac secret sessionId { v with cls := roleClass true } ≠
        mintWithDigest hmac secret sessionId v := fun he => by
      have hhost : Mintable { v with cls := roleClass true } :=
        ⟨⟨true, rfl⟩, h.subject, h.generation, h.digest⟩
      have hv := mintWithDigest_inj hlen hfree hhost h (hm true)
        (by simpa only [← hcls] using hm false) he
      have hcls' : roleClass true = roleClass false := (congrArg Verified.cls hv.2).trans hcls
      exact absurd hcls' (by decide)
    rw [← hcls]
    simp [hne]

/-- **Tickets are faithful and unforgeable.** -/
theorem tickets_faithful (hlen : ∀ m, (hmac secret m).length = 32) {messages : Set Str}
    (hfree : messages.InjOn (hmac secret)) (hsha : ∀ m, (sha256 m).length = 32) :
    (∀ sessionId host subject generation, AllowedSubject subject → 0 < generation →
      generation < 2 ^ 64 → ∀ proof : Option Str, (∀ cls, macInput sessionId
        ⟨roleClass cls, subject, generation, proof.map (proofDigest sha256)⟩ ∈ messages) →
      verify hmac secret sessionId (proof.elim
          (mint hmac secret sessionId (roleClass host) subject generation)
          (mintBound hmac sha256 secret sessionId (roleClass host) subject generation)) =
        some ⟨roleClass host, subject, generation, proof.map (proofDigest sha256)⟩) ∧
    (∀ sessionId ticket v, verify hmac secret sessionId ticket = some v →
      ticket = mintWithDigest hmac secret sessionId v) ∧
    ∀ sessionId sessionId' ticket v v', verify hmac secret sessionId ticket = some v →
      verify hmac secret sessionId' ticket = some v' → macInput sessionId v ∈ messages →
      macInput sessionId' v' ∈ messages → sessionId = sessionId' ∧ v = v' := by
  refine ⟨fun sessionId host subject generation hsubject hpos hlt proof hm => ?_,
    fun _ _ _ h => (mintable_of_verify h).1, fun _ _ _ _ _ h h' hm hm' => ?_⟩
  · have hv : Mintable ⟨roleClass host, subject, generation, proof.map (proofDigest sha256)⟩ := by
      refine ⟨⟨host, rfl⟩, hsubject, ⟨hpos, hlt⟩, fun d hd => ?_⟩
      obtain ⟨p, -, rfl⟩ := map_eq_some_iff.mp hd
      exact hsha _
    cases proof <;> exact verify_mintWithDigest hlen hfree hv hm
  · obtain ⟨ht, hv⟩ := mintable_of_verify h
    obtain ⟨ht', hv'⟩ := mintable_of_verify h'
    exact mintWithDigest_inj hlen hfree hv hv' hm hm' (ht.symm.trans ht')

/-- A code that only tells lengths apart. -/
def lengthCode (_ m : Str) : Str := List.replicate 32 (UInt8.ofNat m.length)

/-- A guest whose id has a dot. -/
theorem tickets_faithful_dotted :
    verify lengthCode [7] [115] (mint lengthCode [7] [115] (roleClass false) [103, 46, 49] 2) =
      some ⟨roleClass false, [103, 46, 49], 2, none⟩ := by
  have hlen (k m : Str) : (lengthCode k m).length = 32 := List.length_replicate
  have hfree : Set.InjOn (lengthCode [7])
      {m | ∃ host, m = macInput [115] ⟨roleClass host, [103, 46, 49], 2, none⟩} := by
    rintro _ ⟨_ | _, rfl⟩ _ ⟨_ | _, rfl⟩ h <;> revert h <;> decide
  exact (tickets_faithful (hlen [7]) hfree (hlen [])).1 [115] false [103, 46, 49] 2 (by decide)
    (by decide) (by decide) none fun host => ⟨host, rfl⟩

end RelayTicket

end OpenStream.Signal
