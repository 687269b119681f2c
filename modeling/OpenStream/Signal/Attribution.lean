import Mathlib.Data.List.DropRight
import OpenStream.Lib.Text

/-!
# Where a request comes from

A request is attributed to its peer or, behind the operator's proxies, to the hop that these vouch for.

* **`appended_hop_attributed`**: a request is attributed to the hop that trusted proxies appended
  exactly if the fields that are text end in it. **`opaque_byte_hides_client`**: one byte can drop it.
-/

namespace OpenStream.Signal

open Bytes Text

variable {Addr : Type*} [DecidableEq Addr]

variable (parse : Str → Option Addr)

def isVisibleAscii (b : UInt8) : Bool := 32 ≤ b && b < 127 || b == 9

def toStr (value : Str) : Option Str := if value.all isVisibleAscii then some value else none

def isWhitespace (b : UInt8) : Bool := b == 32 || 9 ≤ b && b ≤ 13

def trim (s : Str) : Str := (s.dropWhile isWhitespace).rdropWhile isWhitespace

def entries (field : Str) : List Str := field.splitOn 0x2c

/-- The walk over the entries, nearest hop first: an entry that is no address ends it. -/
def walk (trustedProxies : List Addr) (attributed : Addr) : List Str → Addr
  | [] => attributed
  | entry :: rest =>
    match parse entry with
    | none => attributed
    | some candidate =>
      if candidate ∈ trustedProxies then walk trustedProxies candidate rest else candidate

/-- The address a request is attributed to, given the fields of its forwarding header. -/
def requestSource (peer : Addr) (headers : List Str) (trustedProxies : List Addr) : Addr :=
  if peer ∉ trustedProxies then peer
  else walk parse trustedProxies peer (((headers.filterMap toStr).flatMap entries).map trim).reverse

/-- The list that some fields spell ends in what trusted proxies appended: an address that is not
theirs, and after it only theirs. -/
def EndsIn (trustedProxies : List Addr) (fields : List Str) (client : Addr) : Prop :=
  client ∉ trustedProxies ∧ ∃ left entry proxies, fields.flatMap entries = left ++ entry :: proxies ∧
    parse (trim entry) = some client ∧ ∀ p ∈ proxies, ∃ a ∈ trustedProxies, parse (trim p) = some a

variable {parse} {trustedProxies : List Addr} {peer client : Addr} {headers : List Str}

/-- The walk comes to an address that is not trusted exactly if only trusted ones precede it. -/
theorem walk_eq_iff (hpeer : peer ∈ trustedProxies) (hclient : client ∉ trustedProxies)
    {l : List Str} : walk parse trustedProxies peer l = client ↔
      ∃ proxies entry rest, l = proxies ++ entry :: rest ∧ parse entry = some client ∧
        ∀ p ∈ proxies, ∃ a ∈ trustedProxies, parse p = some a := by
  constructor
  · intro h
    induction l generalizing peer with
    | nil =>
      cases h
      exact absurd hpeer hclient
    | cons entry l ih =>
      unfold walk at h
      split at h
      · exact absurd (h ▸ hpeer) hclient
      next candidate hentry =>
        split_ifs at h with htrusted
        · obtain ⟨proxies, last, rest, rfl, hlast, hproxies⟩ := ih htrusted h
          refine ⟨entry :: proxies, last, rest, rfl, hlast, fun p hp => ?_⟩
          rcases List.mem_cons.mp hp with rfl | hp
          · exact ⟨candidate, htrusted, hentry⟩
          · exact hproxies p hp
        · cases h
          exact ⟨[], entry, l, rfl, hentry, nofun⟩
  · rintro ⟨proxies, entry, rest, rfl, hentry, hproxies⟩
    induction proxies generalizing peer with
    | nil => simp [walk, hentry, hclient]
    | cons p proxies ih =>
      obtain ⟨a, ha, hp⟩ := hproxies p List.mem_cons_self
      simp only [List.cons_append, walk, hp, if_pos ha]
      exact ih ha fun q hq => hproxies q (List.mem_cons_of_mem p hq)

/-- **A request is attributed to an address exactly if its fields that are text end in it.** -/
theorem requestSource_eq_iff (hpeer : peer ∈ trustedProxies) (hclient : client ∉ trustedProxies) :
    requestSource parse peer headers trustedProxies = client ↔
      EndsIn parse trustedProxies (headers.filterMap toStr) client := by
  rw [requestSource, if_neg (not_not.mpr hpeer), walk_eq_iff hpeer hclient, EndsIn,
    and_iff_right hclient]
  generalize (headers.filterMap toStr).flatMap entries = l
  constructor
  · rintro ⟨proxies, entry, rest, hl, hentry, hproxies⟩
    rw [List.reverse_eq_iff, List.reverse_append, List.reverse_cons, List.append_assoc,
      List.singleton_append] at hl
    obtain ⟨left, tail, rfl, -, htail⟩ := List.map_eq_append_iff.mp hl
    obtain ⟨entry, proxies, rfl, rfl, hmap⟩ := List.map_eq_cons_iff.mp htail
    refine ⟨left, entry, proxies, rfl, hentry, fun p hp => hproxies _ ?_⟩
    rw [← List.mem_reverse, ← hmap]
    exact List.mem_map_of_mem hp
  · rintro ⟨left, entry, proxies, rfl, hentry, hproxies⟩
    exact ⟨(proxies.map trim).reverse, trim entry, (left.map trim).reverse, by simp, hentry,
      by simpa using hproxies⟩

omit [DecidableEq Addr] in
theorem EndsIn.readable {before after : List Str} (h : EndsIn parse trustedProxies after client)
    (htext : ∀ field ∈ after, (toStr field).isSome) :
    EndsIn parse trustedProxies ((before ++ after).filterMap toStr) client := by
  obtain ⟨hclient, left, entry, proxies, hlist, hentry, hproxies⟩ := h
  have hread : after.filterMap toStr = after := by
    rw [List.filterMap_congr (g := some) fun f hf => ?_, List.filterMap_some]
    have := htext f hf
    grind [toStr]
  refine ⟨hclient, (before.filterMap toStr).flatMap entries ++ left, entry, proxies, ?_, hentry,
    hproxies⟩
  rw [List.filterMap_append, hread, List.flatMap_append, hlist, List.append_assoc]

/-- **A request is attributed to the hop that trusted proxies appended, exactly if the fields that
are text still end in it**: so if the fields the proxies wrote in are text, whatever the client wrote.
Two such requests have one source. -/
theorem appended_hop_attributed (hpeer : peer ∈ trustedProxies)
    (hends : EndsIn parse trustedProxies headers client) :
    (requestSource parse peer headers trustedProxies = client ↔
        EndsIn parse trustedProxies (headers.filterMap toStr) client) ∧
      (∀ before after, headers = before ++ after → EndsIn parse trustedProxies after client →
        (∀ field ∈ after, (toStr field).isSome) →
        requestSource parse peer headers trustedProxies = client) ∧
      ∀ headers', EndsIn parse trustedProxies (headers.filterMap toStr) client →
        EndsIn parse trustedProxies (headers'.filterMap toStr) client →
        requestSource parse peer headers' trustedProxies =
          requestSource parse peer headers trustedProxies := by
  have hiff (fields : List Str) : requestSource parse peer fields trustedProxies = client ↔
      EndsIn parse trustedProxies (fields.filterMap toStr) client :=
    requestSource_eq_iff hpeer hends.1
  refine ⟨hiff headers, ?_, fun headers' hread hread' => ?_⟩
  · rintro before after rfl hafter htext
    exact (hiff _).mpr (hafter.readable htext)
  · rw [(hiff headers).mpr hread, (hiff headers').mpr hread']

def octet (s : Str) : Option ℕ :=
  if s ≠ [] ∧ s.length ≤ 3 ∧ s.all isDigit ∧ (1 < s.length → s.head? ≠ some 48) ∧ natOf s < 256 then
    some (natOf s)
  else none

def parseIpv4 (s : Str) : Option (List ℕ) :=
  let parts := s.splitOn 0x2e
  if parts.length = 4 then parts.mapM octet else none

def clientText : Str := [49, 57, 56, 46, 53, 49, 46, 49, 48, 48, 46, 52, 50]

/-- Junk in a field that the proxy extends. -/
theorem appended_hop_attributed_junk :
    requestSource parseIpv4 [192, 0, 2, 7] ([[0xff]] ++ [[60, 0x2c, 32] ++ clientText])
      [[192, 0, 2, 7]] = [198, 51, 100, 42] :=
  (appended_hop_attributed (by decide)
    ⟨by decide, [[0xff], [60]], 32 :: clientText, [], by decide +kernel, by decide +kernel,
      by simp⟩).2.1 [[0xff]] [[60, 0x2c, 32] ++ clientText] rfl
    ⟨by decide, [[60]], 32 :: clientText, [], by decide +kernel, by decide +kernel, by simp⟩
    (by decide)

/-- **A byte that is not text hides the whole field it stands in**, the proxy's entry with it, and
the request is attributed to the proxy. -/
theorem opaque_byte_hides_client :
    EndsIn parseIpv4 [[192, 0, 2, 7]] [[0xff, 0x2c] ++ clientText] [198, 51, 100, 42] ∧
      requestSource parseIpv4 [192, 0, 2, 7] [[0xff, 0x2c] ++ clientText] [[192, 0, 2, 7]] =
        [192, 0, 2, 7] :=
  ⟨⟨by decide, [[0xff]], clientText, [], by decide +kernel, by decide +kernel, by simp⟩,
    by decide +kernel⟩

end OpenStream.Signal
