import OpenStream.Lowlat.Basic

/-!
# Message framing and fragmentation

A message is the byte stream `[u32 be total_length][header][payload]`, cut into fragments of
`body_capacity` bytes.

* **`Message.fragment_eq`**
-/

namespace OpenStream.Lowlat

open Bytes List

def LENGTH_PREFIX_LEN : ℕ := 4

def fragmentCount (totalLen bodyCapacity : ℕ) : ℕ :=
  if bodyCapacity = 0 then 0
  else
    let stream := totalLen + LENGTH_PREFIX_LEN
    let whole := stream / bodyCapacity
    if stream % bodyCapacity = 0 then whole else whole + 1

def parseLengthPrefix (firstBody : Str) : Except Error ℕ :=
  match ofBe32 (firstBody.take LENGTH_PREFIX_LEN) with
  | some total => .ok total
  | none => .error .badLength

/-- An outbound message; its length fits the prefix. -/
structure Message where
  header : Str
  payload : Str
  total_lt : header.length + payload.length < 2 ^ 32

/-- A fragment as written into the caller's buffer. -/
structure Fragment where
  body : Str
  last : Bool

namespace Message

def new (header payload : Str) : Except Error Message :=
  if h : header.length + payload.length < 2 ^ 32 then .ok ⟨header, payload, h⟩
  else .error .badLength

def empty : Message := ⟨[], [], by decide⟩

variable (m : Message)

def totalLen : ℕ := m.header.length + m.payload.length

def streamLen : ℕ := LENGTH_PREFIX_LEN + m.header.length + m.payload.length

def content : Str := m.header ++ m.payload

def byteAt (position : ℕ) : Option UInt8 :=
  if position < LENGTH_PREFIX_LEN then (be32 m.totalLen)[position]?
  else
    let position := position - LENGTH_PREFIX_LEN
    if position < m.header.length then m.header[position]?
    else m.payload[position - m.header.length]?

/-- Write fragment `index` into a buffer of `outLen` bytes. The checked product of the source only
overflows where `start` is past the end, which gives the same `none`. -/
def fragment (index bodyCapacity outLen : ℕ) : Option (Except Error Fragment) :=
  if bodyCapacity = 0 then some (.error .badLength)
  else
    let start := index * bodyCapacity
    if m.streamLen ≤ start then none
    else
      let stop := min (start + bodyCapacity) m.streamLen
      let len := stop - start
      if outLen < len then some (.error .bufferTooSmall)
      else
        match (List.range len).mapM fun offset => m.byteAt (start + offset) with
        | none => some (.error .badLength)
        | some bytes => some (.ok ⟨bytes, stop = m.streamLen⟩)

/-! ## The stream -/

def stream : Str := be32 m.totalLen ++ m.content

theorem length_stream : m.stream.length = m.streamLen := by
  simp [stream, content, streamLen, LENGTH_PREFIX_LEN, Nat.add_assoc]

theorem byteAt_eq (i : ℕ) : m.byteAt i = m.stream[i]? := by
  unfold byteAt stream content LENGTH_PREFIX_LEN
  by_cases h1 : i < 4
  · rw [if_pos h1, getElem?_append_left (by simpa using h1)]
  · rw [if_neg h1, getElem?_append_right (by simpa using h1), length_be32]
    by_cases h2 : i - 4 < m.header.length
    · rw [getElem?_append_left h2]
      exact if_pos h2
    · rw [getElem?_append_right (by omega)]
      exact if_neg h2

theorem mapM_getElem? {α : Type} (l : List α) (start : ℕ) : ∀ (len : ℕ), start + len ≤ l.length →
    ((range len).mapM fun offset => l[start + offset]?) = some ((l.drop start).take len)
  | 0, _ => by simp
  | len + 1, h => by
    rw [range_succ, mapM_append, mapM_getElem? l start len (by omega)]
    have hi : start + len < l.length := by omega
    simp only [mapM_cons, mapM_nil, getElem?_eq_getElem hi, Option.pure_def,
      Option.bind_eq_bind, Option.bind_some]
    rw [take_add_one, getElem?_drop, getElem?_eq_getElem hi]
    rfl

/-- **A fragment is a slice of the stream.** -/
theorem fragment_eq {index c outLen : ℕ} (hc : 0 < c) (hi : index * c < m.streamLen)
    (ho : c ≤ outLen) :
    ∃ last, m.fragment index c outLen = some (.ok ⟨slice c m.stream index, last⟩) := by
  refine ⟨decide (min (index * c + c) m.streamLen = m.streamLen), ?_⟩
  unfold fragment
  rw [if_neg (by omega)]
  rw [if_neg (by omega), if_neg (by omega)]
  simp only [byteAt_eq]
  rw [mapM_getElem? m.stream (index * c) _ (by rw [length_stream]; omega)]
  simp only [slice, Option.some.injEq, Except.ok.injEq, Fragment.mk.injEq, and_true]
  have hl := m.length_stream
  rcases le_total (index * c + c) m.streamLen with h | h
  · rw [min_eq_left h]
    congr 1
    omega
  · rw [min_eq_right h, take_of_length_le (by rw [length_drop]; omega),
      take_of_length_le (by rw [length_drop]; omega)]

/-! ## All fragments -/

def fragments (c : ℕ) : List Str := slices c (fragmentCount m.totalLen c) m.stream

theorem length_fragments (c : ℕ) : (m.fragments c).length = fragmentCount m.totalLen c :=
  length_slices c _ m.stream

theorem streamLen_eq : m.totalLen + LENGTH_PREFIX_LEN = m.streamLen := by
  simp [totalLen, streamLen]
  omega

theorem fragmentCount_spec {c : ℕ} (hc : 0 < c) (i : ℕ) :
    i < fragmentCount m.totalLen c ↔ i * c < m.streamLen := by
  unfold fragmentCount
  rw [if_neg (by omega)]
  simp only [streamLen_eq]
  split_ifs with h
  · obtain ⟨q, hq⟩ := Nat.dvd_of_mod_eq_zero h
    rw [hq, Nat.mul_div_cancel_left q hc, Nat.mul_comm i c]
    exact (Nat.mul_lt_mul_left hc).symm
  · rw [Nat.lt_add_one_iff, Nat.le_div_iff_mul_le hc]
    constructor
    · intro hle
      rcases Nat.lt_or_eq_of_le hle with hlt | heq
      · exact hlt
      · exact absurd (by rw [← heq]; simp) h
    · exact le_of_lt

theorem flatten_fragments {c : ℕ} (hc : 0 < c) : (m.fragments c).flatten = m.stream := by
  apply flatten_slices
  rw [length_stream]
  by_contra h
  have := (m.fragmentCount_spec hc (fragmentCount m.totalLen c)).mpr (by omega)
  omega

theorem fragment_ne_nil {c : ℕ} (hc : 0 < c) : ∀ f ∈ m.fragments c, f ≠ [] := by
  intro f hf
  simp only [fragments, slices, mem_map, mem_range] at hf
  obtain ⟨i, hi, rfl⟩ := hf
  exact slice_ne_nil hc (by rw [length_stream]; exact (m.fragmentCount_spec hc i).mp hi)

theorem length_fragment_le {c : ℕ} : ∀ f ∈ m.fragments c, f.length ≤ c := by
  intro f hf
  simp only [fragments, slices, mem_map, mem_range] at hf
  obtain ⟨i, _, rfl⟩ := hf
  exact length_slice_le c _ i

theorem length_fragment_body {index c outLen : ℕ} {f : Fragment}
    (h : m.fragment index c outLen = some (.ok f)) : f.body.length ≤ c := by
  unfold fragment at h
  simp only [byteAt_eq] at h
  split at h
  · cases h
  split at h
  · cases h
  next hstart =>
    split at h
    · cases h
    rw [mapM_getElem? m.stream (index * c) _ (by rw [length_stream]; omega)] at h
    cases h
    rw [length_take, length_drop]
    omega

theorem fragments_eq_cons {c : ℕ} (hc : 0 < c) : ∃ f fs, m.fragments c = f :: fs := by
  refine exists_cons_of_ne_nil fun hnil => ?_
  have h0 := (m.fragmentCount_spec hc 0).mpr (by rw [← m.streamLen_eq, LENGTH_PREFIX_LEN]; omega)
  rw [← m.length_fragments, hnil] at h0
  exact Nat.not_lt_zero 0 h0

theorem drop_stream : m.stream.drop LENGTH_PREFIX_LEN = m.content := by
  exact drop_left' (length_be32 _)

theorem length_of_ofBe32 : ∀ {l : Str} {x : ℕ}, ofBe32 l = some x → l.length = 4
  | [_, _, _, _], _, _ => rfl

theorem parse_head {c total : ℕ} {f : Str} {fs : List Str} (hfs : m.fragments c = f :: fs)
    (hp : parseLengthPrefix f = .ok total) : total = m.totalLen ∧ LENGTH_PREFIX_LEN ≤ f.length := by
  have hf : f = m.stream.take c := by
    have h0 := congrArg head? hfs
    cases hk : fragmentCount m.totalLen c with
    | zero => simp [fragments, hk, slices] at hfs
    | succ k =>
      rw [fragments, hk, slices_succ] at h0
      simpa using h0.symm
  unfold parseLengthPrefix at hp
  split at hp
  · rename_i x hx
    cases hp
    have hlen := length_of_ofBe32 hx
    rw [length_take] at hlen
    have h4 : LENGTH_PREFIX_LEN ≤ f.length := by
      rw [LENGTH_PREFIX_LEN] at hlen ⊢
      omega
    have hc : LENGTH_PREFIX_LEN ≤ c := by
      rw [hf, length_take] at h4
      omega
    rw [hf, take_take, min_eq_left hc, stream, LENGTH_PREFIX_LEN,
      take_left' (length_be32 _)] at hx
    have ht : m.totalLen < 2 ^ 32 := m.total_lt
    rw [ofBe32_be32 ht] at hx
    cases hx
    exact ⟨rfl, h4⟩
  · cases hp

end Message

end OpenStream.Lowlat
