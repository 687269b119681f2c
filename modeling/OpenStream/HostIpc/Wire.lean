import OpenStream.Lib.Bytes

/-!
# The wire of the host broker

Big-endian numbers and byte strings with a length before them.

* `Reader`: reads from a buffer or fails; `Reader.finish` refuses bytes that are left over.
-/

namespace OpenStream.HostIpc

open Bytes

inductive DecodeError
  | truncated
  | badTag (tag : UInt8)
  | trailingBytes
  | tooLong
  deriving DecidableEq

def MAX_FIELD_LEN : ℕ := 2 * 1024 * 1024

namespace Writer

def u32 (x : ℕ) : Str := be 4 x

def u64 (x : ℕ) : Str := be 8 x

def u128 (x : ℕ) : Str := be 16 x

def bytes (value : Str) : Str :=
  let len := min value.length (2 ^ 32 - 1)
  u32 len ++ value.take len

end Writer

abbrev Reader := StateT Str (Except DecodeError)

namespace Reader

def take (n : ℕ) : Reader Str := fun buf =>
  if n ≤ buf.length then .ok (buf.take n, buf.drop n) else .error .truncated

def number (n : ℕ) : Reader ℕ := do return ofBe (← take n)

def tag : Reader ℕ := number 1

def u32 : Reader ℕ := number 4

def u64 : Reader ℕ := number 8

def u128 : Reader ℕ := number 16

def bytes : Reader Str := do
  let len ← u32
  if MAX_FIELD_LEN < len then throw .tooLong
  take len

def finish : Reader Unit := fun buf =>
  if buf.isEmpty then .ok ((), buf) else .error .trailingBytes

end Reader

end OpenStream.HostIpc
