import Mathlib.Tactic.Common
import WebRtc.Lib.BigEndian

/-! `rtc::ByteBufferReader` and `rtc::ByteBufferWriter` in network order (`bytebuffer.cc`). A reader
is the list of its unprocessed bytes and a writer the list of the bytes written, so that what a
writer puts in front of other bytes a reader takes off again. -/

namespace WebRtc.ByteBuffer

open BigEndian

abbrev Byte := BitVec 8

/-- A function that reads from the buffer; `none` when it returns false. -/
abbrev Reader := StateT (List Byte) Option

/-- `Length()`. -/
def length : Reader Nat := fun buf => some (buf.length, buf)

/-- `ReadBytes(val, len)`, and `ReadString(val, len)` but for what `val` held before. -/
def readBytes (len : Nat) : Reader (List Byte) := fun buf =>
  if len > buf.length then none else some (buf.take len, buf.drop len)

/-- `Consume(size)`. -/
def consume (size : Nat) : Reader Unit := fun buf =>
  if size > buf.length then none else some ((), buf.drop size)

def readUInt8 : Reader Byte
  | b :: buf => some (b, buf)
  | [] => none

def readUInt16 : Reader (BitVec 16)
  | a :: b :: buf => some (be16 a b, buf)
  | _ => none

def readUInt32 : Reader (BitVec 32) := fun buf => do
  let (hi, buf) ← readUInt16 buf
  let (lo, buf) ← readUInt16 buf
  return (be32 hi lo, buf)

def readUInt64 : Reader (BitVec 64) := fun buf => do
  let (hi, buf) ← readUInt32 buf
  let (lo, buf) ← readUInt32 buf
  return (be64 hi lo, buf)

/-! ## What is written is read back -/

variable (rest : List Byte)

@[simp] theorem readUInt8_cons (b : Byte) : readUInt8 (b :: rest) = some (b, rest) := rfl

@[simp] theorem readUInt16_write16 (v : BitVec 16) :
    readUInt16 (write16 v ++ rest) = some (v, rest) := by
  simp [write16, readUInt16]

@[simp] theorem readUInt32_write32 (v : BitVec 32) :
    readUInt32 (write32 v ++ rest) = some (v, rest) := by
  simp [readUInt32, write32]

@[simp] theorem readUInt64_write64 (v : BitVec 64) :
    readUInt64 (write64 v ++ rest) = some (v, rest) := by
  simp [readUInt64, write64]

theorem readBytes_of_le {len : Nat} {buf : List Byte} (h : len ≤ buf.length) :
    readBytes len buf = some (buf.take len, buf.drop len) :=
  if_neg (Nat.not_lt.mpr h)

@[simp] theorem readBytes_append (bytes : List Byte) :
    readBytes bytes.length (bytes ++ rest) = some (bytes, rest) := by
  simp [readBytes]

/-! ## How much a reader takes -/

/-- The first `n` bytes were taken off. -/
structure Takes (n : Nat) (buf rest : List Byte) : Prop where
  inside : n ≤ buf.length
  eq_drop : rest = buf.drop n

variable {buf rest : List Byte}

theorem Takes.length {n : Nat} (h : Takes n buf rest) :
    rest.length + n = buf.length := by
  have hinside := h.inside
  rw [h.eq_drop, List.length_drop]
  omega

theorem Takes.trans {n m : Nat} {a b c : List Byte} (h : Takes n a b) (h' : Takes m b c) :
    Takes (n + m) a c := by
  have hlen := h.length
  refine ⟨by have := h'.inside; omega, ?_⟩
  rw [h'.eq_drop, h.eq_drop, List.drop_drop]

theorem readUInt8_takes {v : Byte} (h : readUInt8 buf = some (v, rest)) :
    Takes 1 buf rest := by
  cases buf with
  | nil => cases h
  | cons b buf =>
    cases h
    exact ⟨by simp, rfl⟩

theorem readUInt16_takes {v : BitVec 16} (h : readUInt16 buf = some (v, rest)) :
    Takes 2 buf rest := by
  rcases buf with _ | ⟨a, _ | ⟨b, buf⟩⟩
  · cases h
  · cases h
  · cases h
    exact ⟨by simp, rfl⟩

theorem readUInt32_takes {v : BitVec 32} (h : readUInt32 buf = some (v, rest)) :
    Takes 4 buf rest := by
  obtain ⟨⟨hi, _⟩, hhi, h⟩ := Option.bind_eq_some_iff.mp h
  obtain ⟨⟨_, _⟩, hlo, h⟩ := Option.bind_eq_some_iff.mp h
  cases h
  exact (readUInt16_takes hhi).trans (readUInt16_takes hlo)

theorem readUInt64_takes {v : BitVec 64} (h : readUInt64 buf = some (v, rest)) :
    Takes 8 buf rest := by
  obtain ⟨⟨hi, _⟩, hhi, h⟩ := Option.bind_eq_some_iff.mp h
  obtain ⟨⟨_, _⟩, hlo, h⟩ := Option.bind_eq_some_iff.mp h
  cases h
  exact (readUInt32_takes hhi).trans (readUInt32_takes hlo)

theorem readBytes_takes {len : Nat} {bytes : List Byte}
    (h : readBytes len buf = some (bytes, rest)) : Takes len buf rest := by
  unfold readBytes at h
  split at h
  · cases h
  rename_i hle
  cases h
  exact ⟨Nat.not_lt.mp hle, rfl⟩

theorem consume_takes {size : Nat} {u : Unit} (h : consume size buf = some (u, rest)) :
    Takes size buf rest := by
  unfold consume at h
  split at h
  · cases h
  rename_i hle
  cases h
  exact ⟨Nat.not_lt.mp hle, rfl⟩

end WebRtc.ByteBuffer
