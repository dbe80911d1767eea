import Mathlib.Algebra.BigOperators.Ring.Nat

/-! `rtc::BitBuffer` (`webrtc/base/bitbuffer.cc`): reading fields of up to 32 bits from a byte
buffer, most significant bit first. The buffer is the list of its bytes. A reader is a state
transformer that can fail, as `RETURN_FALSE_ON_ERROR` uses it. -/

namespace WebRtc.Bits

abbrev Byte := BitVec 8

/-- `LowestBits(byte, bit_count)`. -/
def lowestBits (byte : Byte) (bitCount : Nat) : Byte := byte &&& BitVec.ofNat 8 (2 ^ bitCount - 1)

/-- `HighestBits(byte, bit_count)`. -/
def highestBits (byte : Byte) (bitCount : Nat) : Byte :=
  (byte &&& (0xFF#8 <<< (8 - bitCount))) >>> (8 - bitCount)

/-- The bit offset is the offset into the current byte. -/
structure BitBuffer where
  bytes : List Byte
  byteOffset : Nat := 0
  bitOffset : Fin 8 := 0

/-- `BitBuffer(bytes, byte_count)`, at the first bit. -/
def BitBuffer.start (bytes : List Byte) : BitBuffer := ⟨bytes, 0, ⟨0, Nat.zero_lt_succ 7⟩⟩

abbrev Reader := StateT BitBuffer Option

/-- `RemainingBitCount()`. -/
def remainingBitCount (b : BitBuffer) : Nat := (b.bytes.length - b.byteOffset) * 8 - b.bitOffset.val

/-- The loop over full bytes of `PeekBits`, with the bits of a last, partial byte. -/
def peekBytes (bits : BitVec 32) : List Byte → Nat → BitVec 32
  | [], _ => bits
  | byte :: bytes, bitCount =>
    if 8 ≤ bitCount then peekBytes ((bits <<< 8) ||| byte.setWidth 32) bytes (bitCount - 8)
    else if 0 < bitCount then (bits <<< bitCount) ||| (highestBits byte bitCount).setWidth 32
    else bits

/-- `PeekBits(val, bit_count)`. -/
def peekBits (b : BitBuffer) (bitCount : Nat) : Option (BitVec 32) :=
  if bitCount > remainingBitCount b ∨ bitCount > 32 then none
  else
    let bytes := b.bytes.drop b.byteOffset
    let remainingBits := 8 - b.bitOffset.val
    let bits := lowestBits (bytes.headD 0) remainingBits
    if bitCount < remainingBits then
      some ((highestBits bits (b.bitOffset.val + bitCount)).setWidth 32)
    else some (peekBytes (bits.setWidth 32) bytes.tail (bitCount - remainingBits))

/-- `ConsumeBits(bit_count)`. -/
def consumeBits (bitCount : Nat) : Reader Unit := fun b =>
  if bitCount > remainingBitCount b then none
  else some ((), { b with
    byteOffset := b.byteOffset + (b.bitOffset.val + bitCount) / 8
    bitOffset := ⟨(b.bitOffset.val + bitCount) % 8, Nat.mod_lt _ (by decide)⟩ })

/-- `ReadBits(val, bit_count)`. -/
def readBits (bitCount : Nat) : Reader (BitVec 32) := fun b => do
  let val ← peekBits b bitCount
  let (_, b) ← consumeBits bitCount b
  return (val, b)

/-- `ReadUInt8(val)`. -/
def readUInt8 : Reader (BitVec 8) := do
  let val ← readBits 8
  return val.setWidth 8

/-- `ReadUInt16(val)`. -/
def readUInt16 : Reader (BitVec 16) := do
  let val ← readBits 16
  return val.setWidth 16

/-- The loop of `ReadExponentialGolomb` over the leading zeros, with the number of bits that are left
as fuel: the zeros counted, and the buffer behind them. -/
def skipZeros : Nat → BitBuffer → Nat × BitBuffer
  | 0, b => (0, b)
  | fuel + 1, b =>
    match peekBits b 1, consumeBits 1 b with
    | some bit, some (_, next) =>
      if bit = 0 then ((skipZeros fuel next).1 + 1, (skipZeros fuel next).2) else (0, b)
    | _, _ => (0, b)

/-- `ReadExponentialGolomb(val)`. -/
def readExponentialGolomb : Reader (BitVec 32) := fun b => do
  let (zeroBitCount, next) := skipZeros (remainingBitCount b) b
  let valueBitCount := zeroBitCount + 1
  if valueBitCount > 32 then none
  else
    let (val, next) ← readBits valueBitCount next
    return (val - 1, next)

/-- `Seek(byte_offset, bit_offset)`. -/
def seek (byteOffset bitOffset : Nat) (b : BitBuffer) : Option BitBuffer :=
  if h : bitOffset < 8 then
    if byteOffset > b.bytes.length ∨ byteOffset = b.bytes.length ∧ bitOffset > 0 then none
    else some { b with byteOffset := byteOffset, bitOffset := ⟨bitOffset, h⟩ }
  else none

/-- Peel one read off a reader that succeeded. -/
theorem bind_eq_some {α β : Type} {x : Reader α} {f : α → Reader β} {b b' : BitBuffer} {r : β}
    (h : (x >>= f) b = some (r, b')) : ∃ a b₁, x b = some (a, b₁) ∧ f a b₁ = some (r, b') := by
  obtain ⟨⟨a, b₁⟩, hx, hf⟩ := Option.bind_eq_some_iff.mp h
  exact ⟨a, b₁, hx, hf⟩

end WebRtc.Bits
