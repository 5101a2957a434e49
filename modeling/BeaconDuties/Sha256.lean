import BeaconDuties.Bytes

/-!
# Sha256 — the digest behind every pseudorandom choice

SHA-256 over a byte array: the message is padded to whole 64-byte blocks, each block is expanded
to a schedule of 64 words, and the schedule is folded into a state of eight words.

* `Sha256.pad` — the message, the bit `1`, zeros, and the bit length in eight bytes;
* `Sha256.schedule` — the 64 words of one block;
* `Sha256.compress` — one block folded into the state;
* `Sha256.hash` — the digest of a message.

The rest of the library treats `hash` as some fixed function from byte arrays to 32 bytes.
-/

namespace BeaconDuties

namespace Sha256

/-! ## Words -/

@[inline] def rotateRight (word amount : UInt32) : UInt32 :=
  (word >>> amount) ||| (word <<< (32 - amount))

/-- The mix of a schedule word 15 places back. -/
@[inline] def smallSigma0 (word : UInt32) : UInt32 :=
  rotateRight word 7 ^^^ rotateRight word 18 ^^^ (word >>> 3)

/-- The mix of a schedule word 2 places back. -/
@[inline] def smallSigma1 (word : UInt32) : UInt32 :=
  rotateRight word 17 ^^^ rotateRight word 19 ^^^ (word >>> 10)

/-- The mix of the first word of the state. -/
@[inline] def bigSigma0 (word : UInt32) : UInt32 :=
  rotateRight word 2 ^^^ rotateRight word 13 ^^^ rotateRight word 22

/-- The mix of the fifth word of the state. -/
@[inline] def bigSigma1 (word : UInt32) : UInt32 :=
  rotateRight word 6 ^^^ rotateRight word 11 ^^^ rotateRight word 25

/-- Takes each bit from the second word where the first has a one, else from the third. -/
@[inline] def choose (x y z : UInt32) : UInt32 :=
  (x &&& y) ^^^ ((~~~x) &&& z)

/-- The bit held by at least two of the three words, at each position. -/
@[inline] def majority (x y z : UInt32) : UInt32 :=
  (x &&& y) ^^^ (x &&& z) ^^^ (y &&& z)

/-- A word as four bytes, highest byte first. -/
def wordBytes (word : UInt32) : Bytes 4 :=
  #v[(word >>> 24).toUInt8, (word >>> 16).toUInt8, (word >>> 8).toUInt8, word.toUInt8]

/-! ## State -/

/-- The eight words carried from block to block. -/
structure State where
  a : UInt32
  b : UInt32
  c : UInt32
  d : UInt32
  e : UInt32
  f : UInt32
  g : UInt32
  h : UInt32

def State.initial : State where
  a := 0x6a09e667
  b := 0xbb67ae85
  c := 0x3c6ef372
  d := 0xa54ff53a
  e := 0x510e527f
  f := 0x9b05688c
  g := 0x1f83d9ab
  h := 0x5be0cd19

/-- One of the 64 rounds, with its constant and its schedule word. -/
@[inline] def State.round (s : State) (constant word : UInt32) : State :=
  let t1 := s.h + bigSigma1 s.e + choose s.e s.f s.g + constant + word
  let t2 := bigSigma0 s.a + majority s.a s.b s.c
  ⟨t1 + t2, s.a, s.b, s.c, s.d + t1, s.e, s.f, s.g⟩

def State.add (s t : State) : State :=
  ⟨s.a + t.a, s.b + t.b, s.c + t.c, s.d + t.d, s.e + t.e, s.f + t.f, s.g + t.g, s.h + t.h⟩

def State.digest (s : State) : Bytes 32 :=
  wordBytes s.a ++ wordBytes s.b ++ wordBytes s.c ++ wordBytes s.d ++
    wordBytes s.e ++ wordBytes s.f ++ wordBytes s.g ++ wordBytes s.h

/-- The constants added in the 64 rounds. -/
def roundConstants : Vector UInt32 64 := #v[
  0x428a2f98, 0x71374491, 0xb5c0fbcf, 0xe9b5dba5, 0x3956c25b, 0x59f111f1, 0x923f82a4, 0xab1c5ed5,
  0xd807aa98, 0x12835b01, 0x243185be, 0x550c7dc3, 0x72be5d74, 0x80deb1fe, 0x9bdc06a7, 0xc19bf174,
  0xe49b69c1, 0xefbe4786, 0x0fc19dc6, 0x240ca1cc, 0x2de92c6f, 0x4a7484aa, 0x5cb0a9dc, 0x76f988da,
  0x983e5152, 0xa831c66d, 0xb00327c8, 0xbf597fc7, 0xc6e00bf3, 0xd5a79147, 0x06ca6351, 0x14292967,
  0x27b70a85, 0x2e1b2138, 0x4d2c6dfc, 0x53380d13, 0x650a7354, 0x766a0abb, 0x81c2c92e, 0x92722c85,
  0xa2bfe8a1, 0xa81a664b, 0xc24b8b70, 0xc76c51a3, 0xd192e819, 0xd6990624, 0xf40e3585, 0x106aa070,
  0x19a4c116, 0x1e376c08, 0x2748774c, 0x34b0bcb5, 0x391c0cb3, 0x4ed8aa4a, 0x5b9cca4f, 0x682e6ff3,
  0x748f82ee, 0x78a5636f, 0x84c87814, 0x8cc70208, 0x90befffa, 0xa4506ceb, 0xbef9a3f7, 0xc67178f2]

/-! ## Blocks -/

/-- The message, a byte `0x80`, zeros up to eight bytes short of a whole block, and the bit length
of the message in those eight bytes, highest byte first. -/
def pad (message : Array UInt8) : Array UInt8 :=
  -- One block less the byte `0x80` and the length leaves 55 bytes, and 119 is 64 more.
  message.push 0x80 ++ Array.replicate ((119 - message.size % 64) % 64) 0 ++
    (Bytes.littleEndian 8 (8 * message.size)).toArray.reverse

/-- The big-endian word at a byte offset, with zeros past the end. -/
@[inline] def wordAt (bytes : Array UInt8) (offset : Nat) : UInt32 :=
  ((bytes.getD offset 0).toUInt32 <<< 24) ||| ((bytes.getD (offset + 1) 0).toUInt32 <<< 16) |||
    ((bytes.getD (offset + 2) 0).toUInt32 <<< 8) ||| (bytes.getD (offset + 3) 0).toUInt32

/-- The schedule of the block that starts at a byte offset. -/
def schedule (bytes : Array UInt8) (offset : Nat) : Array UInt32 :=
  let words := Nat.fold 16 (fun t _ words => words.push (wordAt bytes (offset + 4 * t)))
    (Array.emptyWithCapacity 64)
  -- Word `t + 16` is made of the words 2, 7, 15 and 16 places before it.
  Nat.fold 48 (fun t _ words =>
    words.push (smallSigma1 (words.getD (t + 14) 0) + words.getD (t + 9) 0 +
      smallSigma0 (words.getD (t + 1) 0) + words.getD t 0)) words

/-- One block folded into the state. -/
def compress (s : State) (words : Array UInt32) : State :=
  s.add (Nat.fold 64 (fun t bound s => s.round roundConstants[t] (words.getD t 0)) s)

/-- The SHA-256 digest of a message. -/
def hash (message : Array UInt8) : Bytes 32 :=
  let padded := pad message
  (Nat.fold (padded.size / 64) (fun block _ s => compress s (schedule padded (64 * block)))
    State.initial).digest

/-- The digest of several byte strings written one after the other. -/
def hashParts (parts : List (Array UInt8)) : Bytes 32 :=
  hash (parts.foldl (· ++ ·) #[])

end Sha256

end BeaconDuties
