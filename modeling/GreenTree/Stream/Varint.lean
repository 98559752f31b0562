import GreenTree.Stream.Bytes

/-!
Numbers of varying length, as bincode 1.3 spells them by default and as they stand in overlay
blocks. A number up to 250 is one byte; a larger one is a byte that tells its width, then two, four
or eight bytes. A writer takes the shortest form, and a reader takes any.
-/

namespace GreenTree.Varint

def largestByte : Nat := 250

/-- The bytes of a number below `2 ^ 64`, in the shortest form. -/
def encode (n : Nat) : List UInt8 :=
  if n ≤ largestByte then [UInt8.ofNat n]
  else if n < Bytes.capacity 2 then 251 :: Bytes.littleEndian 2 n
  else if n < Bytes.capacity 4 then 252 :: Bytes.littleEndian 4 n
  else 253 :: Bytes.littleEndian 8 n

inductive Lead where
  | value (n : Nat)
  | wide (bytes : Nat)
  | tooWide
  | reserved
deriving DecidableEq, Repr

def lead (b : UInt8) : Lead :=
  if b.toNat ≤ largestByte then .value b.toNat
  else if b = 251 then .wide 2
  else if b = 252 then .wide 4
  else if b = 253 then .wide 8
  else if b = 254 then .tooWide
  else .reserved

end GreenTree.Varint
