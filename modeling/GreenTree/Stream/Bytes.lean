/-!
Numbers as bytes, least significant first. A number of a given width is written in exactly that many
bytes, and reading them gives it back.
-/

namespace GreenTree.Bytes

def littleEndian : Nat → Nat → List UInt8
  | 0, _ => []
  | width + 1, n => UInt8.ofNat (n % 256) :: littleEndian width (n / 256)

def toNat : List UInt8 → Nat
  | [] => 0
  | b :: bs => b.toNat + 256 * toNat bs

/-- How many numbers a number of bytes can stand for. -/
def capacity : Nat → Nat
  | 0 => 1
  | width + 1 => 256 * capacity width

def split? (count : Nat) (bytes : List UInt8) : Option (List UInt8 × List UInt8) :=
  let parts := bytes.splitAt count
  if parts.1.length = count then some parts else none

@[simp] theorem length_littleEndian (width n : Nat) : (littleEndian width n).length = width := by
  induction width generalizing n with
  | zero => rfl
  | succ width ih => simp [littleEndian, ih]

@[simp] theorem toNat_littleEndian (width n : Nat) :
    toNat (littleEndian width n) = n % capacity width := by
  induction width generalizing n with
  | zero => simp [littleEndian, toNat, capacity, Nat.mod_one]
  | succ width ih =>
    rw [littleEndian, toNat, ih, capacity, Nat.mod_mul]
    simp

theorem toNat_lt (bytes : List UInt8) : toNat bytes < capacity bytes.length := by
  induction bytes with
  | nil => simp [toNat, capacity]
  | cons b bs ih =>
    have := b.toNat_lt
    rw [toNat, List.length_cons, capacity]
    omega

theorem split?_append (bytes rest : List UInt8) :
    split? bytes.length (bytes ++ rest) = some (bytes, rest) := by
  simp [split?]

theorem append_of_split? {count : Nat} {bytes first rest : List UInt8}
    (h : split? count bytes = some (first, rest)) :
    bytes = first ++ rest ∧ first.length = count := by
  simp only [split?, List.splitAt_eq, Option.ite_none_right_eq_some, Option.some.injEq,
    Prod.mk.injEq] at h
  obtain ⟨enough, rfl, rfl⟩ := h
  exact ⟨(List.take_append_drop count bytes).symm, enough⟩

end GreenTree.Bytes
