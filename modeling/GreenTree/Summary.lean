/-!
Summary bits: what an element says about itself and everything below it, so that a search can skip
a subtree unseen. Each bit has one place in the encoded word; words with other bits are cut down to
these four.
-/

namespace GreenTree

/-- Four facts about an element: that it was expected but not found, and that it or something below
it carries diagnostics, carries annotations, or is skipped text. -/
structure Summary where
  missing : Bool := false
  diagnostics : Bool := false
  annotations : Bool := false
  skippedText : Bool := false
deriving DecidableEq, Repr, Hashable, Inhabited

namespace Summary

def empty : Summary := {}

def metadata : Summary := { diagnostics := true, annotations := true }

/-- The bits that a parent takes over from what it holds. -/
def inherited : Summary := { diagnostics := true, annotations := true, skippedText := true }

/-- The bits that no content implies: an element keeps them as they were given. -/
def intrinsic : Summary := { missing := true }

def union (a b : Summary) : Summary where
  missing := a.missing || b.missing
  diagnostics := a.diagnostics || b.diagnostics
  annotations := a.annotations || b.annotations
  skippedText := a.skippedText || b.skippedText

def inter (a b : Summary) : Summary where
  missing := a.missing && b.missing
  diagnostics := a.diagnostics && b.diagnostics
  annotations := a.annotations && b.annotations
  skippedText := a.skippedText && b.skippedText

def difference (a b : Summary) : Summary where
  missing := a.missing && !b.missing
  diagnostics := a.diagnostics && !b.diagnostics
  annotations := a.annotations && !b.annotations
  skippedText := a.skippedText && !b.skippedText

def contains (a b : Summary) : Bool := a.inter b == b

def isEmpty (a : Summary) : Bool := a == empty

def structural (a : Summary) : Summary := a.difference metadata

def toInherit (a : Summary) : Summary := a.inter inherited

def bits (a : Summary) : Nat :=
  a.missing.toNat + 2 * a.diagnostics.toNat + 4 * a.annotations.toNat + 8 * a.skippedText.toNat

/-- The four known bits of a word; all others are dropped. -/
def ofBitsTruncate (word : Nat) : Summary where
  missing := word.testBit 0
  diagnostics := word.testBit 1
  annotations := word.testBit 2
  skippedText := word.testBit 3

def ofBits? (word : Nat) : Option Summary :=
  if word < 16 then some (ofBitsTruncate word) else none

def names (a : Summary) : List String :=
  (if a.missing then ["IS_MISSING"] else []) ++
  (if a.diagnostics then ["CONTAINS_DIAGNOSTICS"] else []) ++
  (if a.annotations then ["CONTAINS_ANNOTATIONS"] else []) ++
  (if a.skippedText then ["CONTAINS_SKIPPED_TEXT"] else [])

def label (a : Summary) : String :=
  if a.isEmpty then "0x0" else " | ".intercalate a.names

theorem inter_intrinsic (a : Summary) : a.inter .intrinsic = { missing := a.missing } := by
  simp [inter, intrinsic]

@[simp] theorem ofBitsTruncate_bits (a : Summary) : ofBitsTruncate a.bits = a := by
  rcases a with ⟨_ | _, _ | _, _ | _, _ | _⟩ <;> rfl

theorem testBit_bits_zero (a : Summary) : a.bits.testBit 0 = a.missing :=
  congrArg missing (ofBitsTruncate_bits a)

theorem bits_lt (a : Summary) : a.bits < 16 := by
  rcases a with ⟨_ | _, _ | _, _ | _, _ | _⟩ <;> decide

theorem testBit_bits (a : Summary) (i : Nat) : a.bits.testBit i = true ↔
    i = 0 ∧ a.missing = true ∨ i = 1 ∧ a.diagnostics = true ∨
      i = 2 ∧ a.annotations = true ∨ i = 3 ∧ a.skippedText = true := by
  match i with
  | 0 | 1 | 2 | 3 => rcases a with ⟨_ | _, _ | _, _ | _, _ | _⟩ <;> decide
  | i + 4 =>
    have powers : 2 ^ 4 ≤ 2 ^ (i + 4) := Nat.pow_le_pow_right (by decide) (by omega)
    have unset : a.bits.testBit (i + 4) = false :=
      Nat.testBit_lt_two_pow (Nat.lt_of_lt_of_le a.bits_lt powers)
    simp [unset]

end Summary

end GreenTree
