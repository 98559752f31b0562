import GreenTree.Fault

/-!
Sizes and ranges of text, counted in bytes. A size fits in thirty-two bits; sums are taken exactly
and checked, so nothing ever wraps.
-/

namespace GreenTree

def maxSize : Nat := UInt32.size - 1

def addSize? (a b : Nat) : Option Nat :=
  if a + b ≤ maxSize then some (a + b) else none

/-- The sum of the listed sizes, if every partial sum is a size. -/
def sumSizes? (sizes : List Nat) : Option Nat :=
  sizes.foldlM addSize? 0

/-- The sum of two sizes in a place that promises it to be a size. -/
def addSize (a b : Nat) : Except Fault Nat :=
  match addSize? a b with
  | some total => .ok total
  | none => .error .sumOverflow

def subSize (a b : Nat) : Except Fault Nat :=
  if b ≤ a then .ok (a - b) else .error .differenceOverflow

def textSize (text : String) : Except Fault Nat :=
  if text.utf8ByteSize ≤ maxSize then .ok text.utf8ByteSize else .error .textTooLong

/-- A stretch of text from `start` up to but not including `stop`. -/
structure Span where
  start : Nat
  stop : Nat
deriving DecidableEq, Repr, Hashable

namespace Span

def ofLength (start length : Nat) : Except Fault Span := do
  let stop ← addSize start length
  return ⟨start, stop⟩

def label (s : Span) : String := toString s.start ++ ".." ++ toString s.stop

end Span

end GreenTree
