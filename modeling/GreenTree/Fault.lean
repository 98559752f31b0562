import GreenTree.Kind

/-!
Broken contracts. A fault ends the operation that meets it; it says which promise the caller did not
keep, or which size no longer fits its word.
-/

namespace GreenTree

/-- The ways in which a caller can break an operation's contract. -/
inductive Fault where
  | notTrivia (kind : Kind)
  | notToken (kind : Kind)
  | notNode (kind : Kind)
  | triviaChild (parent : Kind)
  | tooWide (kind : Kind)
  | textTooLong
  | triviaSlot (index : Nat) (kind : Kind)
  | tokenSlot (index : Nat) (kind : Kind)
  | childOutOfBounds (length index : Nat)
  | triviaPlaced (kind : Kind)
  | sumOverflow
  | differenceOverflow
  | capacityOverflow
deriving DecidableEq, Repr

def Fault.message : Fault → String
  | .notTrivia kind => kind.name ++ " is not a trivia kind"
  | .notToken kind => kind.name ++ " is not a token kind"
  | .notNode kind => kind.name ++ " is not a node kind"
  | .triviaChild parent => "trivia cannot be a direct child of " ++ parent.name
  | .tooWide kind => "width of " ++ kind.name ++ " does not fit in a u32"
  | .textTooLong =>
    "called \x60Result::unwrap()\x60 on an \x60Err\x60 value: TryFromIntError(())"
  | .triviaSlot index kind =>
    "internal error: entered unreachable code: trivia has no child slots (requested slot " ++
      toString index ++ " of " ++ kind.name ++ ")"
  | .tokenSlot index kind =>
    "internal error: entered unreachable code: tokens have no child slots (requested slot " ++
      toString index ++ " of " ++ kind.name ++ ")"
  | .childOutOfBounds length index =>
    "index out of bounds: the len is " ++ toString length ++ " but the index is " ++
      toString index
  | .triviaPlaced kind =>
    "internal error: entered unreachable code: create_red is not supported for trivia (" ++
      kind.name ++ ")"
  | .sumOverflow => "attempt to add with overflow"
  | .differenceOverflow => "attempt to subtract with overflow"
  | .capacityOverflow => "capacity overflow"

end GreenTree
