import GreenTree.Element

/-!
Structural equivalence: two elements are equivalent if they have the same shape, kinds, structural
bits and texts throughout. What is attached to them never counts.
-/

namespace GreenTree

def Head.isEquivalent (a b : Head) : Bool :=
  a.kind == b.kind && a.summary.structural == b.summary.structural

namespace Trivia

def isEquivalent (a b : Trivia) : Bool := a.head.isEquivalent b.head && a.text == b.text

def areEquivalent (as bs : List Trivia) : Bool :=
  as.length == bs.length && (as.zip bs).all fun (a, b) => a.isEquivalent b

end Trivia

def Token.isEquivalent (a b : Token) : Bool :=
  a.head.isEquivalent b.head && a.text == b.text && Trivia.areEquivalent a.leading b.leading &&
    Trivia.areEquivalent a.trailing b.trailing

namespace Element

mutual

/-- Whether two elements are structurally the same. Nodes in one cell are one object and are not
searched. -/
def isEquivalent : Element → Element → Bool
  | .node a, .node b =>
    a.cell == b.cell || (a.head.isEquivalent b.head && a.children.length == b.children.length &&
      allEquivalent a.children b.children)
  | .token a, .token b => a.isEquivalent b
  | .trivia a, .trivia b => a.isEquivalent b
  | _, _ => false

/-- Whether the elements in the same places of two lists are structurally the same, as far as both
go. -/
def allEquivalent : List Element → List Element → Bool
  | a :: as, b :: bs => isEquivalent a b && allEquivalent as bs
  | _, _ => true

end

end Element

end GreenTree
