import GreenTree.Element.Walk

/-!
Sharing: which parts of an element, or of two elements, are one object.
-/

namespace GreenTree.Element

def firstPlaces (cells : List Nat) : List Nat := cells.map fun c => cells.idxOf c

/-- For each run of trivia in source order, the first run that is the same object. -/
def sharing (e : Element) : List Nat := firstPlaces (e.allTrivia.map Trivia.cell)

/-- For each place that two nodes both have, whether the children there are one object. -/
def sharedChildren (a b : Element) : List Bool :=
  (a.children.zip b.children).map fun (x, y) => x.sameCell y

end GreenTree.Element
