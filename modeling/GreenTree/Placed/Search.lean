import GreenTree.Element.Walk
import GreenTree.Placed

/-!
Searches below a placed node. A search walks in source order with a running position; a subtree
whose summary bits say that it holds nothing of the wanted sort is passed over by its width.
-/

namespace GreenTree

/-- A search under way: the position of the next element, and what was found before it. -/
structure Search (α : Type) where
  position : Nat
  found : Array α := #[]

namespace Search

variable {α : Type}

abbrev Step (α : Type) := StateT (Search α) (Except Fault)

def advance (width : Nat) : Step α Unit := do
  let position ← addSize (← get).position width
  modify fun s => { s with position }

/-- Meets an element: takes what `pick` finds in it if its bits include the wanted ones, and
otherwise passes it over. The result says whether to look inside. -/
def enter (wanted : Summary) (pick : Nat → Element → Except Fault (List α)) (e : Element) :
    Step α Bool := do
  if e.summary.contains wanted then
    let more ← pick (← get).position e
    modify fun s => { s with found := s.found ++ more }
    return true
  else
    advance e.fullWidth
    return false

def walker (wanted : Summary) (pick : Nat → Element → Except Fault (List α)) :
    Walker (Step α) where
  node n children := do
    if ← enter wanted pick (.node n) then children
  token t leading trailing := do
    if ← enter wanted pick (.token t) then
      leading
      advance t.text.utf8ByteSize
      trailing
  trivia t := do
    if ← enter wanted pick (.trivia t) then advance t.head.fullWidth

def run (wanted : Summary) (pick : Nat → Element → Except Fault (List α)) (position : Nat)
    (e : Element) : Except Fault (List α) := do
  let (_, last) ← ((walker wanted pick).walk e).run { position }
  return last.found.toList

end Search

namespace PlacedNode

/-- Every diagnostic at or below the node in source order, with the range that it covers. -/
def diagnostics (n : PlacedNode) : Except Fault (List (Span × Diagnostic)) :=
  Search.run { diagnostics := true }
    (fun start e => e.overlay.diagnostics.mapM fun d => return (← d.rangeAt start, d))
    n.offset n.element

def annotatedElements (n : PlacedNode) (kind : String) : Except Fault (List (Span × Element)) :=
  Search.run { annotations := true }
    (fun start e =>
      if (e.annotationsOfKind kind).isEmpty then .ok []
      else return [(← Span.ofLength start e.fullWidth, e)])
    n.offset n.element

end PlacedNode

end GreenTree
