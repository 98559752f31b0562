import GreenTree.Element.Build

/-!
Paths: lists of child indices that lead from an element to one below it. Following a path gives the
element at its end; replacing there makes every node on the way anew and keeps everything beside it.
-/

namespace GreenTree

inductive PathError where
  | noSlot (index : Nat)
  | fault (cause : Fault)
deriving DecidableEq, Repr

def PathError.message : PathError → String
  | .noSlot index => "no slot " ++ toString index
  | .fault cause => cause.message

namespace Element

def onPath {α : Type} : Except Fault α → Except PathError α
  | .ok a => .ok a
  | .error cause => .error (.fault cause)

def childAt (e : Element) (index : Nat) : Except PathError Element := do
  match ← onPath (e.slot index) with
  | some child => return child
  | none => throw (.noSlot index)

def follow (e : Element) : List Nat → Except PathError Element
  | [] => .ok e
  | index :: rest => do
    let child ← e.childAt index
    child.follow rest

def replaceChild (cell : Nat) (e : Element) (index : Nat) (child : Element) :
    Except PathError Element :=
  match e with
  | .node n => Element.node <$> onPath (n.replaceChild cell index child)
  | .token t => .error (.fault (.tokenSlot index t.head.kind))
  | .trivia t => .error (.fault (.triviaSlot index t.head.kind))

/-- The element with another one at the end of a path. The nodes on the way are made anew from the
end up, the one at level `d` in cell `cell + d`. -/
def replaceAt (cell : Nat) (e : Element) (path : List Nat) (new : Element) :
    Except PathError Element :=
  match path with
  | [] => .ok new
  | [index] => e.replaceChild cell index new
  | index :: next :: rest => do
    let child ← e.childAt index
    let child' ← child.replaceAt (cell + 1) (next :: rest) new
    e.replaceChild cell index child'

/-- The element with other diagnostics on the one at the end of a path. That one is made anew in
`cell`, the nodes on the way in the cells behind it. -/
def withDiagnosticsAt (cell : Nat) (e : Element) (path : List Nat)
    (diagnostics : List Diagnostic) : Except PathError Element := do
  let target ← e.follow path
  let changed ← onPath (target.withDiagnostics cell diagnostics)
  e.replaceAt (cell + 1) path changed

def withAnnotationsAt (cell : Nat) (e : Element) (path : List Nat)
    (annotations : List Annotation) : Except PathError Element := do
  let target ← e.follow path
  let changed ← onPath (target.withAnnotations cell annotations)
  e.replaceAt (cell + 1) path changed

end Element

end GreenTree
