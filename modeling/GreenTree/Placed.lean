import GreenTree.Element.Build
import GreenTree.Element.Equality
import GreenTree.Element.Terminal
import GreenTree.Element.Text
import GreenTree.NodeOrToken

/-!
Placed elements: handles that know where in a file an element stands and what it stands under. They
are made on the way down, from the width of everything to the left; the elements themselves know no
position. All positions are sizes, so placing can fail by running past the largest one.
-/

namespace GreenTree

/-- A node with the position where its full text starts and its place among its parent's
children. -/
structure Place where
  node : Node Element
  offset : Nat
  index : Nat
deriving BEq, Hashable

/-- A node handle: its own place, and the places above it from the nearest to the root. -/
structure PlacedNode where
  place : Place
  above : List Place
deriving BEq, Hashable

structure PlacedToken where
  token : Token
  offset : Nat
  index : Nat
  above : List Place
deriving BEq, Hashable

/-- A handle on trivia: its position, its index in the list that it comes from, and the token that
owns that list. -/
structure PlacedTrivia where
  trivia : Trivia
  position : Nat
  index : Nat
  owner : Option PlacedToken
deriving BEq, Hashable

abbrev PlacedElement := NodeOrToken PlacedNode PlacedToken

def PlacedNode.ofPlaces? : List Place → Option PlacedNode
  | [] => none
  | place :: above => some ⟨place, above⟩

def PlacedNode.places (n : PlacedNode) : List Place := n.place :: n.above

/-- Puts an element at a position, under a parent if there is one. Trivia stands only in tokens. -/
def Element.placeAt (e : Element) (parent : Option PlacedNode) (position index : Nat) :
    Except Fault PlacedElement :=
  let above := (parent.map PlacedNode.places).getD []
  match e with
  | .node n => .ok (.node ⟨⟨n, position, index⟩, above⟩)
  | .token t => .ok (.token ⟨t, position, index, above⟩)
  | .trivia t => .error (.triviaPlaced t.head.kind)

namespace PlacedNode

def root (n : Node Element) : PlacedNode := ⟨⟨n, 0, 0⟩, []⟩

def node (n : PlacedNode) : Node Element := n.place.node

def element (n : PlacedNode) : Element := .node n.node

def kind (n : PlacedNode) : Kind := n.node.head.kind

def offset (n : PlacedNode) : Nat := n.place.offset

def index (n : PlacedNode) : Nat := n.place.index

def parent? (n : PlacedNode) : Option PlacedNode := ofPlaces? n.above

def span (n : PlacedNode) : Except Fault Span := Span.ofLength n.offset n.node.head.fullWidth

def trimmedSpan (n : PlacedNode) : Except Fault Span := do
  let start ← addSize n.offset n.element.leadingWidth
  Span.ofLength start (← n.element.checkedWidth)

/-- The handles on a list of places: one for each place, with the places behind it above it. -/
def ofEach : List Place → List PlacedNode
  | [] => []
  | place :: above => ⟨place, above⟩ :: ofEach above

def ancestors (n : PlacedNode) : List PlacedNode := ofEach n.places

def placeFrom (n : PlacedNode) (position index : Nat) :
    List Element → Except Fault (List PlacedElement)
  | [] => .ok []
  | c :: cs => do
    let next ← addSize position c.fullWidth
    let placed ← c.placeAt (some n) position index
    let rest ← placeFrom n next (index + 1) cs
    return placed :: rest

def childrenWithTokens (n : PlacedNode) : Except Fault (List PlacedElement) :=
  n.placeFrom n.offset 0 n.node.children

def children (n : PlacedNode) : Except Fault (List PlacedNode) :=
  return (← n.childrenWithTokens).filterMap NodeOrToken.node?

/-- The handle on the child at an index; only the children up to it are placed. -/
def child? (n : PlacedNode) (index : Nat) : Except Fault (Option PlacedElement) :=
  return (← n.placeFrom n.offset 0 (n.node.children.take (index + 1)))[index]?

def label (n : PlacedNode) : Except Fault String :=
  return n.kind.name ++ "@" ++ (← n.span).label

end PlacedNode

namespace PlacedToken

def kind (t : PlacedToken) : Kind := t.token.head.kind

def parent? (t : PlacedToken) : Option PlacedNode := PlacedNode.ofPlaces? t.above

def span (t : PlacedToken) : Except Fault Span := Span.ofLength t.offset t.token.head.fullWidth

def trimmedSpan (t : PlacedToken) : Except Fault Span := do
  let start ← addSize t.offset t.token.leadingWidth
  Span.ofLength start (← (Element.token t.token).checkedWidth)

def placeFrom (t : PlacedToken) (position index : Nat) :
    List Trivia → Except Fault (List PlacedTrivia)
  | [] => .ok []
  | run :: runs => do
    let next ← addSize position run.head.fullWidth
    let rest ← placeFrom t next (index + 1) runs
    return ⟨run, position, index, some t⟩ :: rest

def leadingTrivia (t : PlacedToken) : Except Fault (List PlacedTrivia) :=
  t.placeFrom t.offset 0 t.token.leading

def trailingTrivia (t : PlacedToken) : Except Fault (List PlacedTrivia) := do
  t.placeFrom (← t.trimmedSpan).stop 0 t.token.trailing

def label (t : PlacedToken) : Except Fault String :=
  return t.kind.name ++ "@" ++ (← t.trimmedSpan).label ++ " " ++ quoted t.token.text

end PlacedToken

namespace PlacedTrivia

def detached (t : Trivia) : PlacedTrivia := ⟨t, 0, 0, none⟩

def kind (t : PlacedTrivia) : Kind := t.trivia.head.kind

def span (t : PlacedTrivia) : Except Fault Span :=
  Span.ofLength t.position t.trivia.head.fullWidth

def label (t : PlacedTrivia) : Except Fault String :=
  return t.kind.name ++ "@" ++ (← t.span).label ++ " " ++ quoted t.trivia.text

end PlacedTrivia

inductive DescentError where
  | noChild (index : Nat)
  | atToken
  | fault (cause : Fault)
deriving DecidableEq, Repr

def DescentError.message : DescentError → String
  | .noChild index => "no child " ++ toString index
  | .atToken => "token"
  | .fault cause => cause.message

namespace PlacedElement

/-- The handle at the end of a path of child indices. -/
def descend (e : PlacedElement) : List Nat → Except DescentError PlacedElement
  | [] => .ok e
  | index :: rest =>
    match e with
    | .token _ => .error .atToken
    | .node n =>
      match n.child? index with
      | .ok (some child) => descend child rest
      | .ok none => .error (.noChild index)
      | .error cause => .error (.fault cause)

def descendToNode (e : PlacedElement) (path : List Nat) : Except DescentError PlacedNode := do
  match ← e.descend path with
  | .node n => return n
  | .token _ => throw .atToken

def kind (e : PlacedElement) : Kind := e.elim PlacedNode.kind PlacedToken.kind

def span (e : PlacedElement) : Except Fault Span := e.elim PlacedNode.span PlacedToken.span

def trimmedSpan (e : PlacedElement) : Except Fault Span :=
  e.elim PlacedNode.trimmedSpan PlacedToken.trimmedSpan

def index (e : PlacedElement) : Nat := e.elim PlacedNode.index PlacedToken.index

def parent? (e : PlacedElement) : Option PlacedNode :=
  e.elim PlacedNode.parent? PlacedToken.parent?

def element (e : PlacedElement) : Element :=
  e.elim PlacedNode.element fun t => .token t.token

def label (e : PlacedElement) : Except Fault String := e.elim PlacedNode.label PlacedToken.label

def shapeLabel (e : PlacedElement) : Except Fault String :=
  return (if e.isNode then "Node(" else "Token(") ++ (← label e) ++ ")"

end PlacedElement

end GreenTree
