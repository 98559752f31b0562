import GreenTree.KindSet
import GreenTree.Overlay

/-!
Elements of a syntax tree. An element knows its kind, its width and what it holds, but neither where
it stands nor what holds it. It never changes: an operation makes a new element, which keeps the
parts that it does not touch. Every element lives in a numbered cell; elements with one cell are one
object.
-/

namespace GreenTree

/-- What every element keeps: its kind, its summary bits, the number of bytes it spans, and what is
attached to it. -/
structure Head where
  kind : Kind
  summary : Summary
  fullWidth : Nat
  overlay : Overlay
deriving DecidableEq, Repr, Inhabited

/-- A run of text that belongs to no construct: blanks, line ends, comments, skipped text. -/
structure Trivia where
  cell : Nat
  head : Head
  text : String
deriving DecidableEq, Repr, Inhabited

structure Token where
  cell : Nat
  head : Head
  text : String
  leading : List Trivia
  trailing : List Trivia
  leadingWidth : Nat
  trailingWidth : Nat
deriving DecidableEq, Repr, Inhabited

structure Node (α : Type) where
  cell : Nat
  head : Head
  children : List α
deriving Repr, Inhabited

inductive Element where
  | node (node : Node Element)
  | token (token : Token)
  | trivia (trivia : Trivia)
deriving Inhabited

namespace Element

def head : Element → Head
  | .node n => n.head
  | .token t => t.head
  | .trivia t => t.head

def cell : Element → Nat
  | .node n => n.cell
  | .token t => t.cell
  | .trivia t => t.cell

def kind (e : Element) : Kind := e.head.kind

def summary (e : Element) : Summary := e.head.summary

def fullWidth (e : Element) : Nat := e.head.fullWidth

def overlay (e : Element) : Overlay := e.head.overlay

def spansText (e : Element) : Bool := 0 < e.fullWidth

def isTrivia : Element → Bool
  | .trivia _ => true
  | _ => false

/-- Whether two elements are one object. -/
def sameCell (a b : Element) : Bool := a.cell == b.cell

def hasAnnotation (e : Element) (a : Annotation) : Bool := e.overlay.annotations.any (· == a)

def annotationsOfKind (e : Element) (kind : String) : List Annotation :=
  e.overlay.annotations.filter fun a => a.kind == some kind

def children : Element → List Element
  | .node n => n.children
  | _ => []

def slotCount (e : Element) : Nat := e.children.length

/-- The child at an index. Leaves have no children to ask for. -/
def slot (e : Element) (index : Nat) : Except Fault (Option Element) :=
  match e with
  | .node n => .ok n.children[index]?
  | .token t => .error (.tokenSlot index t.head.kind)
  | .trivia t => .error (.triviaSlot index t.head.kind)

end Element

/-- What holds of an element holds of all: it is enough to show it for a node whose children have
it, for a token and for trivia. -/
@[elab_as_elim]
theorem Element.induction {P : Element → Prop}
    (node : ∀ n : Node Element, (∀ c ∈ n.children, P c) → P (.node n))
    (token : ∀ t, P (.token t)) (trivia : ∀ t, P (.trivia t)) (e : Element) : P e :=
  Element.rec (motive_1 := P) (motive_2 := fun n => ∀ c ∈ n.children, P c)
    (motive_3 := fun cs => ∀ c ∈ cs, P c) node token trivia (fun _ _ _ h => h)
    (fun _ h => nomatch h)
    (fun _ _ hc hcs _ h => match h with
      | .head _ => hc
      | .tail _ h => hcs _ h) e

end GreenTree
