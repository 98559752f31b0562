import GreenTree.Element

/-!
Making elements. Every element is made here, so every element has the width of its text and the
summary bits of its parts: the makers check the class of the kind, the shape of the parts and the
sums of the widths, and compute the rest. Each takes the cell that the new element is to live in.
-/

namespace GreenTree

/-- A head for an element with the given bits of its own, to which those of the overlay are
added. -/
def Head.make (kind : Kind) (summary : Summary) (fullWidth : Nat) (overlay : Overlay) : Head :=
  ⟨kind, summary.union overlay.summary, fullWidth, overlay⟩

def fitting (kind : Kind) : Option Nat → Except Fault Nat
  | some width => .ok width
  | none => .error (.tooWide kind)

namespace Trivia

/-- The bits that a kind of trivia has whatever its text is. -/
def kindSummary (kind : Kind) : Summary :=
  if kind = .preprocessingMessageTrivia then { skippedText := true } else .empty

def make (cell : Nat) (kind : Kind) (text : String) (overlay : Overlay) : Except Fault Trivia :=
  if kind.isTrivia then do
    let width ← textSize text
    return ⟨cell, .make kind (kindSummary kind) width overlay, text⟩
  else .error (.notTrivia kind)

def withOverlay (cell : Nat) (t : Trivia) (overlay : Overlay) : Except Fault Trivia :=
  make cell t.head.kind t.text overlay

def inherited (trivia : List Trivia) : Summary :=
  trivia.foldl (fun bits t => bits.union t.head.summary.toInherit) .empty

def totalWidth? (trivia : List Trivia) : Option Nat :=
  sumSizes? (trivia.map fun t => t.head.fullWidth)

end Trivia

namespace Token

/-- A terminal with its trivia. Of the bits given it keeps those that no content implies. -/
def ofParts (cell : Nat) (kind : Kind) (given : Summary) (text : String)
    (leading trailing : List Trivia) (overlay : Overlay) : Except Fault Token :=
  if kind.isToken then do
    let leadingWidth ← fitting kind (Trivia.totalWidth? leading)
    let trailingWidth ← fitting kind (Trivia.totalWidth? trailing)
    let ownWidth ← textSize text
    let upToText ← fitting kind (addSize? leadingWidth ownWidth)
    let fullWidth ← fitting kind (addSize? upToText trailingWidth)
    let bits := (given.inter .intrinsic).union (Trivia.inherited (leading ++ trailing))
    return ⟨cell, .make kind bits fullWidth overlay, text, leading, trailing, leadingWidth,
      trailingWidth⟩
  else .error (.notToken kind)

def make (cell : Nat) (kind : Kind) (missing : Bool) (text : String)
    (leading trailing : List Trivia) (overlay : Overlay) : Except Fault Token :=
  ofParts cell kind { missing } text leading trailing overlay

theorem ofParts_eq_make (cell : Nat) (kind : Kind) (given : Summary) (text : String)
    (leading trailing : List Trivia) (overlay : Overlay) :
    ofParts cell kind given text leading trailing overlay =
      make cell kind given.missing text leading trailing overlay := by
  rw [make, ofParts, ofParts, Summary.inter_intrinsic, Summary.inter_intrinsic]

def plain (cell : Nat) (kind : Kind) (text : String) : Except Fault Token :=
  make cell kind false text [] [] .empty

/-- A terminal that was expected but not found: it spans nothing. -/
def missing (cell : Nat) (kind : Kind) : Except Fault Token :=
  make cell kind true "" [] [] .empty

def withOverlay (cell : Nat) (t : Token) (overlay : Overlay) : Except Fault Token :=
  ofParts cell t.head.kind t.head.summary t.text t.leading t.trailing overlay

theorem withOverlay_eq_make (cell : Nat) (t : Token) (overlay : Overlay) :
    t.withOverlay cell overlay =
      make cell t.head.kind t.head.summary.missing t.text t.leading t.trailing overlay :=
  ofParts_eq_make ..

end Token

namespace Node

def inherited (children : List Element) : Summary :=
  children.foldl (fun bits c => bits.union c.summary.toInherit) .empty

def totalWidth? (children : List Element) : Option Nat :=
  sumSizes? (children.map Element.fullWidth)

def ofParts (cell : Nat) (kind : Kind) (given : Summary) (children : List Element)
    (overlay : Overlay) : Except Fault (Node Element) :=
  if kind.isNode then
    if children.any Element.isTrivia then .error (.triviaChild kind)
    else do
      let fullWidth ← fitting kind (totalWidth? children)
      let bits := (given.inter .intrinsic).union (inherited children)
      return ⟨cell, .make kind bits fullWidth overlay, children⟩
  else .error (.notNode kind)

def make (cell : Nat) (kind : Kind) (missing : Bool) (children : List Element)
    (overlay : Overlay) : Except Fault (Node Element) :=
  ofParts cell kind { missing } children overlay

theorem ofParts_eq_make (cell : Nat) (kind : Kind) (given : Summary) (children : List Element)
    (overlay : Overlay) :
    ofParts cell kind given children overlay =
      make cell kind given.missing children overlay := by
  rw [make, ofParts, ofParts, Summary.inter_intrinsic, Summary.inter_intrinsic]

def plain (cell : Nat) (kind : Kind) (children : List Element) : Except Fault (Node Element) :=
  make cell kind false children .empty

def withOverlay (cell : Nat) (n : Node Element) (overlay : Overlay) :
    Except Fault (Node Element) :=
  ofParts cell n.head.kind n.head.summary n.children overlay

theorem withOverlay_eq_make (cell : Nat) (n : Node Element) (overlay : Overlay) :
    n.withOverlay cell overlay =
      make cell n.head.kind n.head.summary.missing n.children overlay :=
  ofParts_eq_make ..

/-- The construct with another child at an index; all other children stay what they are. -/
def replaceChild (cell : Nat) (n : Node Element) (index : Nat) (child : Element) :
    Except Fault (Node Element) :=
  if index < n.children.length then
    ofParts cell n.head.kind n.head.summary (n.children.set index child) n.head.overlay
  else .error (.childOutOfBounds n.children.length index)

theorem replaceChild_eq_make (cell : Nat) (n : Node Element) (index : Nat) (child : Element) :
    n.replaceChild cell index child =
      if index < n.children.length then
        make cell n.head.kind n.head.summary.missing (n.children.set index child) n.head.overlay
      else .error (.childOutOfBounds n.children.length index) := by
  rw [replaceChild, ofParts_eq_make]

end Node

namespace Element

def withOverlay (cell : Nat) (e : Element) (overlay : Overlay) : Except Fault Element :=
  match e with
  | .node n => .node <$> n.withOverlay cell overlay
  | .token t => .token <$> t.withOverlay cell overlay
  | .trivia t => .trivia <$> t.withOverlay cell overlay

def withDiagnostics (cell : Nat) (e : Element) (diagnostics : List Diagnostic) :
    Except Fault Element :=
  e.withOverlay cell { e.overlay with diagnostics }

def withAnnotations (cell : Nat) (e : Element) (annotations : List Annotation) :
    Except Fault Element :=
  e.withOverlay cell { e.overlay with annotations }

end Element

end GreenTree
