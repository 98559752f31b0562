import GreenTree.Stream.Reader

/-!
Record readers. Each kind has at most one; the three readers that come with the library treat
trivia, tokens and nodes, and others can be put in their place. A reader from outside is a script:
it asks the session for what it needs, one request after the other, and says in the end what the
record is. It sees nothing of the session but the answers.

Requests are for what moves a session on. Left out are those that only look at it (the number of
records begun, of texts known and of trivia shared), the reading of blocks of other types than
diagnostics and annotations, and the exchange of the interner for another one.
-/

namespace GreenTree

/-- What is known of a record before its contents are read. -/
structure RecordHeader where
  kind : Kind
  summary : Summary
  overlay : Overlay
deriving DecidableEq, Repr

def RecordHeader.shown (h : RecordHeader) : Shown :=
  .record "RecordHeader"
    [("kind", .leaf h.kind.name), ("flags", .tuple "NodeFlags" [.leaf h.summary.label]),
      ("overlay", h.overlay.shown)] false

inductive Request where
  | byte
  | half
  | word
  | flag
  | length
  | text
  | diagnostics
  | annotations
  /-- A whole record whose kind has to be in a set; the name of the set is for the error. -/
  | element (allowed : KindSet) (expected : String)
  | trivia
  | intern (kind : Kind) (text : String)
deriving DecidableEq, Repr

def Request.Answer : Request → Type
  | .byte | .half | .word | .length => Nat
  | .flag => Bool
  | .text => String
  | .diagnostics => List Diagnostic
  | .annotations => List Annotation
  | .element _ _ => Element
  | .trivia | .intern _ _ => Trivia

/-- A reader from outside: it is done, gives up, asks for something, or takes a cell for a new
element. -/
inductive Script (α : Type) where
  | done (value : α)
  | fail (failure : ReadFailure)
  | ask (request : Request) (next : Except ReadError request.Answer → Script α)
  | cell (next : Nat → Script α)

namespace Script

variable {α β : Type}

def bind : Script α → (α → Script β) → Script β
  | .done a, f => f a
  | .fail failure, _ => .fail failure
  | .ask request next, f => .ask request fun answer => (next answer).bind f
  | .cell next, f => .cell fun cell => (next cell).bind f

instance : Monad Script where
  pure := .done
  bind := bind

def request (r : Request) : Script r.Answer :=
  .ask r fun
    | .ok answer => .done answer
    | .error e => .fail (.error e)

def make (new : Nat → Except Fault α) : Script α :=
  .cell fun cell =>
    match new cell with
    | .ok a => .done a
    | .error cause => .fail (.fault cause)

end Script

inductive RecordReader where
  | trivia
  | token
  | node
  | script (script : RecordHeader → Script Element)

namespace RecordReader

def standard (kind : Kind) : RecordReader :=
  if kind.isTrivia then .trivia else if kind.isToken then .token else .node

end RecordReader

/-- Which reader each kind has. -/
structure Registry where
  find? : Kind → Option RecordReader

namespace Registry

def empty : Registry := ⟨fun _ => none⟩

def standard : Registry := ⟨fun kind => some (.standard kind)⟩

def register (r : Registry) (kind : Kind) (reader : RecordReader) : Registry :=
  ⟨fun k => if k = kind then some reader else r.find? k⟩

def restrict (r : Registry) (kept : KindSet) : Registry :=
  ⟨fun k => if kept.contains k then r.find? k else none⟩

def kinds (r : Registry) : List Kind := Kind.all.filter fun k => (r.find? k).isSome

def size (r : Registry) : Nat := r.kinds.length

def isEmpty (r : Registry) : Bool := r.size == 0

def shown (r : Registry) : Shown :=
  .record "ReaderRegistry" [("kinds", .list (r.kinds.map fun k => .leaf k.name))] false

end Registry

end GreenTree
