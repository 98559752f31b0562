import GreenTree.Element

/-!
The text of an element, piece by piece: one piece for each run of trivia and one for each token. The
outermost trivia on either side can be left out. Pieces are offered to a sink that may refuse one;
after a refusal nothing more is offered.
-/

namespace GreenTree

/-- A place for text: whether it takes a piece in a state, its state after taking one, and its state
after refusing one. -/
structure TextSink (σ : Type) where
  accepts : σ → String → Bool
  add : σ → String → σ
  refuse : σ → String → σ := fun s _ => s

namespace TextSink

variable {σ : Type}

def put (sink : TextSink σ) (piece : String) : EStateM Unit σ Unit := fun s =>
  if sink.accepts s piece then .ok () (sink.add s piece) else .error () (sink.refuse s piece)

def putAll (sink : TextSink σ) : List String → EStateM Unit σ Unit
  | [] => pure ()
  | piece :: pieces => do
    sink.put piece
    putAll sink pieces

def unlimited : TextSink String where
  accepts _ _ := true
  add := String.append

/-- A sink that refuses any piece that would take it past `cap` bytes. -/
def capped (cap : Nat) : TextSink String where
  accepts s piece := s.utf8ByteSize + piece.utf8ByteSize ≤ cap
  add := String.append

end TextSink

namespace Token

variable {σ : Type}

def writeText (sink : TextSink σ) (leading trailing : Bool) (t : Token) :
    EStateM Unit σ Unit := do
  if leading then sink.putAll (t.leading.map Trivia.text)
  sink.put t.text
  if trailing then sink.putAll (t.trailing.map Trivia.text)

end Token

namespace Element

variable {σ : Type}

mutual

def writeText (sink : TextSink σ) (leading trailing : Bool) : Element → EStateM Unit σ Unit
  | .node n => writeTexts sink leading trailing false n.children
  | .token t => t.writeText sink leading trailing
  | .trivia t => sink.put t.text

/-- Writes the texts of elements in order. Only the first that spans text can lose leading trivia
and only the last that does can lose trailing trivia; `before` says that an earlier one spans
text. -/
def writeTexts (sink : TextSink σ) (leading trailing before : Bool) :
    List Element → EStateM Unit σ Unit
  | [] => pure ()
  | c :: cs => do
    let isFirst := c.spansText && !before
    let isLast := c.spansText && !cs.any spansText
    c.writeText sink (leading || !isFirst) (trailing || !isLast)
    writeTexts sink leading trailing (before || c.spansText) cs

end

def textInto (sink : TextSink σ) (start : σ) (leading trailing : Bool)
    (e : Element) : σ × Bool :=
  match e.writeText sink leading trailing start with
  | .ok _ s => (s, true)
  | .error _ s => (s, false)

def text (leading trailing : Bool) (e : Element) : String :=
  (e.textInto .unlimited "" leading trailing).1

def fullText (e : Element) : String := e.text true true

def display (e : Element) : String := e.text false false

end Element

end GreenTree
