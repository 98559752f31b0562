import GreenTree.Element
import GreenTree.Stream.Limits
import GreenTree.Stream.OverlayBlock
import GreenTree.Stream.Sink
import GreenTree.Stream.StringTable

/-!
Writing elements as records. A record is the kind, the summary bits, the two overlay blocks that are
not empty, and then the text of a leaf or the counted records of what the element holds. Numbers are
little-endian. A text is written once and by reference after that, if the limits say so.
-/

namespace GreenTree

/-- The state of a writing session: the sink, the texts that can be referred to, and the kinds of
the records begun so far. -/
structure Writer where
  sink : ByteSink := {}
  strings : StringTable := .empty
  records : Array Kind := #[]
deriving Inhabited

namespace Writer

abbrev Write := EStateM WriteError Writer

def inlineTag : UInt8 := 0

def referenceTag : UInt8 := 1

def bytes (bs : List UInt8) : Write Unit := fun w =>
  let (sink, complete) := w.sink.write bs
  let w := { w with sink }
  if complete then .ok () w else .error (.transfer .sinkFull) w

def fixed (width n : Nat) : Write Unit := bytes (Bytes.littleEndian width n)

def flag (b : Bool) : Write Unit := fixed 1 b.toNat

def length (n : Nat) : Write Unit :=
  if n < Bytes.capacity 4 then fixed 4 n else throw (.tooLong n)

/-- Writes a text, or a reference to it. -/
def text (limits : Limits) (s : String) : Write Unit := do
  let limit := limits.maxStringLength.toNat
  if limit < s.utf8ByteSize then throw (.stringTooLong s.utf8ByteSize limit)
  let strings := (← get).strings
  match if limits.shareStrings then strings.index? s else none with
  | some index =>
    bytes [referenceTag]
    fixed 4 index
  | none =>
    bytes [inlineTag]
    length s.utf8ByteSize
    bytes (Utf8.encode s)
    if limits.shareStrings then
      if strings.size < Bytes.capacity 4 then modify fun w => { w with strings := w.strings.push s }
      else throw (.tooLong strings.size)

/-- Writes an overlay block, which has to be within its limit; otherwise nothing of it is
written. -/
def block (limits : Limits) (bs : List UInt8) : Write Unit := fun w =>
  if limits.maxOverlayBytes.toNat < bs.length then .error (.overlay .sizeLimit) w
  else
    match bytes bs w with
    | .ok a w => .ok a w
    | .error (.transfer cause) w => .error (.overlay (.transfer cause)) w
    | .error e w => .error e w

def diagnostics (limits : Limits) (ds : List Diagnostic) : Write Unit :=
  block limits (OverlayBlock.encodeDiagnostics ds)

def annotations (limits : Limits) (as : List Annotation) : Write Unit :=
  block limits (OverlayBlock.encodeAnnotations as)

def head (limits : Limits) (h : Head) : Write Unit := do
  fixed 2 h.kind.tag
  fixed 2 h.summary.bits
  flag !h.overlay.diagnostics.isEmpty
  if !h.overlay.diagnostics.isEmpty then diagnostics limits h.overlay.diagnostics
  flag !h.overlay.annotations.isEmpty
  if !h.overlay.annotations.isEmpty then annotations limits h.overlay.annotations

def begin (kind : Kind) : Write Unit :=
  modify fun w => { w with records := w.records.push kind }

def trivia (limits : Limits) (t : Trivia) : Write Unit := do
  begin t.head.kind
  head limits t.head
  text limits t.text

def triviaList (limits : Limits) (ts : List Trivia) : Write Unit := do
  length ts.length
  ts.forM (trivia limits)

def token (limits : Limits) (t : Token) : Write Unit := do
  begin t.head.kind
  head limits t.head
  text limits t.text
  triviaList limits t.leading
  triviaList limits t.trailing

mutual

def element (limits : Limits) : Element → Write Unit
  | .node n => do
    begin n.head.kind
    head limits n.head
    length n.children.length
    elements limits n.children
  | .token t => token limits t
  | .trivia t => trivia limits t

def elements (limits : Limits) : List Element → Write Unit
  | [] => pure ()
  | c :: cs => do
    element limits c
    elements limits cs

end

end Writer

end GreenTree
