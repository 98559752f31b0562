import GreenTree.Overlay
import GreenTree.Stream.Error
import GreenTree.Stream.Repeat
import GreenTree.Stream.Varint

/-!
Overlay blocks: lists of diagnostics and of annotations as bytes, in the format of bincode 1.3 under
its default options with a limit. Numbers have varying length and are little-endian, texts and lists
begin with their length, a value that may be absent begins with a byte that says so, one of several
cases is told by its place among them, and fields follow one another in the order of their
declaration. A reader works within a budget of bytes, which is the limit: before it reads anything
it takes the size of that from what is left. Bytes behind a block belong to what comes next.
-/

namespace GreenTree.OverlayBlock

def encodeText (text : String) : List UInt8 :=
  Varint.encode text.utf8ByteSize ++ Utf8.encode text

def encodeOption : Option String → List UInt8
  | none => [0]
  | some text => 1 :: encodeText text

def encodeList {α : Type} (encode : α → List UInt8) (members : List α) : List UInt8 :=
  Varint.encode members.length ++ members.flatMap encode

def encodeDiagnostic (d : Diagnostic) : List UInt8 :=
  Varint.encode d.code.number.toNat ++ Varint.encode d.severity.rank ++
    Varint.encode d.offset.toNat ++ Varint.encode d.width.toNat ++
    encodeList encodeText d.arguments

def encodeAnnotation (a : Annotation) : List UInt8 :=
  Varint.encode a.id.toNat ++ encodeOption a.kind ++ encodeOption a.data

def encodeDiagnostics : List Diagnostic → List UInt8 := encodeList encodeDiagnostic

def encodeAnnotations : List Annotation → List UInt8 := encodeList encodeAnnotation

/-- The bytes not read yet, and how many of them the block may still take. -/
structure State where
  rest : List UInt8
  budget : Nat
deriving DecidableEq, Repr

abbrev Decode := EStateM (Failure OverlayError) State

def spend (count : Nat) : Decode Unit := fun s =>
  if count ≤ s.budget then .ok () { s with budget := s.budget - count }
  else .error (.error .sizeLimit) s

/-- Reads bytes that are paid for. If there are too few, none are left. -/
def take (count : Nat) : Decode (List UInt8) := fun s =>
  match Bytes.split? count s.rest with
  | some (bytes, rest) => .ok bytes { s with rest }
  | none => .error (.error (.transfer .unexpectedEnd)) { s with rest := [] }

def fixed (width : Nat) : Decode Nat := do
  spend width
  return Bytes.toNat (← take width)

def number : Decode Nat := do
  match Varint.lead (UInt8.ofNat (← fixed 1)) with
  | .value n => return n
  | .wide bytes => fixed bytes
  | .tooWide => throw (.error .wideNumber)
  | .reserved => throw (.error .reservedByte)

def numberOf (bytes : Nat) : Decode Nat := do
  let n ← number
  if n < Bytes.capacity bytes then return n else throw (.error (.numberTooLarge (8 * bytes) n))

/-- The lengths from here on are too large for any buffer. -/
def addressLimit : Nat := UInt64.size / 2

def text : Decode String := do
  let length ← number
  spend length
  if addressLimit ≤ length then throw (.fault .capacityOverflow)
  match Utf8.decode (← take length) with
  | .ok text => return text
  | .error cause => throw (.error (.invalidText cause))

def option : Decode (Option String) := do
  match ← fixed 1 with
  | 0 => return none
  | 1 => return some (← text)
  | byte => throw (.error (.invalidPresence byte))

def list {α : Type} (member : Decode α) : Decode (List α) := do
  repeated (← number) member

def severity : Decode Severity := do
  let rank ← numberOf 4
  match Severity.ofRank? rank with
  | some severity => return severity
  | none => throw (.error (.unknownSeverity rank))

def diagnostic : Decode Diagnostic := do
  let code ← numberOf 2
  let severity ← severity
  let offset ← numberOf 4
  let width ← numberOf 4
  let arguments ← list text
  return ⟨⟨UInt16.ofNat code⟩, severity, UInt32.ofNat offset, UInt32.ofNat width, arguments⟩

def annotation : Decode Annotation := do
  let id ← number
  let kind ← option
  let data ← option
  return ⟨UInt64.ofNat id, kind, data⟩

def diagnostics : Decode (List Diagnostic) := list diagnostic

def annotations : Decode (List Annotation) := list annotation

end GreenTree.OverlayBlock
