import GreenTree.Interner
import GreenTree.Stream.Limits
import GreenTree.Stream.OverlayBlock
import GreenTree.Stream.StringTable

/-!
Reading sessions: the bytes not read yet and everything learnt from those before them. The steps
here read the parts of a record; each leaves the session where it stopped, also when it fails. The
bytes are all there from the start, so that they end too early is the only way in which taking them
can fail; a source that fails for reasons of its own, and may go on after that, is not described.
-/

namespace GreenTree

/-- A record that was begun: its kind and the number of records around it. -/
structure Visit where
  kind : Kind
  depth : Nat
deriving DecidableEq, Repr

/-- The state of a reading session. -/
structure Reader where
  rest : List UInt8
  strings : StringTable := .empty
  interner : Interner := {}
  depth : Nat := 0
  visits : Array Visit := #[]
  /-- The first cell that is not in use. -/
  nextCell : Nat := 0

namespace Reader

/-- A step of a reading session; its state is kept also when the step fails. -/
abbrev Read := EStateM ReadFailure Reader

def fail {α : Type} (e : ReadError) : Read α := throw (.error e)

def take (count : Nat) : Read (List UInt8) := fun r =>
  match Bytes.split? count r.rest with
  | some (bytes, rest) => .ok bytes { r with rest }
  | none => .error (.error (.transfer .unexpectedEnd)) { r with rest := [] }

def fixed (width : Nat) : Read Nat := return Bytes.toNat (← take width)

def flag : Read Bool := do
  match ← fixed 1 with
  | 0 => return false
  | 1 => return true
  | byte => fail (.invalidBool byte)

def length : Read Nat := fixed 4

def inlineText (limits : Limits) : Read String := do
  let length ← fixed 4
  let limit := limits.maxStringLength.toNat
  if limit < length then fail (.stringTooLong length limit)
  match Utf8.decode (← take length) with
  | .ok text =>
    modify fun r => { r with strings := r.strings.push text }
    return text
  | .error cause => fail (.invalidText cause)

def referencedText : Read String := do
  let index ← fixed 4
  let strings := (← get).strings
  match strings.get? index with
  | some text => return text
  | none => fail (.danglingStringRef index strings.size)

def text (limits : Limits) : Read String := do
  match ← fixed 1 with
  | 0 => inlineText limits
  | 1 => referencedText
  | tag => fail (.invalidStringTag tag)

def block {α : Type} (limits : Limits) (decode : OverlayBlock.Decode α) : Read α := fun r =>
  match decode ⟨r.rest, limits.maxOverlayBytes.toNat⟩ with
  | .ok a s => .ok a { r with rest := s.rest }
  | .error (.error cause) s => .error (.error (.overlay cause)) { r with rest := s.rest }
  | .error (.fault cause) s => .error (.fault cause) { r with rest := s.rest }

def diagnostics (limits : Limits) : Read (List Diagnostic) :=
  block limits OverlayBlock.diagnostics

def annotations (limits : Limits) : Read (List Annotation) :=
  block limits OverlayBlock.annotations

def kind : Read Kind := do
  let tag ← fixed 2
  match Kind.ofTag? tag with
  | some kind => return kind
  | none => fail (.unknownKind tag)

def overlay (limits : Limits) : Read Overlay := do
  let diagnostics ← if ← flag then diagnostics limits else pure []
  let annotations ← if ← flag then annotations limits else pure []
  return { diagnostics, annotations }

def freshCell : Read Nat := do
  let cell := (← get).nextCell
  modify fun r => { r with nextCell := cell + 1 }
  return cell

/-- What was made from a record: a sum of widths that does not fit is an error of the stream. -/
def built {α : Type} : Except Fault α → Read α
  | .ok a => pure a
  | .error (.tooWide kind) => fail (.widthOverflow kind)
  | .error cause => throw (.fault cause)

/-- The run of trivia for a kind and text that everything in this session shares. -/
def intern (kind : Kind) (text : String) : Read Trivia := do
  let cell ← freshCell
  match Interner.ask cell kind text (← get).interner with
  | .ok t interner =>
    modify fun r => { r with interner }
    return t
  | .error cause interner =>
    modify fun r => { r with interner }
    throw (.fault cause)

theorem intern_eq (kind : Kind) (text : String) (r : Reader) : intern kind text r =
    match Interner.ask r.nextCell kind text r.interner with
    | .ok t i => .ok t { r with nextCell := r.nextCell + 1, interner := i }
    | .error cause i =>
      .error (.fault cause) { r with nextCell := r.nextCell + 1, interner := i } := by
  have looked : intern kind text r = (match Interner.ask r.nextCell kind text r.interner with
      | .ok t interner => (do
        modify fun r => { r with interner }
        return t)
      | .error cause interner => (do
        modify fun r => { r with interner }
        throw (.fault cause)) : Read Trivia) { r with nextCell := r.nextCell + 1 } := rfl
  rw [looked]
  cases Interner.ask r.nextCell kind text r.interner <;> rfl

def visit (kind : Kind) : Read Unit :=
  modify fun r => { r with visits := r.visits.push ⟨kind, r.depth⟩ }

def enter : Read Unit := fun r =>
  match addSize r.depth 1 with
  | .ok depth => .ok () { r with depth }
  | .error cause => .error (.fault cause) r

def leave : Read Unit := fun r =>
  if 0 < r.depth then .ok () { r with depth := r.depth - 1 }
  else .error (.fault .differenceOverflow) r

/-- Reads something one record deeper and comes back whether it was read or not. -/
def nested {α : Type} (inside : Read α) : Read α := fun r =>
  match (do enter; inside) r with
  | .ok a r => (do leave; return a) r
  | .error (.error e) r => (do leave; fail e) r
  | .error (.fault cause) r => .error (.fault cause) r

end Reader

end GreenTree
