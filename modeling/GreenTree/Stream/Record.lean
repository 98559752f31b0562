import GreenTree.Stream.Registry

/-!
Reading records. A record is begun if it is not too deep, its kind is known, allowed where it stands
and registered; then its header is read, and the reader of its kind reads the rest one level deeper.
Reading ends because each level uses up one of the levels that the limit allows.
-/

namespace GreenTree.Reader

/-- How whole records are read inside a record: by the kinds allowed and the name of the error. -/
abbrev Inner := KindSet → String → Read Element

def triviaRecord (inner : Inner) : Read Trivia := do
  match ← inner KindSet.trivia "trivia" with
  | .trivia t => return t
  | other => fail (.unexpectedShape "trivia" other.kind)

def triviaList (inner : Inner) : Read (List Trivia) := do
  repeated (← length) (triviaRecord inner)

/-- Reads the contents of trivia; with nothing attached it is shared. -/
def triviaContents (limits : Limits) (h : RecordHeader) : Read Element := do
  if !h.kind.isTrivia then fail (.unexpectedShape "trivia" h.kind)
  let text ← text limits
  if h.overlay.isEmpty then
    return .trivia (← intern h.kind text)
  else
    return .trivia (← built (Trivia.make (← freshCell) h.kind text h.overlay))

def tokenContents (limits : Limits) (inner : Inner) (h : RecordHeader) : Read Element := do
  if !h.kind.isToken then fail (.unexpectedShape "token" h.kind)
  let text ← text limits
  let leading ← triviaList inner
  let trailing ← triviaList inner
  let cell ← freshCell
  return .token (← built
    (Token.ofParts cell h.kind h.summary text leading trailing h.overlay))

def nodeContents (inner : Inner) (h : RecordHeader) : Read Element := do
  if !h.kind.isNode then fail (.unexpectedShape "node" h.kind)
  let children ← repeated (← length) (inner KindSet.children "node or token")
  let cell ← freshCell
  return .node (← built (Node.ofParts cell h.kind h.summary children h.overlay))

def answer (limits : Limits) (inner : Inner) : (request : Request) → Read request.Answer
  | .byte => fixed 1
  | .half => fixed 2
  | .word => fixed 4
  | .flag => flag
  | .length => length
  | .text => text limits
  | .diagnostics => diagnostics limits
  | .annotations => annotations limits
  | .element allowed expected => inner allowed expected
  | .trivia => triviaRecord inner
  | .intern kind text => intern kind text

/-- Follows a script. A script learns of errors and may go on; faults end it. -/
def follow {α : Type} (limits : Limits) (inner : Inner) : Script α → Read α
  | .done a => pure a
  | .fail failure => throw failure
  | .ask request next => fun r =>
    match answer limits inner request r with
    | .ok a r => follow limits inner (next (.ok a)) r
    | .error (.error e) r => follow limits inner (next (.error e)) r
    | .error (.fault cause) r => .error (.fault cause) r
  | .cell next => do
    let cell ← freshCell
    follow limits inner (next cell)

def contents (limits : Limits) (inner : Inner) (h : RecordHeader) : RecordReader → Read Element
  | .trivia => triviaContents limits h
  | .token => tokenContents limits inner h
  | .node => nodeContents inner h
  | .script script => follow limits inner (script h)

/-- Reads the header of a record, which has to stand no deeper than records may nest and to be of
a kind that is allowed, and finds the reader for its kind. -/
def header (registry : Registry) (limits : Limits) (allowed : KindSet) (expected : String) :
    Read (RecordHeader × RecordReader) := do
  if limits.maxDepth.toNat ≤ (← get).depth then fail (.tooDeep limits.maxDepth.toNat)
  let kind ← kind
  if !allowed.contains kind then fail (.unexpectedShape expected kind)
  match registry.find? kind with
  | none => fail (.unregisteredKind kind)
  | some reader =>
    let summary := Summary.ofBitsTruncate (← fixed 2)
    let overlay ← overlay limits
    return (⟨kind, summary, overlay⟩, reader)

def recordWith (registry : Registry) (limits : Limits) (inner : Inner) : Inner :=
  fun allowed expected => do
    let opening ← header registry limits allowed expected
    visit opening.1.kind
    nested (contents limits inner opening.1 opening.2)

/-- Reads a whole record; `levels` more records may nest. -/
def record (registry : Registry) (limits : Limits) : Nat → Inner
  | 0 => fun _ _ => fail (.tooDeep limits.maxDepth.toNat)
  | levels + 1 => recordWith registry limits (record registry limits levels)

theorem record_succ (registry : Registry) (limits : Limits) (levels : Nat) :
    record registry limits (levels + 1) =
      recordWith registry limits (record registry limits levels) := rfl

/-- Each record around takes one level and adds one to the depth, so what holds where no level is
left, and of a record if it holds of those in it, holds wherever a session can be. -/
@[elab_as_elim]
theorem record_induction {registry : Registry} {limits : Limits} {motive : Nat → Inner → Prop}
    (deepest : motive limits.maxDepth.toNat fun _ _ => fail (.tooDeep limits.maxDepth.toNat))
    (record : ∀ depth inner, depth < limits.maxDepth.toNat → motive (depth + 1) inner →
      motive depth (recordWith registry limits inner)) {depth levels : Nat}
    (total : depth + levels = limits.maxDepth.toNat) :
    motive depth (Reader.record registry limits levels) := by
  induction levels generalizing depth with
  | zero =>
    obtain rfl : depth = limits.maxDepth.toNat := total
    exact deepest
  | succ levels ih => exact record depth _ (by omega) (ih (by omega))

/-- Whether whole records are read in terms of the records in them, in every session. -/
def Solves (registry : Registry) (limits : Limits) (inner : Inner) : Prop :=
  ∀ allowed expected r,
    inner allowed expected r = recordWith registry limits inner allowed expected r

/-- Reads a whole record at the level that the session is at. The levels do not show: this is the
only way to read records in terms of the records in them (`solves_iff`). -/
def element (registry : Registry) (limits : Limits) : Inner := fun allowed expected => do
  record registry limits (limits.maxDepth.toNat - (← get).depth) allowed expected

def serve (registry : Registry) (limits : Limits) (request : Request) : Read request.Answer :=
  answer limits (element registry limits) request

end GreenTree.Reader
