import GreenTree.Text.Quoted
import GreenTree.Text.Shown
import GreenTree.Text.Size

/-!
Diagnostics: what is wrong with an element, how bad it is, and which part of the element it is
about. A diagnostic is placed relative to the start of its element and gets an absolute range from
that start.
-/

namespace GreenTree

inductive Severity where
  | hidden | info | warning | error
deriving DecidableEq, Repr, Hashable, Inhabited

namespace Severity

def all : List Severity := [.hidden, .info, .warning, .error]

def rank (s : Severity) : Nat := s.ctorIdx

def ofRank? (rank : Nat) : Option Severity := all[rank]?

def label : Severity → String
  | .hidden => "hidden"
  | .info => "info"
  | .warning => "warning"
  | .error => "error"

def ofLabel? (label : String) : Option Severity := all.find? (·.label == label)

def name : Severity → String
  | .hidden => "Hidden"
  | .info => "Info"
  | .warning => "Warning"
  | .error => "Error"

def ofName? (name : String) : Option Severity := all.find? (·.name == name)

instance : LE Severity := ⟨fun a b => a.rank ≤ b.rank⟩

instance (a b : Severity) : Decidable (a ≤ b) := inferInstanceAs (Decidable (a.rank ≤ b.rank))

@[simp] theorem ofRank?_rank (s : Severity) : ofRank? s.rank = some s := by
  cases s <;> rfl

end Severity

structure Code where
  number : UInt16
deriving DecidableEq, Repr, Hashable, Inhabited

namespace Code

def label (c : Code) : String :=
  let digits := toString c.number.toNat
  "VD" ++ String.ofList (List.replicate (4 - digits.length) '0') ++ digits

def shown (c : Code) : Shown := .tuple "DiagnosticCode" [.number c.number.toNat]

instance : LE Code := ⟨fun a b => a.number ≤ b.number⟩

instance (a b : Code) : Decidable (a ≤ b) := inferInstanceAs (Decidable (a.number ≤ b.number))

end Code

/-- A problem with an element; `offset` and `width` are counted from the start of its full text. -/
structure Diagnostic where
  code : Code
  severity : Severity
  offset : UInt32
  width : UInt32
  arguments : List String
deriving DecidableEq, Repr, Hashable, Inhabited

namespace Diagnostic

def rangeAt (d : Diagnostic) (start : Nat) : Except Fault Span := do
  let first ← addSize start d.offset.toNat
  Span.ofLength first d.width.toNat

def label (d : Diagnostic) : String :=
  d.severity.label ++ " " ++ d.code.label ++
    (if d.arguments.isEmpty then "" else " (" ++ ", ".intercalate d.arguments ++ ")")

def shown (d : Diagnostic) : Shown :=
  .record "SyntaxDiagnostic"
    [("code", d.code.shown), ("severity", .leaf d.severity.name),
      ("offset", .number d.offset.toNat), ("width", .number d.width.toNat),
      ("arguments", .list (d.arguments.map fun a => .leaf (quoted a)))] false

end Diagnostic

end GreenTree
