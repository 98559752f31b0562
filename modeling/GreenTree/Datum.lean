import GreenTree.Overlay
import GreenTree.Stream.Limits

/-!
Self-describing data: the form in which limits, diagnostics and annotations stand in the files of
other programs. A record is read from named fields or from its fields in order; a number is read
only if it is a whole number in range. Reading what was written gives the value back.
-/

namespace GreenTree

inductive Datum where
  | null
  | truth (b : Bool)
  | integer (n : Int)
  | fraction
  | text (s : String)
  | list (items : List Datum)
  | record (fields : List (String × Datum))
deriving Inhabited

namespace Datum

def unsigned? (limit : Nat) : Datum → Option Nat
  | .integer (.ofNat n) => if n < limit then some n else none
  | _ => none

def truth? : Datum → Option Bool
  | .truth b => some b
  | _ => none

def text? : Datum → Option String
  | .text s => some s
  | _ => none

def optionalText? : Datum → Option (Option String)
  | .null => some none
  | .text s => some (some s)
  | _ => none

def texts? : Datum → Option (List String)
  | .list items => items.mapM text?
  | _ => none

def field? (fields : List (String × Datum)) (name : String) : Option Datum :=
  (fields.find? fun f => f.1 == name).map Prod.snd

def orDefault {α : Type} (read : Datum → Option α) (default : α) : Option Datum → Option α
  | none => some default
  | some d => read d

def ofOptionalText : Option String → Datum
  | none => .null
  | some s => .text s

end Datum

namespace Code

def toDatum (c : Code) : Datum := .integer c.number.toNat

def ofDatum? (d : Datum) : Option Code := do
  return ⟨UInt16.ofNat (← d.unsigned? UInt16.size)⟩

end Code

namespace Severity

def toDatum (s : Severity) : Datum := .text s.name

def ofDatum? : Datum → Option Severity
  | .text name => ofName? name
  | .record [(name, .null)] => ofName? name
  | _ => none

end Severity

namespace Diagnostic

def toDatum (d : Diagnostic) : Datum :=
  .record
    [("code", d.code.toDatum), ("severity", d.severity.toDatum),
      ("offset", .integer d.offset.toNat), ("width", .integer d.width.toNat),
      ("arguments", .list (d.arguments.map .text))]

def ofParts? (code severity offset width arguments : Datum) : Option Diagnostic := do
  return {
    code := ← Code.ofDatum? code
    severity := ← Severity.ofDatum? severity
    offset := UInt32.ofNat (← offset.unsigned? UInt32.size)
    width := UInt32.ofNat (← width.unsigned? UInt32.size)
    arguments := ← arguments.texts? }

def ofDatum? : Datum → Option Diagnostic
  | .record fields => do
    ofParts? (← Datum.field? fields "code") (← Datum.field? fields "severity")
      (← Datum.field? fields "offset") (← Datum.field? fields "width")
      (← Datum.field? fields "arguments")
  | .list [code, severity, offset, width, arguments] =>
    ofParts? code severity offset width arguments
  | _ => none

end Diagnostic

namespace Annotation

def toDatum (a : Annotation) : Datum :=
  .record
    [("id", .integer a.id.toNat), ("kind", .ofOptionalText a.kind),
      ("data", .ofOptionalText a.data)]

def ofParts? (id kind data : Datum) : Option Annotation := do
  return {
    id := UInt64.ofNat (← id.unsigned? UInt64.size)
    kind := ← kind.optionalText?
    data := ← data.optionalText? }

def ofDatum? : Datum → Option Annotation
  | .record fields => do
    ofParts? (← Datum.field? fields "id") ((Datum.field? fields "kind").getD .null)
      ((Datum.field? fields "data").getD .null)
  | .list [id, kind, data] => ofParts? id kind data
  | _ => none

end Annotation

namespace Limits

def toDatum (l : Limits) : Datum :=
  .record
    [("max_depth", .integer l.maxDepth.toNat), ("max_string_len", .integer l.maxStringLength.toNat),
      ("max_overlay_bytes", .integer l.maxOverlayBytes.toNat),
      ("dedupe_strings", .truth l.shareStrings)]

def ofParts? (depth length bytes share : Option Datum) : Option Limits := do
  let l := standard
  return {
    maxDepth :=
      UInt32.ofNat (← Datum.orDefault (Datum.unsigned? UInt32.size) l.maxDepth.toNat depth)
    maxStringLength :=
      UInt32.ofNat
        (← Datum.orDefault (Datum.unsigned? UInt32.size) l.maxStringLength.toNat length)
    maxOverlayBytes :=
      UInt64.ofNat (← Datum.orDefault (Datum.unsigned? UInt64.size) l.maxOverlayBytes.toNat bytes)
    shareStrings := ← Datum.orDefault Datum.truth? l.shareStrings share }

def ofDatum? : Datum → Option Limits
  | .record fields =>
    ofParts? (Datum.field? fields "max_depth") (Datum.field? fields "max_string_len")
      (Datum.field? fields "max_overlay_bytes") (Datum.field? fields "dedupe_strings")
  | .list items =>
    if items.length ≤ 4 then ofParts? items[0]? items[1]? items[2]? items[3]? else none
  | _ => none

end Limits

end GreenTree
