import GreenTree.Text.Quoted
import GreenTree.Text.Shown

/-!
Annotations: marks that tools put on elements. A mark is told from every other by its number alone;
the kind and data it carries do not count. New marks take their numbers from a source that counts
up.
-/

namespace GreenTree

structure Annotation where
  id : UInt64
  kind : Option String
  data : Option String
deriving DecidableEq, Repr, Inhabited

namespace Annotation

instance : BEq Annotation := ⟨fun a b => a.id == b.id⟩

instance : Hashable Annotation := ⟨fun a => hash a.id⟩

@[simp] theorem beq_eq (a b : Annotation) : (a == b) = (a.id == b.id) := rfl

instance : LawfulHashable Annotation where
  hash_eq a b same := by
    have : a.id = b.id := by simpa using same
    simp only [Hashable.hash, this]

def shown (a : Annotation) : Shown :=
  let field (text : Option String) : Shown := .option (text.map fun s => .leaf (quoted s))
  .record "SyntaxAnnotation"
    [("id", .number a.id.toNat), ("kind", field a.kind), ("data", field a.data)] false

end Annotation

/-- Where the numbers of new marks come from: `next` is the first one not given out. -/
structure IdSource where
  next : UInt64 := 1
deriving DecidableEq, Repr, Inhabited

namespace IdSource

def annotation (source : IdSource) (kind data : Option String) : Annotation × IdSource :=
  (⟨source.next, kind, data⟩, ⟨source.next + 1⟩)

end IdSource

end GreenTree
