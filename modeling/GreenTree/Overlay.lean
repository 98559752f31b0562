import GreenTree.Annotation
import GreenTree.Diagnostic
import GreenTree.Summary

/-!
Overlays: the diagnostics and annotations that ride along with an element without being part of its
structure. Both lists keep their order and may repeat a member.
-/

namespace GreenTree

/-- What is attached to one element. -/
structure Overlay where
  diagnostics : List Diagnostic := []
  annotations : List Annotation := []
deriving DecidableEq, Repr, Inhabited

namespace Overlay

instance : BEq Overlay :=
  ⟨fun a b => a.diagnostics == b.diagnostics && a.annotations == b.annotations⟩

instance : Hashable Overlay := ⟨fun a => mixHash (hash a.diagnostics) (hash a.annotations)⟩

def empty : Overlay := {}

def isEmpty (o : Overlay) : Bool := o.diagnostics.isEmpty && o.annotations.isEmpty

def summary (o : Overlay) : Summary where
  diagnostics := !o.diagnostics.isEmpty
  annotations := !o.annotations.isEmpty

def shown (o : Overlay) : Shown :=
  .record "Overlay"
    [("diagnostics", .list (o.diagnostics.map Diagnostic.shown)),
      ("annotations", .list (o.annotations.map Annotation.shown))] false

end Overlay

end GreenTree
