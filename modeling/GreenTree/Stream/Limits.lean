import GreenTree.Text.Shown

/-!
Limits on streams. Both sides refuse what is past a limit, so a hostile stream can cost no more than
its reader allows.
-/

namespace GreenTree

/-- How deep records may nest, how long texts and overlay blocks may be, and whether a text that was
already written is written as a reference to its first occurrence. -/
structure Limits where
  maxDepth : UInt32 := 512
  maxStringLength : UInt32 := 16 * 1024 * 1024
  maxOverlayBytes : UInt64 := 1024 * 1024
  shareStrings : Bool := true
deriving DecidableEq, Repr, Inhabited

namespace Limits

def standard : Limits := {}

def shown (l : Limits) : Shown :=
  .record "WireConfig"
    [("max_depth", .number l.maxDepth.toNat), ("max_string_len", .number l.maxStringLength.toNat),
      ("max_overlay_bytes", .number l.maxOverlayBytes.toNat),
      ("dedupe_strings", .truth l.shareStrings)] false

end Limits

end GreenTree
