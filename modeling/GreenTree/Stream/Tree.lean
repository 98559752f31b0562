import GreenTree.Stream.Record
import GreenTree.Stream.Writer

/-!
Streams of whole trees: four bytes that name the format, one for its version, and the record of the
root.
-/

namespace GreenTree

def streamMagic : List UInt8 := [0x56, 0x47, 0x52, 0x4e]

def streamVersion : Nat := 1

namespace Writer

def tree (limits : Limits) (root : Element) : Write Unit := do
  bytes streamMagic
  fixed 1 streamVersion
  element limits root

end Writer

namespace Reader

def tree (registry : Registry) (limits : Limits) : Read Element := do
  if (← take 4) != streamMagic then fail .badMagic
  let version ← fixed 1
  if version != streamVersion then fail (.unsupportedVersion version)
  element registry limits KindSet.all "green"

end Reader

namespace Element

def toBytes (root : Element) : Except WriteError (List UInt8) :=
  match Writer.tree .standard root {} with
  | .ok _ w => .ok w.sink.written.toList
  | .error e _ => .error e

/-- The element that a stream stands for under the standard limits, with nothing behind it. Its
cells are numbered from `firstCell` on. -/
def ofBytes (firstCell : Nat) (bytes : List UInt8) : Except ReadFailure Element :=
  match Reader.tree .standard .standard { rest := bytes, nextCell := firstCell } with
  | .ok root r =>
    if r.rest.isEmpty then .ok root else .error (.error (.trailingBytes r.rest.length))
  | .error failure _ => .error failure

end Element

end GreenTree
