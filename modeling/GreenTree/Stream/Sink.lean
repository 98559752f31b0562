/-!
Sinks for bytes, with or without an end to their room. A write that does not fit delivers what does
and fails; a write of nothing always succeeds.
-/

namespace GreenTree

/-- What a sink has taken, and how many more bytes it takes; without a number it takes any. -/
structure ByteSink where
  written : Array UInt8 := #[]
  room : Option Nat := none
deriving DecidableEq, Repr, Inhabited

namespace ByteSink

def write (sink : ByteSink) (bytes : List UInt8) : ByteSink × Bool :=
  match sink.room with
  | none => ({ sink with written := sink.written ++ bytes }, true)
  | some room =>
    if bytes.length ≤ room then
      (⟨sink.written ++ bytes, some (room - bytes.length)⟩, true)
    else (⟨sink.written ++ bytes.take room, some 0⟩, false)

end ByteSink

end GreenTree
