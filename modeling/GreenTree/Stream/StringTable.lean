/-!
Tables of texts, numbered in the order in which they were first written. Writer and reader keep one
each, and a reference in a stream is an index into it.
-/

namespace GreenTree

structure StringTable where
  entries : Array String := #[]
deriving DecidableEq, Repr, Inhabited

namespace StringTable

def empty : StringTable := {}

def index? (t : StringTable) (text : String) : Option Nat := t.entries.idxOf? text

def get? (t : StringTable) (index : Nat) : Option String := t.entries[index]?

def push (t : StringTable) (text : String) : StringTable := ⟨t.entries.push text⟩

def size (t : StringTable) : Nat := t.entries.size

end StringTable

end GreenTree
