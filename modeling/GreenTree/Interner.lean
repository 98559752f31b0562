import GreenTree.Element.Build

/-!
Interning trivia: runs of trivia with nothing attached that agree in kind and text can share one
cell. An interner remembers every run it has given out and gives the same one again. It looks a run
up by kind first and by text then; the place for a kind is there from the first time that the kind
is asked for, also if no run of that kind can be made.
-/

namespace GreenTree

/-- The runs of one kind of trivia given out so far, in the order in which they were first asked
for. -/
structure Shelf where
  kind : Kind
  runs : List Trivia := []
  own : ∀ t ∈ runs, t.head.kind = kind := by simp
deriving Repr

namespace Shelf

def find? (s : Shelf) (text : String) : Option Trivia := s.runs.find? fun t => t.text == text

/-- Puts a run of the shelf's kind on it. A run of another kind does not belong there. -/
def put (t : Trivia) (s : Shelf) : Shelf :=
  if same : t.head.kind = s.kind then
    { s with
      runs := s.runs ++ [t]
      own := fun u listed => by
        rcases List.mem_append.1 listed with old | last
        · exact s.own u old
        · exact List.mem_singleton.1 last ▸ same }
  else s

end Shelf

/-- The runs of trivia given out so far, by kind; a shelf may be empty. -/
structure Interner where
  shelves : List Shelf := []
deriving Repr, Inhabited

namespace Interner

def entries (i : Interner) : List Trivia := i.shelves.flatMap Shelf.runs

def find? (i : Interner) (kind : Kind) (text : String) : Option Trivia :=
  (i.shelves.find? fun s => s.kind == kind).bind fun s => s.find? text

def opened (kind : Kind) (i : Interner) : Interner :=
  if i.shelves.any fun s => s.kind == kind then i else ⟨i.shelves ++ [{ kind := kind }]⟩

def put (t : Trivia) (i : Interner) : Interner := ⟨i.shelves.map (Shelf.put t)⟩

/-- Asks for the run for a kind and text. A run that is not known yet is made in `cell`; the shelf
for its kind is opened before, and stays if no run can be made. -/
def ask (cell : Nat) (kind : Kind) (text : String) : EStateM Fault Interner Trivia := do
  modify (opened kind)
  match (← get).find? kind text with
  | some t => return t
  | none =>
    match Trivia.make cell kind text .empty with
    | .ok t =>
      modify (put t)
      return t
    | .error cause => throw cause

def intern (i : Interner) (cell : Nat) (kind : Kind) (text : String) :
    Except Fault (Trivia × Interner) :=
  match ask cell kind text i with
  | .ok t i' => .ok (t, i')
  | .error cause _ => .error cause

def size (i : Interner) : Nat := i.shelves.foldr (fun s n => s.runs.length + n) 0

def isEmpty (i : Interner) : Bool := i.size == 0

end Interner

end GreenTree
