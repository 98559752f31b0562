import GreenTree.Element

/-!
Equality of elements: everything that an element keeps and holds counts, except the cell it lives in
and what annotations carry beside their numbers. The hash looks at the same things.
-/

namespace GreenTree

instance : BEq Head :=
  ⟨fun a b => a.kind == b.kind && a.summary == b.summary && a.fullWidth == b.fullWidth &&
    a.overlay == b.overlay⟩

instance : Hashable Head :=
  ⟨fun h => mixHash (mixHash (hash h.kind) (hash h.summary))
    (mixHash (hash h.fullWidth) (hash h.overlay))⟩

instance : BEq Trivia := ⟨fun a b => a.head == b.head && a.text == b.text⟩

instance : Hashable Trivia := ⟨fun t => mixHash (hash t.head) (hash t.text)⟩

instance : BEq Token :=
  ⟨fun a b => a.head == b.head && a.text == b.text && a.leading == b.leading &&
    a.trailing == b.trailing && a.leadingWidth == b.leadingWidth &&
    a.trailingWidth == b.trailingWidth⟩

instance : Hashable Token :=
  ⟨fun t => mixHash (mixHash (hash t.head) (hash t.text))
    (mixHash (mixHash (hash t.leading) (hash t.trailing))
      (mixHash (hash t.leadingWidth) (hash t.trailingWidth)))⟩

namespace Element

mutual

def beq : Element → Element → Bool
  | .node a, .node b => a.head == b.head && beqList a.children b.children
  | .token a, .token b => a == b
  | .trivia a, .trivia b => a == b
  | _, _ => false

def beqList : List Element → List Element → Bool
  | [], [] => true
  | a :: as, b :: bs => beq a b && beqList as bs
  | _, _ => false

end

instance : BEq Element := ⟨beq⟩

mutual

def hashed : Element → UInt64
  | .node n => mixHash 2 (hashedList (hash n.head) n.children)
  | .token t => mixHash 3 (hash t)
  | .trivia t => mixHash 5 (hash t)

def hashedList (seed : UInt64) : List Element → UInt64
  | [] => seed
  | c :: cs => hashedList (mixHash seed (hashed c)) cs

end

instance : Hashable Element := ⟨hashed⟩

end Element

instance : BEq (Node Element) := ⟨fun a b => Element.node a == Element.node b⟩

instance : Hashable (Node Element) := ⟨fun n => hash (Element.node n)⟩

end GreenTree
