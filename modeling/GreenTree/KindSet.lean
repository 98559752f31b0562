import GreenTree.Kind

/-!
Sets of kinds, one bit per tag, combined bit by bit. The shape classes are sets too: what may be
trivia, a token, a node, or a child of a node is decided by membership in one of them. `toList`
lists the members in tag order.
-/

namespace GreenTree

/-- A set of kinds; the bit at a kind's tag says whether the kind is a member. -/
structure KindSet where
  bits : BitVec 64
deriving DecidableEq, Repr

namespace KindSet

def empty : KindSet := ⟨0⟩

instance : Inhabited KindSet := ⟨empty⟩

instance : EmptyCollection KindSet := ⟨empty⟩

def insert (s : KindSet) (k : Kind) : KindSet := ⟨s.bits ||| BitVec.twoPow 64 k.tag⟩

def union (s t : KindSet) : KindSet := ⟨s.bits ||| t.bits⟩

def difference (s t : KindSet) : KindSet := ⟨s.bits &&& ~~~t.bits⟩

def contains (s : KindSet) (k : Kind) : Bool := s.bits.getLsbD k.tag

/-- The number of bits that are set. -/
def size (s : KindSet) : Nat := (List.range 64).countP fun i => s.bits.getLsbD i

def isEmpty (s : KindSet) : Bool := s.size == 0

def toList (s : KindSet) : List Kind := Kind.all.filter s.contains

def ofList (kinds : List Kind) : KindSet := kinds.foldl insert empty

def all : KindSet := ofList Kind.all

def trivia : KindSet :=
  ofList [.whitespaceTrivia, .endOfLineTrivia, .singleLineCommentTrivia, .multiLineCommentTrivia,
    .documentationCommentTrivia, .disabledTextTrivia, .skippedTokensTrivia,
    .preprocessingMessageTrivia]

def tokens : KindSet :=
  ofList [.leftParen, .rightParen, .leftBrace, .rightBrace, .comma, .semicolon, .dot, .equals,
    .plus, .minus, .star, .slash, .funKw, .valKw, .ifKw, .elseKw, .returnKw, .ident, .number,
    .stringLit, .unknown, .eof]

def nodes : KindSet := all.difference (trivia.union tokens)

def children : KindSet := tokens.union nodes

@[simp] theorem contains_empty (k : Kind) : empty.contains k = false := by
  simp [contains, empty]

@[simp] theorem contains_union (s t : KindSet) (k : Kind) :
    (s.union t).contains k = (s.contains k || t.contains k) := by
  simp [contains, union]

@[simp] theorem mem_toList (s : KindSet) (k : Kind) : k ∈ s.toList ↔ s.contains k = true := by
  simp [toList, Kind.mem_all]

end KindSet

namespace Kind

def isTrivia (k : Kind) : Bool := KindSet.trivia.contains k

def isToken (k : Kind) : Bool := KindSet.tokens.contains k

def isNode (k : Kind) : Bool := KindSet.nodes.contains k

end Kind

end GreenTree
