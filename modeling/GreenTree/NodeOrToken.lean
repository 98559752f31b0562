/-!
Values that are either about a node or about a token. Every node comes before every token in their
order.
-/

namespace GreenTree

inductive NodeOrToken (N T : Type) where
  | node (node : N)
  | token (token : T)
deriving DecidableEq, Repr, Hashable

namespace NodeOrToken

variable {N T : Type}

instance [BEq N] [BEq T] : BEq (NodeOrToken N T) where
  beq
    | .node a, .node b => a == b
    | .token a, .token b => a == b
    | _, _ => false

def node? : NodeOrToken N T → Option N
  | .node n => some n
  | .token _ => none

def token? : NodeOrToken N T → Option T
  | .node _ => none
  | .token t => some t

def isNode (e : NodeOrToken N T) : Bool := e.node?.isSome

def elim {α : Type} (ofNode : N → α) (ofToken : T → α) : NodeOrToken N T → α
  | .node n => ofNode n
  | .token t => ofToken t

instance [Ord N] [Ord T] : Ord (NodeOrToken N T) where
  compare
    | .node a, .node b => compare a b
    | .node _, .token _ => .lt
    | .token _, .node _ => .gt
    | .token a, .token b => compare a b

end NodeOrToken

end GreenTree
