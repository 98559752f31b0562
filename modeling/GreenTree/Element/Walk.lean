import GreenTree.Element

/-!
Walks and visits. A walker acts on elements one after the other and decides at each node and token
whether to go on to what lies below; left to its defaults it meets every element in source order. A
visitor gives a value for one element and falls back to one rule for the shapes it does not treat.
-/

namespace GreenTree

/-- What to do at each shape of element. A node comes with the walk of its children, a token with
the walks of its leading and of its trailing trivia. -/
structure Walker (m : Type → Type) [Monad m] where
  node : Node Element → m Unit → m Unit := fun _ children => children
  token : Token → m Unit → m Unit → m Unit := fun _ leading trailing => do
    leading
    trailing
  trivia : Trivia → m Unit := fun _ => pure ()

namespace Walker

variable {m : Type → Type} [Monad m]

def walkTrivia (w : Walker m) : List Trivia → m Unit
  | [] => pure ()
  | t :: ts => do
    w.trivia t
    walkTrivia w ts

def walkToken (w : Walker m) (t : Token) : m Unit :=
  w.token t (w.walkTrivia t.leading) (w.walkTrivia t.trailing)

mutual

def walk (w : Walker m) : Element → m Unit
  | .node n => w.node n (walkAll w n.children)
  | .token t => w.walkToken t
  | .trivia t => w.trivia t

def walkAll (w : Walker m) : List Element → m Unit
  | [] => pure ()
  | c :: cs => do
    walk w c
    walkAll w cs

end

end Walker

/-- How to turn an element into a value. The values of what lies below are computed only if a rule
asks for them. -/
structure Visitor (α : Type) where
  fallback : Element → α
  node : Node Element → (Unit → List α) → α := fun n _ => fallback (.node n)
  token : Token → (Unit → List α) → (Unit → List α) → α :=
    fun t _ _ => fallback (.token t)
  trivia : Trivia → α := fun t => fallback (.trivia t)

namespace Visitor

variable {α : Type}

mutual

def visit (v : Visitor α) : Element → α
  | .node n => v.node n fun _ => visitAll v n.children
  | .token t =>
    v.token t (fun _ => t.leading.map v.trivia) (fun _ => t.trailing.map v.trivia)
  | .trivia t => v.trivia t

def visitAll (v : Visitor α) : List Element → List α
  | [] => []
  | c :: cs => visit v c :: visitAll v cs

end

end Visitor

namespace Element

def allTrivia (e : Element) : List Trivia :=
  let walker : Walker (StateM (Array Trivia)) := { trivia := fun t => modify (·.push t) }
  ((walker.walk e).run #[]).2.toList

def allTokens (e : Element) : List Token :=
  let walker : Walker (StateM (Array Token)) := { token := fun t _ _ => modify (·.push t) }
  ((walker.walk e).run #[]).2.toList

/-- Every element met on a walk that notes each one and goes on below it unless its kind is in
`stop`. -/
def met (stop : KindSet) (e : Element) : List Element :=
  let note (e : Element) : StateM (Array Element) Unit := modify (·.push e)
  let walker : Walker (StateM (Array Element)) := {
    node := fun n children => do
      note (.node n)
      if !stop.contains n.head.kind then children
    token := fun t leading trailing => do
      note (.token t)
      if !stop.contains t.head.kind then
        leading
        trailing
    trivia := fun t => note (.trivia t) }
  ((walker.walk e).run #[]).2.toList

end Element

end GreenTree
