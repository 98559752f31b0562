import Mathlib.Algebra.GroupWithZero.Nat
import GreenTree.Element.Build

/-!
Blueprints: what an element is made from and nothing that the makers work out. Two elements have one
blueprint and one content if they differ in their cells alone. The width and the height of a
blueprint are exact numbers, and the element that it denotes is given without any check.
-/

namespace GreenTree

/-- What a run of trivia is made from. -/
structure TriviaBlueprint where
  kind : Kind
  text : String
  overlay : Overlay

/-- What an element is made from. -/
inductive Blueprint where
  | trivia (t : TriviaBlueprint)
  | token (kind : Kind) (missing : Bool) (text : String)
      (leading trailing : List TriviaBlueprint) (overlay : Overlay)
  | node (kind : Kind) (missing : Bool) (children : List Blueprint) (overlay : Overlay)

def TriviaBlueprint.width (t : TriviaBlueprint) : Nat := t.text.utf8ByteSize

namespace Blueprint

def kind : Blueprint → Kind
  | .trivia t => t.kind
  | .token kind .. => kind
  | .node kind .. => kind

def isTrivia : Blueprint → Bool
  | .trivia _ => true
  | _ => false

def missing : Blueprint → Bool
  | .trivia _ => false
  | .token _ missing .. => missing
  | .node _ missing .. => missing

def overlay : Blueprint → Overlay
  | .trivia t => t.overlay
  | .token _ _ _ _ _ overlay => overlay
  | .node _ _ _ overlay => overlay

mutual

def width : Blueprint → Nat
  | .trivia t => t.width
  | .token _ _ text leading trailing _ =>
    (leading.map TriviaBlueprint.width).sum + text.utf8ByteSize +
      (trailing.map TriviaBlueprint.width).sum
  | .node _ _ children _ => widths children

def widths : List Blueprint → Nat
  | [] => 0
  | c :: cs => width c + widths cs

end

mutual

def height : Blueprint → Nat
  | .trivia _ => 1
  | .token _ _ _ leading trailing _ => if leading.isEmpty && trailing.isEmpty then 1 else 2
  | .node _ _ children _ => 1 + heights children

def heights : List Blueprint → Nat
  | [] => 0
  | c :: cs => max (height c) (heights cs)

end

mutual

/-- Everything in a description and the description itself, in the order in which it is finished:
the trivia in front of a token and those behind it before the token, the children of a node from
left to right before the node. -/
def records : Blueprint → List Blueprint
  | .trivia t => [.trivia t]
  | .token kind missing text leading trailing overlay => (leading ++ trailing).map .trivia ++
      [.token kind missing text leading trailing overlay]
  | .node kind missing children overlay => recordsIn children ++
      [.node kind missing children overlay]

def recordsIn : List Blueprint → List Blueprint
  | [] => []
  | c :: cs => records c ++ recordsIn cs

end

/-- What the element says of itself and of everything in it. -/
def summary (d : Blueprint) : Summary where
  missing := d.missing
  diagnostics := d.records.any fun r => !r.overlay.diagnostics.isEmpty
  annotations := d.records.any fun r => !r.overlay.annotations.isEmpty
  skippedText := d.records.any fun r => r.isTrivia && r.kind == .preprocessingMessageTrivia

end Blueprint

def TriviaBlueprint.trivia (t : TriviaBlueprint) : Trivia :=
  ⟨0, ⟨t.kind, (Blueprint.trivia t).summary, t.width, t.overlay⟩, t.text⟩

namespace Blueprint

mutual

/-- The element that is denoted, with every cell at zero. -/
def element : Blueprint → Element
  | .trivia t => .trivia t.trivia
  | .token kind missing text leading trailing overlay =>
    let d := token kind missing text leading trailing overlay
    .token ⟨0, ⟨kind, d.summary, d.width, overlay⟩, text, leading.map TriviaBlueprint.trivia,
      trailing.map TriviaBlueprint.trivia, (leading.map TriviaBlueprint.width).sum,
      (trailing.map TriviaBlueprint.width).sum⟩
  | .node kind missing children overlay =>
    let d := node kind missing children overlay
    .node ⟨0, ⟨kind, d.summary, d.width, overlay⟩, elements children⟩

def elements : List Blueprint → List Element
  | [] => []
  | c :: cs => element c :: elements cs

end

@[simp] theorem widths_eq (cs : List Blueprint) : widths cs = (cs.map width).sum := by
  induction cs with
  | nil => rfl
  | cons c cs ih => simp [widths, ih]

theorem heights_le_iff {cs : List Blueprint} {n : Nat} :
    heights cs ≤ n ↔ ∀ c ∈ cs, c.height ≤ n := by
  induction cs with
  | nil => simp [heights]
  | cons c cs ih => simp only [heights, List.mem_cons, forall_eq_or_imp, ih, Nat.max_le]

theorem height_pos (d : Blueprint) : 0 < d.height := by
  cases d with
  | trivia t => exact Nat.one_pos
  | token kind missing text leading trailing overlay =>
    simp only [height]
    split <;> omega
  | node kind missing children overlay =>
    simp only [height]
    omega

@[simp] theorem elements_eq (cs : List Blueprint) : elements cs = cs.map element := by
  induction cs with
  | nil => rfl
  | cons c cs ih => simp [elements, ih]

/-- What holds of every blueprint holds if it holds of trivia, of tokens, and of nodes whose
children have it. -/
@[elab_as_elim]
theorem induction {P : Blueprint → Prop} (trivia : ∀ t, P (.trivia t))
    (token : ∀ kind missing text leading trailing overlay,
      P (.token kind missing text leading trailing overlay))
    (node : ∀ kind missing children overlay, (∀ c ∈ children, P c) →
      P (.node kind missing children overlay)) (d : Blueprint) : P d :=
  Blueprint.rec (motive_1 := P) (motive_2 := fun cs => ∀ c ∈ cs, P c) trivia token
    (fun kind missing children overlay parts => node kind missing children overlay parts)
    (by simp) (fun _ _ first others => List.forall_mem_cons.2 ⟨first, others⟩) d

@[simp] theorem recordsIn_eq (cs : List Blueprint) : recordsIn cs = cs.flatMap records := by
  induction cs with
  | nil => rfl
  | cons c cs ih => rw [recordsIn, ih, List.flatMap_cons]

def inner : Blueprint → List Blueprint
  | .trivia _ => []
  | .token _ _ _ leading trailing _ => (leading ++ trailing).map .trivia
  | .node _ _ children _ => children.flatMap records

theorem records_eq (d : Blueprint) : d.records = d.inner ++ [d] := by
  cases d with
  | trivia t => rfl
  | token kind missing text leading trailing overlay => rfl
  | node kind missing children overlay => rw [records, recordsIn_eq, inner]

end Blueprint

def Trivia.blueprint (t : Trivia) : TriviaBlueprint := ⟨t.head.kind, t.text, t.head.overlay⟩

def Trivia.content (t : Trivia) : Trivia := { t with cell := 0 }

def Token.content (t : Token) : Token :=
  { t with
    cell := 0
    leading := t.leading.map Trivia.content
    trailing := t.trailing.map Trivia.content }

namespace Element

mutual

/-- What an element was made from. -/
def blueprint : Element → Blueprint
  | .trivia t => .trivia t.blueprint
  | .token t =>
    .token t.head.kind t.head.summary.missing t.text (t.leading.map Trivia.blueprint)
      (t.trailing.map Trivia.blueprint) t.head.overlay
  | .node n => .node n.head.kind n.head.summary.missing (blueprints n.children) n.head.overlay

def blueprints : List Element → List Blueprint
  | [] => []
  | c :: cs => blueprint c :: blueprints cs

end

mutual

def content : Element → Element
  | .trivia t => .trivia t.content
  | .token t => .token t.content
  | .node n => .node ⟨0, n.head, contents n.children⟩

def contents : List Element → List Element
  | [] => []
  | c :: cs => content c :: contents cs

end

/-- Whether two elements agree in everything that they say and hold: only the cells may differ. -/
def Verbatim (a b : Element) : Prop := a.content = b.content

def recordHeight (e : Element) : Nat := e.blueprint.height

@[simp] theorem blueprints_eq (cs : List Element) : blueprints cs = cs.map blueprint := by
  induction cs with
  | nil => rfl
  | cons c cs ih => simp [blueprints, ih]

@[simp] theorem contents_eq (cs : List Element) : contents cs = cs.map content := by
  induction cs with
  | nil => rfl
  | cons c cs ih => simp [contents, ih]

@[simp] theorem content_head (e : Element) : e.content.head = e.head := by
  cases e <;> rfl

@[simp] theorem content_fullWidth (e : Element) : e.content.fullWidth = e.fullWidth := by
  simp [fullWidth]

@[simp] theorem blueprint_kind (e : Element) : e.blueprint.kind = e.kind := by
  cases e <;> rfl

@[simp] theorem blueprint_isTrivia (e : Element) : e.blueprint.isTrivia = e.isTrivia := by
  cases e <;> rfl

end Element

end GreenTree
