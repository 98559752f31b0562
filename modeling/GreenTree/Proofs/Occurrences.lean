import GreenTree.Element.Walk
import Mathlib.Data.List.Basic

/-!
Occurrences: everything in an element in source order, as often as it stands there, an element
before what is in it. A walk does one thing after the other, so in any monad it is an action on a
list, and which list that is is read off the recursion of the element.
-/

namespace GreenTree

/-- The sides of a token on which trivia stand. -/
inductive Side where
  | leading | trailing
deriving DecidableEq, Repr

/-- An element where it stands in another: everything around it from the outside in, and the side of
the token around it if it is trivia of that token. -/
structure Occurrence where
  around : List Element
  side : Option Side
  element : Element

namespace Element

mutual

/-- The element itself and everything below it, trivia of tokens included, each as often as it
stands there. -/
def occurrences : Element → List Element
  | .node n => .node n :: occurrencesOf n.children
  | .token t => .token t :: (t.leading ++ t.trailing).map .trivia
  | .trivia t => [.trivia t]

def occurrencesOf : List Element → List Element
  | [] => []
  | c :: cs => occurrences c ++ occurrencesOf cs

end

mutual

def occurrencesIn (around : List Element) : Element → List Occurrence
  | .node n => ⟨around, none, .node n⟩ :: occurrencesWithin (around ++ [.node n]) n.children
  | .token t =>
    ⟨around, none, .token t⟩ ::
      (t.leading.map (fun s => ⟨around ++ [.token t], some .leading, .trivia s⟩) ++
        t.trailing.map fun s => ⟨around ++ [.token t], some .trailing, .trivia s⟩)
  | .trivia t => [⟨around, none, .trivia t⟩]

def occurrencesWithin (around : List Element) : List Element → List Occurrence
  | [] => []
  | c :: cs => occurrencesIn around c ++ occurrencesWithin around cs

end

@[simp] theorem occurrencesOf_eq (cs : List Element) :
    occurrencesOf cs = cs.flatMap occurrences := by
  induction cs with
  | nil => rfl
  | cons c cs ih => simp [occurrencesOf, ih]

@[simp] theorem occurrencesWithin_eq (around : List Element) (cs : List Element) :
    occurrencesWithin around cs = cs.flatMap (occurrencesIn around) := by
  induction cs with
  | nil => rfl
  | cons c cs ih => simp [occurrencesWithin, ih]

theorem map_element_occurrencesIn (e : Element) (around : List Element) :
    (e.occurrencesIn around).map Occurrence.element = e.occurrences := by
  induction e using Element.induction generalizing around with
  | node n parts =>
    rw [occurrencesIn, occurrencesWithin_eq, occurrences, occurrencesOf_eq, List.map_cons,
      List.map_flatMap]
    exact congrArg _ (List.flatMap_congr fun c mem => parts c mem _)
  | token t => simp [occurrencesIn, occurrences, Function.comp_def]
  | trivia t => rfl

theorem mem_occurrencesIn_node_iff {n : Node Element} {around : List Element} {o : Occurrence} :
    o ∈ (Element.node n).occurrencesIn around ↔
      o = ⟨around, none, .node n⟩ ∨
      ∃ c ∈ n.children, o ∈ c.occurrencesIn (around ++ [.node n]) := by
  rw [occurrencesIn, occurrencesWithin_eq, List.mem_cons, List.mem_flatMap]

theorem mem_occurrencesIn_token_iff {t : Token} {around : List Element} {o : Occurrence} :
    o ∈ (Element.token t).occurrencesIn around ↔ o = ⟨around, none, .token t⟩ ∨
      (∃ s ∈ t.leading, o = ⟨around ++ [.token t], some .leading, .trivia s⟩) ∨
        ∃ s ∈ t.trailing, o = ⟨around ++ [.token t], some .trailing, .trivia s⟩ := by
  rw [occurrencesIn, List.mem_cons, List.mem_append, List.mem_map, List.mem_map]
  simp only [eq_comm]

theorem filterMap_occurrences_node {α : Type} {f : Element → Option α} {n : Node Element}
    (own : f (.node n) = none) :
    (Element.node n).occurrences.filterMap f = n.children.flatMap fun c =>
    c.occurrences.filterMap f := by
  rw [occurrences, occurrencesOf_eq, List.filterMap_cons_none own, List.filterMap_flatMap]

def trivia? : Element → Option Trivia
  | .trivia t => some t
  | _ => none

def text? : Element → Option String
  | .node _ => none
  | .token t => some t.text
  | .trivia t => some t.text

def texts (e : Element) : List String := e.occurrences.filterMap text?

theorem texts_node (n : Node Element) : (Element.node n).texts = n.children.flatMap texts :=
  filterMap_occurrences_node rfl

theorem texts_token (t : Token) :
    (Element.token t).texts = t.text ::
    (t.leading.map Trivia.text ++ t.trailing.map Trivia.text) := by
  have own : text? (.token t) = some t.text := rfl
  rw [texts, occurrences, List.filterMap_cons_some own, List.filterMap_map, ← List.map_append]
  have told : text? ∘ Element.trivia = some ∘ Trivia.text := rfl
  rw [told, List.filterMap_eq_map]

end Element

namespace Walker

section Monads

variable {m : Type → Type} [Monad m]

theorem walkTrivia_eq (w : Walker m) (ts : List Trivia) : w.walkTrivia ts = forM ts w.trivia := by
  induction ts with
  | nil => rfl
  | cons t ts ih =>
    rw [walkTrivia, ih]
    rfl

theorem walkAll_eq (w : Walker m) (cs : List Element) : w.walkAll cs = forM cs w.walk := by
  induction cs with
  | nil => rfl
  | cons c cs ih =>
    rw [walkAll, ih]
    rfl

theorem walkAll_eq_of_parts [LawfulMonad m] {α : Type} {w : Walker m} {cs : List Element}
    {f : Element → List α} {act : α → m Unit}
    (parts : ∀ c ∈ cs, w.walk c = forM (f c) act) :
    w.walkAll cs = forM (cs.flatMap f) act := by
  rw [walkAll_eq]
  induction cs with
  | nil => rfl
  | cons c cs ih =>
    obtain ⟨first, others⟩ := List.forall_mem_cons.1 parts
    rw [List.forM_cons, List.flatMap_cons, List.forM_append, first, ih others]

end Monads

theorem run_forM_push {α : Type} (xs : List α) (noted : Array α) :
    (forM xs fun x => modify (·.push x) : StateM (Array α) Unit).run noted =
      ((), noted ++ xs.toArray) := by
  induction xs generalizing noted with
  | nil =>
    rw [Array.append_empty]
    rfl
  | cons x xs ih =>
    have step : (forM (x :: xs) fun x => modify (·.push x) : StateM (Array α) Unit).run noted =
        (forM xs fun x => modify (·.push x) : StateM (Array α) Unit).run (noted.push x) := rfl
    rw [step, ih]
    simp

end Walker

namespace Element

theorem filterMap_trivia?_token (t : Token) :
    (Element.token t).occurrences.filterMap trivia? = t.leading ++ t.trailing := by
  rw [occurrences, List.filterMap_cons_none rfl, List.filterMap_map]
  exact List.filterMap_some

/-- A walker that has a rule of its own for trivia alone acts on the occurrences that are trivia. -/
theorem walk_trivia {m : Type → Type} [Monad m] [LawfulMonad m] (act : Trivia → m Unit)
    (e : Element) :
    Walker.walk { trivia := act } e = forM (e.occurrences.filterMap trivia?) act := by
  induction e using Element.induction with
  | node n parts =>
    rw [filterMap_occurrences_node rfl]
    exact Walker.walkAll_eq_of_parts parts
  | token t =>
    rw [filterMap_trivia?_token, List.forM_append, ← Walker.walkTrivia_eq { trivia := act },
      ← Walker.walkTrivia_eq { trivia := act }]
    rfl
  | trivia t => exact (bind_pure (act t)).symm

theorem allTrivia_eq (e : Element) : e.allTrivia = e.occurrences.filterMap trivia? := by
  have run : e.allTrivia = ((Walker.walk { trivia := fun t => modify (·.push t) } e :
      StateM (Array Trivia) Unit).run #[]).2.toList := rfl
  rw [run, walk_trivia, Walker.run_forM_push]
  simp

@[simp] theorem allTrivia_node (n : Node Element) :
    (Element.node n).allTrivia = n.children.flatMap allTrivia := by
  rw [allTrivia_eq, filterMap_occurrences_node rfl]
  exact (List.flatMap_congr fun c _ => c.allTrivia_eq).symm

@[simp] theorem allTrivia_token (t : Token) :
    (Element.token t).allTrivia = t.leading ++ t.trailing := by
  rw [allTrivia_eq, filterMap_trivia?_token]

@[simp] theorem allTrivia_trivia (t : Trivia) : (Element.trivia t).allTrivia = [t] := by
  rw [allTrivia_eq]
  rfl

end Element

end GreenTree
