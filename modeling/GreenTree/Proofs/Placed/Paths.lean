import GreenTree.Proofs.Equality
import GreenTree.Proofs.Placed.Positions
import Mathlib.Data.List.Infix

/-!
Handles and the paths that lead to them. Going down from the root of a tree index by index leads to
the handles that are reached there, and to one handle for each path. A handle keeps its index and
the places above it, so its path can be read off it: equal handles have one path, whatever else is
alike about the places that they name, and one path leads to equal handles in equal trees.
-/

namespace GreenTree

namespace PlacedElement

def indices (h : PlacedElement) : List Nat := h.index :: h.above.map Place.index

end PlacedElement

/-! ### Ways down -/

namespace PlacedNode

variable {n : PlacedNode} {cs : List Element} {position index : Nat} {placed : List PlacedElement}

theorem placeFrom_take (all : n.placeFrom position index cs = .ok placed) (k : Nat) :
    n.placeFrom position index (cs.take k) = .ok (placed.take k) := by
  induction cs generalizing position index placed k with
  | nil =>
    obtain rfl : [] = placed := Except.ok.inj all
    rw [List.take_nil, List.take_nil]
    rfl
  | cons c cs ih =>
    obtain ⟨next, h, rest, size, made, behind, rfl⟩ := placeFrom_cons_eq_ok_iff.1 all
    cases k with
    | zero => rfl
    | succ k => exact placeFrom_cons_eq_ok_iff.2 ⟨next, h, _, size, made, ih behind k, rfl⟩

theorem child?_of_childrenWithTokens (all : n.childrenWithTokens = .ok placed) (i : Nat) :
    n.child? i = .ok placed[i]? := by
  rw [child?, placeFrom_take all]
  change Except.ok (placed.take (i + 1))[i]? = _
  rw [List.getElem?_take_of_lt (Nat.lt_succ_self i)]

end PlacedNode

namespace PlacedElement

variable {root : Node Element} {path : List Nat} {h : PlacedElement}

theorem descend_cons_eq_ok_iff {n : PlacedNode} {i : Nat} :
    descend (.node n) (i :: path) = .ok h ↔ ∃ c, n.child? i = .ok (some c) ∧
    c.descend path = .ok h := by
  rw [descend]
  rcases n.child? i with cause | _ | c <;> simp

theorem descend_concat {e : PlacedElement} {n : PlacedNode} {i : Nat}
    (way : e.descend path = .ok (.node n)) (child : n.child? i = .ok (some h)) :
    e.descend (path ++ [i]) = .ok h := by
  induction path generalizing e with
  | nil =>
    obtain rfl : e = .node n := Except.ok.inj way
    exact descend_cons_eq_ok_iff.2 ⟨h, child, rfl⟩
  | cons j path ih =>
    cases e with
    | node m =>
      obtain ⟨c, first, rest⟩ := descend_cons_eq_ok_iff.1 way
      exact descend_cons_eq_ok_iff.2 ⟨c, first, ih rest⟩
    | token t => cases way

theorem Reached.descend (reached : Reached root path h) :
    PlacedElement.descend (.node (.root root)) path = .ok h := by
  induction reached using Reached.induction with
  | start => rfl
  | step _ all found ih =>
    exact descend_concat ih (found ▸ PlacedNode.child?_of_childrenWithTokens all _)

theorem Reached.of_descend (sound : (Element.node root).Sound) {front : List Nat}
    {e : PlacedElement} (reached : Reached root front e) (way : e.descend path = .ok h) :
    Reached root (front ++ path) h := by
  induction path generalizing front e with
  | nil =>
    obtain rfl : e = h := Except.ok.inj way
    rwa [List.append_nil]
  | cons i path ih =>
    cases e with
    | node n =>
      obtain ⟨c, child, rest⟩ := descend_cons_eq_ok_iff.1 way
      obtain ⟨placed, all, -⟩ := reached.exists_childrenWithTokens sound
      have found : placed[i]? = some c :=
        Except.ok.inj ((PlacedNode.child?_of_childrenWithTokens all i).symm.trans child)
      have below := ih (reached.childWithTokens all found) rest
      rwa [List.append_assoc] at below
    | token t => cases way

/-- The handles that are reached in a sound tree are those at the ends of ways down from its
root. -/
theorem descend_eq_ok_iff (sound : (Element.node root).Sound) :
    PlacedElement.descend (.node (.root root)) path = .ok h ↔ Reached root path h :=
  ⟨fun way => Reached.root.of_descend sound way, Reached.descend⟩

/-- The indices from a handle up to the root are those of its path from the end, and that of the
root. -/
theorem Reached.indices_eq (reached : Reached root path h) : h.indices = path.reverse ++ [0] := by
  induction reached using Reached.induction with
  | start => rfl
  | @step path n placed i h above all found ih =>
    obtain ⟨own, places⟩ := PlacedNode.index_of_childrenWithTokens all found
    have indices : n.places.map Place.index = path.reverse ++ [0] := ih
    rw [PlacedElement.indices, own, places, indices, List.reverse_append]
    rfl

end PlacedElement

theorem PlacedElement.Reached.ancestors {root : Node Element} {path : List Nat} {n : PlacedNode}
    (reached : Reached root path (.node n)) :
    List.Forall₂ (fun a p => Reached root p (.node a)) n.ancestors path.inits.reverse := by
  generalize same : NodeOrToken.node n = h at reached
  induction reached using Reached.induction generalizing n with
  | start =>
    obtain rfl := NodeOrToken.node.inj same
    exact .cons .root .nil
  | @step path m placed i h above all found ih =>
    subst same
    obtain ⟨-, places⟩ := PlacedNode.index_of_childrenWithTokens all found
    have split : n.ancestors = n :: m.ancestors := by
      change n :: PlacedNode.ofEach n.above = _
      rw [show n.above = m.places from places]
      rfl
    rw [split, List.inits_append, List.reverse_append]
    exact .cons (.childWithTokens above all found) (ih rfl)

/-! ### Equality -/

def Node.unlabelled (n : Node Element) : Node Element :=
  ⟨0, n.head.unlabelled, n.children.map Element.unlabelled⟩

theorem Element.unlabelled_node (n : Node Element) :
    (Element.node n).unlabelled = .node n.unlabelled := by
  rw [unlabelled, allUnlabelled_eq]
  rfl

theorem Node.beq_iff (n m : Node Element) : (n == m) = true ↔ n.unlabelled = m.unlabelled := by
  change (Element.node n == Element.node m) = true ↔ _
  rw [Element.beq_iff, Element.unlabelled_node, Element.unlabelled_node, Element.node.injEq]

theorem Node.hash_unlabelled (n : Node Element) : hash n.unlabelled = hash n := by
  change hash (Element.node n.unlabelled) = hash (Element.node n)
  rw [← Element.unlabelled_node, Element.hash_unlabelled]

def Place.unlabelled (p : Place) : Place := { p with node := p.node.unlabelled }

theorem Place.beq_iff (p q : Place) : (p == q) = true ↔ p.unlabelled = q.unlabelled := by
  change (p.node == q.node && (p.offset == q.offset && p.index == q.index)) = true ↔ _
  simp only [Bool.and_eq_true, beq_iff_eq, Node.beq_iff, unlabelled, Place.mk.injEq]

theorem Place.hash_unlabelled (p : Place) : hash p.unlabelled = hash p := by
  change mixHash (mixHash (mixHash 0 (hash p.node.unlabelled)) _) _ = _
  rw [p.node.hash_unlabelled]
  rfl

namespace PlacedNode

def unlabelled (n : PlacedNode) : PlacedNode :=
  ⟨n.place.unlabelled, n.above.map Place.unlabelled⟩

theorem beq_iff (n m : PlacedNode) : (n == m) = true ↔ n.unlabelled = m.unlabelled := by
  change (n.place == m.place && n.above == m.above) = true ↔ _
  rw [Bool.and_eq_true, Place.beq_iff, beq_list_iff fun p _ q => Place.beq_iff p q, unlabelled,
    unlabelled, PlacedNode.mk.injEq]

theorem hash_unlabelled (n : PlacedNode) : hash n.unlabelled = hash n := by
  change mixHash (mixHash 0 (hash n.place.unlabelled)) (hash (n.above.map Place.unlabelled)) = _
  rw [n.place.hash_unlabelled, hash_list_map fun p _ => p.hash_unlabelled]
  rfl

theorem hash_eq_of_beq {n m : PlacedNode} (equal : (n == m) = true) : hash n = hash m := by
  rw [← n.hash_unlabelled, (beq_iff n m).1 equal, m.hash_unlabelled]

end PlacedNode

namespace PlacedToken

def unlabelled (t : PlacedToken) : PlacedToken :=
  { t with token := t.token.unlabelled, above := t.above.map Place.unlabelled }

theorem beq_iff (t u : PlacedToken) : (t == u) = true ↔ t.unlabelled = u.unlabelled := by
  change (t.token == u.token &&
    (t.offset == u.offset && (t.index == u.index && t.above == u.above))) = true ↔ _
  simp only [Bool.and_eq_true, beq_iff_eq, Token.beq_iff,
    beq_list_iff fun p _ q => Place.beq_iff p q, unlabelled, PlacedToken.mk.injEq]

theorem hash_unlabelled (t : PlacedToken) : hash t.unlabelled = hash t := by
  change mixHash (mixHash (mixHash (mixHash 0 (hash t.token.unlabelled)) _) _)
    (hash (t.above.map Place.unlabelled)) = _
  rw [t.token.hash_unlabelled, hash_list_map fun p _ => p.hash_unlabelled]
  rfl

theorem hash_eq_of_beq {t u : PlacedToken} (equal : (t == u) = true) : hash t = hash u := by
  rw [← t.hash_unlabelled, (beq_iff t u).1 equal, u.hash_unlabelled]

end PlacedToken

namespace PlacedElement

def unlabelled : PlacedElement → PlacedElement
  | .node n => .node n.unlabelled
  | .token t => .token t.unlabelled

theorem beq_iff (h h' : PlacedElement) : (h == h') = true ↔ h.unlabelled = h'.unlabelled := by
  cases h with
  | node n =>
    cases h' with
    | node m =>
      exact (PlacedNode.beq_iff n m).trans (by rw [unlabelled, unlabelled, NodeOrToken.node.injEq])
    | token t => exact iff_of_false nofun nofun
  | token t =>
    cases h' with
    | node m => exact iff_of_false nofun nofun
    | token u => exact (PlacedToken.beq_iff t u).trans (by rw [unlabelled, unlabelled,
        NodeOrToken.token.injEq])

theorem indices_unlabelled (h : PlacedElement) : h.unlabelled.indices = h.indices := by
  have above (places : List Place) : (places.map Place.unlabelled).map Place.index =
      places.map Place.index := by
    rw [List.map_map]
    rfl
  cases h with
  | node n => exact congrArg (n.index :: ·) (above n.above)
  | token t => exact congrArg (t.index :: ·) (above t.above)

end PlacedElement

theorem Element.fullWidth_unlabelled (e : Element) : e.unlabelled.fullWidth = e.fullWidth := by
  cases e <;> rfl

namespace PlacedNode

variable (n : PlacedNode)

theorem placeAt_unlabelled (e : Element) (position index : Nat) :
    e.unlabelled.placeAt (some n.unlabelled) position index =
      (e.placeAt (some n) position index).map PlacedElement.unlabelled := by
  cases e with
  | node m =>
    rw [Element.unlabelled_node]
    rfl
  | token t => rfl
  | trivia t => rfl

theorem placeFrom_unlabelled (cs : List Element) (position index : Nat) :
    n.unlabelled.placeFrom position index (cs.map Element.unlabelled) =
      (n.placeFrom position index cs).map (List.map PlacedElement.unlabelled) := by
  induction cs generalizing position index with
  | nil => rfl
  | cons c cs ih =>
    simp only [List.map_cons, placeFrom, c.fullWidth_unlabelled, placeAt_unlabelled, ih]
    rcases addSize position c.fullWidth with cause | next
    · rfl
    rcases c.placeAt (some n) position index with cause | h
    · rfl
    simp only [bind, Except.bind, Except.map]
    cases n.placeFrom next (index + 1) cs <;> rfl

theorem child?_unlabelled (i : Nat) :
    n.unlabelled.child? i = (n.child? i).map (Option.map PlacedElement.unlabelled) := by
  have children : n.unlabelled.node.children.take (i + 1) =
      (n.node.children.take (i + 1)).map Element.unlabelled :=
    List.map_take.symm
  rw [child?, child?, children, placeFrom_unlabelled]
  change ((n.placeFrom n.offset 0 _).map _ >>= _) = _
  cases n.placeFrom n.offset 0 (n.node.children.take (i + 1)) with
  | error cause => rfl
  | ok placed =>
    change Except.ok (placed.map PlacedElement.unlabelled)[i]? =
      .ok (placed[i]?.map PlacedElement.unlabelled)
    rw [List.getElem?_map]

end PlacedNode

namespace PlacedElement

theorem descend_unlabelled (h : PlacedElement) (path : List Nat) :
    h.unlabelled.descend path = (h.descend path).map unlabelled := by
  induction path generalizing h with
  | nil => rfl
  | cons i path ih =>
    cases h with
    | token t => rfl
    | node n =>
      rw [unlabelled, descend, descend, n.child?_unlabelled]
      rcases n.child? i with cause | _ | c
      · rfl
      · rfl
      · exact ih c

variable {root root' : Node Element} {path path' : List Nat} {h h' : PlacedElement}

theorem Reached.unlabelled_eq (same : (root == root') = true) (reached : Reached root path h)
    (reached' : Reached root' path h') : h.unlabelled = h'.unlabelled := by
  have down (r : Node Element) : PlacedElement.descend (.node (.root r.unlabelled)) path =
      (PlacedElement.descend (.node (.root r)) path).map unlabelled :=
      descend_unlabelled (.node (.root r)) path
  have ways := (Node.beq_iff root root').1 same ▸ down root
  rw [down root', reached.descend, reached'.descend] at ways
  exact (Except.ok.inj ways).symm

theorem Reached.beq_iff (same : (root == root') = true) (reached : Reached root path h)
    (reached' : Reached root' path' h') : (h == h') = true ↔ path = path' := by
  rw [PlacedElement.beq_iff]
  constructor
  · intro equal
    have indices : path.reverse ++ [0] = path'.reverse ++ [0] := by
      rw [← reached.indices_eq, ← reached'.indices_eq, ← h.indices_unlabelled, equal,
        h'.indices_unlabelled]
    exact List.reverse_injective (List.append_cancel_right indices)
  · rintro rfl
    exact reached.unlabelled_eq same reached'

end PlacedElement

/-- In a tree the ways down from the root lead to the handles that are reached. Two handles on
nodes, or two on tokens, are equal exactly if they are reached by the same path, and then their
hashes are equal. From a handle at the end of a path with some indices there is one handle more up
to the root than there are indices, on the path and on what is left of it when indices are dropped
from the end. -/
theorem Element.Obtained.reached_paths {root : Node Element}
    (obtained : (Element.node root).Obtained) :
    (∀ path h, PlacedElement.descend (.node (.root root)) path = .ok h ↔
      PlacedElement.Reached root path h) ∧
      (∀ path path' (n n' : PlacedNode), PlacedElement.Reached root path (.node n) →
        PlacedElement.Reached root path' (.node n') →
          ((n == n') = true ↔ path = path') ∧ ((n == n') = true → hash n = hash n')) ∧
      (∀ path path' (t t' : PlacedToken), PlacedElement.Reached root path (.token t) →
        PlacedElement.Reached root path' (.token t') →
          ((t == t') = true ↔ path = path') ∧ ((t == t') = true → hash t = hash t')) ∧
      ∀ path (n : PlacedNode), PlacedElement.Reached root path (.node n) →
        n.ancestors.length = path.length + 1 ∧
          List.Forall₂ (fun a p => PlacedElement.Reached root p (.node a)) n.ancestors
          path.inits.reverse := by
  have same : (root == root) = true := (Node.beq_iff root root).2 rfl
  refine ⟨fun path h => PlacedElement.descend_eq_ok_iff obtained.sound,
    fun path path' n n' reached reached' => ?_, fun path path' t t' reached reached' => ?_,
    fun path n reached => ?_⟩
  · exact ⟨reached.beq_iff same reached', PlacedNode.hash_eq_of_beq⟩
  · exact ⟨reached.beq_iff same reached', PlacedToken.hash_eq_of_beq⟩
  · have up := reached.ancestors
    refine ⟨?_, up⟩
    rw [up.length_eq, List.length_reverse, List.length_inits]

theorem Element.reached_paths_twinLists :
    let hole : Token := ⟨0, ⟨.semicolon, { missing := true }, 0, .empty⟩, "", [], [], 0, 0⟩
    let list : Node Element := ⟨1, ⟨.listNode, {}, 0, .empty⟩, [.token hole]⟩
    let root : Node Element := ⟨2, ⟨.listNode, {}, 0, .empty⟩, [.node list, .node list]⟩
    let n : PlacedNode := ⟨⟨list, 0, 0⟩, [⟨root, 0, 0⟩]⟩
    let m : PlacedNode := ⟨⟨list, 0, 1⟩, [⟨root, 0, 0⟩]⟩
    let t : PlacedToken := ⟨hole, 0, 0, n.places⟩
    let u : PlacedToken := ⟨hole, 0, 0, m.places⟩
    (Element.node root).Obtained ∧ PlacedElement.Reached root [0] (.node n) ∧
      PlacedElement.Reached root [1] (.node m) ∧ PlacedElement.Reached root [0, 0] (.token t) ∧
      PlacedElement.Reached root [1, 0] (.token u) ∧ (n == m) = false ∧ (m == m) = true ∧
      (t == u) = false ∧
      (u == u) = true ∧ m.ancestors.length = 2 ∧
      List.Forall₂ (fun a p => PlacedElement.Reached root p (.node a)) m.ancestors [[1], []] := by
  intro hole list root n m t u
  have madeHole : Token.missing 0 .semicolon = .ok hole := rfl
  have madeList : Node.plain 1 .listNode [.token hole] = .ok list := rfl
  have madeRoot : Node.plain 2 .listNode [.node list, .node list] = .ok root := rfl
  have obtainedHole : (Element.token hole).Obtained := .missing madeHole
  have obtainedList : (Element.node list).Obtained := .node (by simpa using obtainedHole) madeList
  have obtained : (Element.node root).Obtained := .node (by simpa using obtainedList) madeRoot
  obtain ⟨down, nodes, tokens, up⟩ := obtained.reached_paths
  have first : PlacedElement.Reached root [0] (.node n) := (down _ _).1 rfl
  have second : PlacedElement.Reached root [1] (.node m) := (down _ _).1 rfl
  have inFirst : PlacedElement.Reached root [0, 0] (.token t) := (down _ _).1 rfl
  have inSecond : PlacedElement.Reached root [1, 0] (.token u) := (down _ _).1 rfl
  have apart : (n == m) = false :=
    Bool.eq_false_iff.2 (mt (nodes _ _ _ _ first second).1.1 (by decide))
  have apartInside : (t == u) = false :=
    Bool.eq_false_iff.2 (mt (tokens _ _ _ _ inFirst inSecond).1.1 (by decide))
  obtain ⟨length, above⟩ := up _ _ second
  exact ⟨obtained, first, second, inFirst, inSecond, apart, (nodes _ _ _ _ second second).1.2 rfl,
    apartInside, (tokens _ _ _ _ inSecond inSecond).1.2 rfl, length, above⟩

end GreenTree
