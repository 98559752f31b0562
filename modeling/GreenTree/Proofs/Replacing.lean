import GreenTree.Proofs.OverlayLens
import GreenTree.Proofs.Placed.Positions
import GreenTree.Proofs.SummaryBits

/-!
Replacing along paths. A replacement makes every node on the way anew and keeps everything beside
it. If the new element is made from the same as the old one, but for what is attached, then this
holds of every node on the way: nothing grows too wide on the way up, and the root reads as before.
-/

namespace GreenTree

/-- Whether a node is another one with a child exchanged: it keeps what it says of itself and its
other children. -/
structure Node.Remade (n : Node Element) (index : Nat) (child : Element) (n' : Node Element) :
    Prop where
  kind : n'.head.kind = n.head.kind
  missing : n'.head.summary.missing = n.head.summary.missing
  overlay : n'.head.overlay = n.head.overlay
  children : n'.children = n.children.set index child

theorem Node.replaceChild_remade {cell index : Nat} {n n' : Node Element} {child : Element}
    (made : n.replaceChild cell index child = .ok n') : n.Remade index child n' := by
  have missing := replaceChild_missing made
  rw [replaceChild_eq_make] at made
  split at made
  · obtain ⟨width, rfl⟩ := eq_of_make made
    exact ⟨rfl, missing, rfl, rfl⟩
  · cases made

namespace Node.Remade

variable {n n' : Node Element} {i : Nat} {c child : Element}

theorem getElem?_eq (remade : n.Remade i child n') (there : n.children[i]? = some c) :
    n'.children[i]? = some child := by
  rw [remade.children, List.getElem?_set_self (List.getElem?_eq_some_iff.1 there).1]

theorem take_eq (remade : n.Remade i child n') : n'.children.take i = n.children.take i := by
  rw [remade.children, List.take_set_of_le (Nat.le_refl i)]

end Node.Remade

theorem Node.Sound.exists_replaceChild {n : Node Element} (own : n.Sound) {i : Nat}
    (inside : i < n.children.length) {child : Element} (shape : child.isTrivia = false)
    (fits : ((n.children.set i child).map Element.fullWidth).sum ≤ maxSize) (cell : Nat) :
    ∃ n', n.replaceChild cell i child = .ok n' := by
  have shapes := forall_mem_set own.shape shape i
  rw [Node.replaceChild_eq_make, if_pos inside]
  exact ⟨_, Node.make_eq_ok cell _ n.head.overlay own.kind shapes rfl fits⟩

namespace Element

theorem split_set {cs : List Element} {c : Element} {i : Nat} (there : cs[i]? = some c)
    (c' : Element) :
    cs = cs.take i ++ c :: cs.drop (i + 1) ∧
    cs.set i c' = cs.take i ++ c' :: cs.drop (i + 1) := by
  obtain ⟨inside, rfl⟩ := List.getElem?_eq_some_iff.1 there
  exact ⟨by simp, List.set_eq_take_append_cons_drop.trans (if_pos inside)⟩

theorem replaceChild_eq_ok_iff {cell i : Nat} {e e' child : Element} :
    e.replaceChild cell i child = .ok e' ↔
      ∃ n n', e = .node n ∧ e' = .node n' ∧ n.replaceChild cell i child = .ok n' := by
  cases e with
  | node n =>
    rw [replaceChild, map_eq_ok_iff]
    cases made : n.replaceChild cell i child with
    | ok n' => simp [onPath, made, eq_comm]
    | error cause => simp [onPath, made]
  | token t => simp [replaceChild]
  | trivia t => simp [replaceChild]

theorem exists_child_of_replaceChild {cell i : Nat} {e e' child : Element}
    (made : e.replaceChild cell i child = .ok e') : ∃ c, e.children[i]? = some c := by
  obtain ⟨n, n', rfl, rfl, built⟩ := replaceChild_eq_ok_iff.1 made
  unfold Node.replaceChild at built
  split at built
  · rename_i inside
    exact ⟨_, List.getElem?_eq_getElem inside⟩
  · cases built

theorem replaceAt_cons_eq_ok_iff {cell i : Nat} {path : List Nat} {e e' new : Element} :
    e.replaceAt cell (i :: path) new = .ok e' ↔ ∃ c c', e.children[i]? = some c ∧
      c.replaceAt (cell + 1) path new = .ok c' ∧ e.replaceChild cell i c' = .ok e' := by
  cases path with
  | nil =>
    simp only [replaceAt, Except.ok.injEq]
    constructor
    · intro made
      obtain ⟨c, there⟩ := exists_child_of_replaceChild made
      exact ⟨c, new, there, rfl, made⟩
    · rintro ⟨_, _, -, rfl, made⟩
      exact made
  | cons j path => simp only [replaceAt, bind_eq_ok_iff, childAt_eq_ok_iff, exists_and_left]

/-- Whether an element is another one with a part exchanged at the end of a path. -/
inductive Exchanged (x x' : Element) : List Nat → Element → Element → Prop
  | here : Exchanged x x' [] x x'
  | child {n n' : Node Element} {c c' : Element} {i : Nat} {path : List Nat} :
      n.children[i]? = some c → Exchanged x x' path c c' → n.Remade i c' n' →
      Exchanged x x' (i :: path) (.node n) (.node n')

variable {x x' e e' : Element} {path : List Nat}

theorem exchanged_of_replaceAt {cell : Nat} (way : e.follow path = .ok x)
    (made : e.replaceAt cell path x' = .ok e') : Exchanged x x' path e e' := by
  induction path generalizing cell e e' with
  | nil =>
    obtain rfl : e = x := Except.ok.inj way
    obtain rfl : x' = e' := Except.ok.inj made
    exact .here
  | cons i path ih =>
    obtain ⟨c, there, rest⟩ := follow_cons_eq_ok_iff.1 way
    obtain ⟨d, c', same, below, around⟩ := replaceAt_cons_eq_ok_iff.1 made
    obtain rfl : c = d := Option.some.inj (there.symm.trans same)
    obtain ⟨n, n', rfl, rfl, built⟩ := replaceChild_eq_ok_iff.1 around
    exact .child there (ih rest below) (Node.replaceChild_remade built)

namespace Exchanged

theorem follow (exchanged : Exchanged x x' path e e') : e'.follow path = .ok x' := by
  induction exchanged with
  | here => rfl
  | child there _ remade ih => exact follow_cons_eq_ok_iff.2 ⟨_, remade.getElem?_eq there, ih⟩

theorem blueprint_erased (exchanged : Exchanged x x' path e e')
    (same : x.blueprint.erased = x'.blueprint.erased) :
    e.blueprint.erased = e'.blueprint.erased := by
  induction exchanged with
  | here => exact same
  | @child n n' c c' i path there _ remade ih =>
    obtain ⟨split, split'⟩ := split_set there c'
    have children : (n.children.map blueprint).map Blueprint.erased =
        (n'.children.map blueprint).map Blueprint.erased := by
      rw [remade.children, split']
      conv_lhs => rw [split]
      simp only [List.map_append, List.map_cons, ih]
    simp only [blueprint, Blueprint.erased, blueprints_eq, Blueprint.allErased_eq, children,
      remade.kind, remade.missing]

end Exchanged

theorem Sound.fullWidth_eq_of_blueprint (sound : x.Sound) (sound' : x'.Sound)
    (same : x.blueprint.erased = x'.blueprint.erased) : x.fullWidth = x'.fullWidth :=
  (readsAs_of_erased ((sound.comparesEqual_iff sound').2.2 same)).fullWidth

theorem isTrivia_eq_of_blueprint (same : x.blueprint.erased = x'.blueprint.erased) :
    x.isTrivia = x'.isTrivia := by
  have erased (d : Blueprint) : d.erased.isTrivia = d.isTrivia := by
    cases d <;> rfl
  rw [← blueprint_isTrivia, ← erased, same, erased, blueprint_isTrivia]

theorem Sound.exists_replaceChild {n : Node Element} (sound : (Element.node n).Sound) {i : Nat}
    (there : n.children[i]? = some x) (sound' : x'.Sound)
    (same : x.blueprint.erased = x'.blueprint.erased) (cell : Nat) :
    ∃ n', n.replaceChild cell i x' = .ok n' := by
  obtain ⟨own, parts⟩ := sound_node_iff.1 sound
  have inside : i < n.children.length := (List.getElem?_eq_some_iff.1 there).1
  have member : x ∈ n.children := List.mem_of_getElem? there
  have shape : x'.isTrivia = false := by
    rw [← isTrivia_eq_of_blueprint same]
    exact own.shape x member
  have widths : ((n.children.set i x').map fullWidth).sum = (n.children.map fullWidth).sum := by
    obtain ⟨split, split'⟩ := split_set there x'
    rw [split']
    conv_rhs => rw [split]
    simp only [List.map_append, List.map_cons,
      (parts x member).fullWidth_eq_of_blueprint sound' same]
  exact own.exists_replaceChild inside shape
    (by rw [widths, ← own.fullWidth]; exact own.fits) cell

/-- A part can be replaced, wherever it is, by one that is made from the same, but for what is
attached. -/
theorem Obtained.exists_replaceAt (obtained : e.Obtained) (obtained' : x'.Obtained)
    (way : e.follow path = .ok x) (same : x.blueprint.erased = x'.blueprint.erased) (cell : Nat) :
    ∃ e', e.replaceAt cell path x' = .ok e' ∧ e'.Obtained := by
  induction path generalizing e cell with
  | nil => exact ⟨x', rfl, obtained'⟩
  | cons i path ih =>
    obtain ⟨c, there, rest⟩ := follow_cons_eq_ok_iff.1 way
    cases e with
    | node n =>
      obtain ⟨c', below, obtainedC⟩ :=
        ih (.part (.child (List.mem_of_getElem? there) (.self c)) obtained) rest (cell + 1)
      have sameC := (exchanged_of_replaceAt rest below).blueprint_erased same
      obtain ⟨n', built⟩ := obtained.sound.exists_replaceChild there obtainedC.sound sameC cell
      refine ⟨.node n', ?_, .replaceChild obtained obtainedC built⟩
      exact replaceAt_cons_eq_ok_iff.2 ⟨c, c', there, below,
        replaceChild_eq_ok_iff.2 ⟨n, n', rfl, rfl, built⟩⟩
    | token t => cases there
    | trivia t => cases there

/-- Whether an element is another one with an overlay of its own: it keeps what else it says of
itself and all that is in it. -/
inductive Reattached (overlay : Overlay) : Element → Element → Prop
  | node {n n' : Node Element} : n'.head.kind = n.head.kind →
      n'.head.summary.missing = n.head.summary.missing → n'.head.overlay = overlay →
      n'.children = n.children → Reattached overlay (.node n) (.node n')
  | token {t t' : Token} : t'.head.kind = t.head.kind →
      t'.head.summary.missing = t.head.summary.missing → t'.head.overlay = overlay →
      t'.text = t.text → t'.leading = t.leading → t'.trailing = t.trailing →
      Reattached overlay (.token t) (.token t')
  | trivia {t t' : Trivia} : t'.head.kind = t.head.kind → t'.head.overlay = overlay →
      t'.text = t.text → Reattached overlay (.trivia t) (.trivia t')

theorem reattached_of_withOverlay {cell : Nat} {overlay : Overlay}
    (made : e.withOverlay cell overlay = .ok e') : Reattached overlay e e' := by
  cases e with
  | node n =>
    obtain ⟨n', built, rfl⟩ := map_eq_ok_iff.1 made
    rw [Node.withOverlay_eq_make] at built
    have missing := Node.make_missing built
    obtain ⟨width, rfl⟩ := Node.eq_of_make built
    exact .node rfl missing rfl rfl
  | token t =>
    obtain ⟨t', built, rfl⟩ := map_eq_ok_iff.1 made
    rw [Token.withOverlay_eq_make] at built
    have missing := Token.make_missing built
    obtain ⟨width, before, behind, rfl⟩ := Token.eq_of_make built
    exact .token rfl missing rfl rfl rfl rfl
  | trivia t =>
    obtain ⟨t', built, rfl⟩ := map_eq_ok_iff.1 made
    obtain ⟨width, rfl⟩ := Trivia.eq_of_make built
    exact .trivia rfl rfl rfl

theorem Reattached.overlay_eq {overlay : Overlay} (reattached : Reattached overlay e e') :
    e'.overlay = overlay := by
  cases reattached with
  | node _ _ attached _ => exact attached
  | token _ _ attached _ _ _ => exact attached
  | trivia _ attached _ => exact attached

theorem Reattached.blueprint_erased {overlay : Overlay} (reattached : Reattached overlay e e') :
    e.blueprint.erased = e'.blueprint.erased := by
  cases reattached with
  | node kind missing _ children =>
    simp only [blueprint, Blueprint.erased, kind, missing, children]
  | token kind missing _ text leading trailing =>
    simp only [blueprint, Blueprint.erased, kind, missing, text, leading, trailing]
  | trivia kind _ text =>
    simp only [blueprint, Blueprint.erased, Trivia.blueprint, TriviaBlueprint.erased, kind, text]

theorem Sound.isEquivalent_of_blueprint (sound : e.Sound) (sound' : e'.Sound)
    (same : e.blueprint.erased = e'.blueprint.erased) : e.isEquivalent e' = true := by
  obtain ⟨compares, blueprints⟩ := sound.comparesEqual_iff sound'
  exact isEquivalent_of_comparesEqual (compares.2 (blueprints.2 same))

end Element

end GreenTree
