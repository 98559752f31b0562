import GreenTree.Proofs.Splicing

/-!
Independent replacements commute. On what elements are made from, a replacement is a function that
exchanges one place and computes nothing; the widths and bits that the makers work out on the way
follow from the result. So two replacements of which neither is inside the other give the same in
either order, whatever was worked out in between.
-/

namespace GreenTree

namespace Blueprint

/-- What an element is made from, with something else at the end of a path. -/
def replaceAt : Blueprint → List Nat → Blueprint → Blueprint
  | _, [], new => new
  | .node kind missing children overlay, i :: path, new =>
    .node kind missing (children.modify i fun c => c.replaceAt path new) overlay
  | d, _ :: _, _ => d

/-- Replacements at paths of which neither leads on from the other can change places. -/
theorem replaceAt_comm {p q : List Nat} (notBelow : ¬p <+: q) (notAbove : ¬q <+: p)
    (x y d : Blueprint) : (d.replaceAt p x).replaceAt q y = (d.replaceAt q y).replaceAt p x := by
  induction p generalizing q d with
  | nil => exact absurd List.nil_prefix notBelow
  | cons i p ih =>
    cases q with
    | nil => exact absurd List.nil_prefix notAbove
    | cons j q =>
      cases d with
      | node kind missing children overlay =>
        simp only [replaceAt]
        by_cases same : i = j
        · subst same
          have inner (c : Blueprint) :
              (c.replaceAt p x).replaceAt q y = (c.replaceAt q y).replaceAt p x := by
            apply ih
            · intro inside
              exact notBelow (List.cons_prefix_cons.2 ⟨rfl, inside⟩)
            · intro inside
              exact notAbove (List.cons_prefix_cons.2 ⟨rfl, inside⟩)
          rw [List.modify_modify_eq, List.modify_modify_eq]
          congr 2
          funext c
          exact inner c
        · rw [List.modify_modify_ne _ _ _ same]
      | token kind missing text leading trailing overlay => rfl
      | trivia t => rfl

theorem replaceAt_cons {kind : Kind} {missing : Bool} {children : List Blueprint}
    {overlay : Overlay} {i : Nat} {c : Blueprint} (there : children[i]? = some c) (path : List Nat)
    (new : Blueprint) :
    (node kind missing children overlay).replaceAt (i :: path) new =
      .node kind missing (children.set i (c.replaceAt path new)) overlay := by
  rw [replaceAt, List.modify_eq_set_getElem?, there]
  rfl

end Blueprint

namespace Element

/-- An element with an exchanged part is made from what the other one is made from, with the new
part in its place. -/
theorem Exchanged.blueprint {x x' e e' : Element} {path : List Nat}
    (exchanged : Exchanged x x' path e e') :
    e'.blueprint = e.blueprint.replaceAt path x'.blueprint := by
  induction exchanged with
  | here => rfl
  | @child n n' c c' i path there _ remade ih =>
    have place : (n.children.map Element.blueprint)[i]? = some c.blueprint := by
      rw [List.getElem?_map, there]
      rfl
    simp only [Element.blueprint, blueprints_eq]
    rw [Blueprint.replaceAt_cons place, ← ih, remade.children, List.map_set, remade.kind,
      remade.missing, remade.overlay]

theorem exists_follow_of_replaceAt {e e' new : Element} {path : List Nat} {cell : Nat}
    (made : e.replaceAt cell path new = .ok e') : ∃ x, e.follow path = .ok x := by
  induction path generalizing e e' cell with
  | nil => exact ⟨e, rfl⟩
  | cons i path ih =>
    obtain ⟨c, c', there, below, -⟩ := replaceAt_cons_eq_ok_iff.1 made
    obtain ⟨x, way⟩ := ih below
    exact ⟨x, follow_cons_eq_ok_iff.2 ⟨c, there, way⟩⟩

theorem Sound.map_fullWidth_eq {cs ds : List Element} (soundCs : ∀ c ∈ cs, c.Sound)
    (soundDs : ∀ d ∈ ds, d.Sound) (same : cs.map Element.blueprint = ds.map Element.blueprint) :
    cs.map Element.fullWidth = ds.map Element.fullWidth := by
  have widths {es : List Element} (sound : ∀ e ∈ es, e.Sound) :
      es.map Element.fullWidth = (es.map Element.blueprint).map Blueprint.width := by
    rw [List.map_map]
    exact List.map_congr_left fun e mem => (sound e mem).width_blueprint.symm
  rw [widths soundCs, widths soundDs, same]

theorem Sound.fits_of_blueprint {e x y z : Element} (sound : e.Sound) (soundY : y.Sound)
    (soundZ : z.Sound) {path : List Nat} (way : e.follow path = .ok x)
    (same : z.blueprint = e.blueprint.replaceAt path y.blueprint) :
    z.fullWidth + x.fullWidth = e.fullWidth + y.fullWidth ∧
      ∀ a, e.Above path a → ¬Outgrows x y a := by
  induction path generalizing e z with
  | nil =>
    obtain rfl : e = x := Except.ok.inj way
    have width : z.fullWidth = y.fullWidth := by
      rw [← soundZ.width_blueprint, ← soundY.width_blueprint, same]
      rfl
    exact ⟨by omega, fun a above => absurd above not_above_nil⟩
  | cons i path ih =>
    obtain ⟨c, there, rest⟩ := follow_cons_eq_ok_iff.1 way
    cases e with
    | node n =>
      change n.children[i]? = some c at there
      obtain ⟨own, parts⟩ := sound_node_iff.1 sound
      have place : (n.children.map Element.blueprint)[i]? = some c.blueprint := by
        rw [List.getElem?_map, there]
        rfl
      rw [Element.blueprint, blueprints_eq, Blueprint.replaceAt_cons place] at same
      cases z with
      | node m =>
        obtain ⟨ownM, partsM⟩ := sound_node_iff.1 soundZ
        rw [Element.blueprint, blueprints_eq, Blueprint.node.injEq] at same
        obtain ⟨-, -, children, -⟩ := same
        have inside : i < (n.children.map Element.blueprint).length :=
          (List.getElem?_eq_some_iff.1 place).1
        have new : (m.children.map Element.blueprint)[i]? =
            some (c.blueprint.replaceAt path y.blueprint) := by
          rw [children, List.getElem?_set_self inside]
        rw [List.getElem?_map, Option.map_eq_some_iff] at new
        obtain ⟨c', there', made⟩ := new
        have soundC : c.Sound := parts c (List.mem_of_getElem? there)
        have soundC' : c'.Sound := partsM c' (List.mem_of_getElem? there')
        obtain ⟨width, fits⟩ := ih soundC soundC' rest made
        have widths : m.children.map Element.fullWidth =
            (n.children.set i c').map Element.fullWidth := by
          apply Sound.map_fullWidth_eq partsM (forall_mem_set parts soundC' i)
          rw [children, List.map_set, made]
        obtain ⟨least, total⟩ := sum_fullWidth_set there c'
        rw [← widths, ← ownM.fullWidth, ← own.fullWidth] at total
        rw [← own.fullWidth] at least
        have small := ownM.fits
        have whole : (Element.node n).fullWidth = n.head.fullWidth := rfl
        have whole' : (Element.node m).fullWidth = m.head.fullWidth := rfl
        refine ⟨by omega, ?_⟩
        intro a above
        rcases (above_cons_iff (e := .node n) there).1 above with rfl | above
        · rw [Outgrows]
          omega
        · exact fits a above
      | token t => cases same
      | trivia t => cases same
    | token t => cases there
    | trivia t => cases there

/-- Two replacements at paths of which neither leads on from the other give the same in either
order, but for cells: if one order succeeds and the first of the other does, then the second of the
other succeeds too. -/
theorem Obtained.replaceAt_commutes {root e₁ e₁₂ e₂ x y : Element}
    (obtained : root.Obtained) (obtainedX : x.Obtained) (obtainedY : y.Obtained) {p q : List Nat}
    (notBelow : ¬p <+: q) (notAbove : ¬q <+: p) {cell₁ cell₁₂ cell₂ : Nat}
    (first : root.replaceAt cell₁ p x = .ok e₁)
    (then_ : e₁.replaceAt cell₁₂ q y = .ok e₁₂)
    (other : root.replaceAt cell₂ q y = .ok e₂) (cell₂₁ : Nat) :
    ∃ e₂₁, e₂.replaceAt cell₂₁ p x = .ok e₂₁ ∧ e₁₂.Verbatim e₂₁ := by
  have soundX := obtainedX.sound
  have soundY := obtainedY.sound
  have sound₁ := obtained.sound.replaceAt soundX first
  have sound₁₂ := sound₁.replaceAt soundY then_
  have sound₂ := obtained.sound.replaceAt soundY other
  obtain ⟨a, wayP⟩ := exists_follow_of_replaceAt first
  obtain ⟨b, wayQ⟩ := exists_follow_of_replaceAt other
  obtain ⟨b', wayQ'⟩ := exists_follow_of_replaceAt then_
  have exchanged₁ := exchanged_of_replaceAt wayP first
  have exchanged₂ := exchanged_of_replaceAt wayQ other
  have exchanged₁₂ := exchanged_of_replaceAt wayQ' then_
  have deep : p ≠ [] := by
    rintro rfl
    exact notBelow List.nil_prefix
  have shape : x.isTrivia = false := sound₁.isTrivia_of_follow deep exchanged₁.follow
  have wayP' : e₂.follow p = .ok a := by
    rw [exchanged₂.follow_beside notAbove notBelow, wayP]
  have same : e₁₂.blueprint = e₂.blueprint.replaceAt p x.blueprint := by
    rw [exchanged₁₂.blueprint, exchanged₁.blueprint, exchanged₂.blueprint]
    exact Blueprint.replaceAt_comm notBelow notAbove x.blueprint y.blueprint root.blueprint
  obtain ⟨-, fits⟩ := sound₂.fits_of_blueprint soundX sound₁₂ wayP' same
  rcases sound₂.replaceAt_cases soundX shape wayP' cell₂₁ with ⟨⟨e₂₁, made⟩, -⟩ |
    ⟨c, above, wide, -⟩
  · have exchanged₂₁ := exchanged_of_replaceAt wayP' made
    refine ⟨e₂₁, made, sound₁₂.verbatim (sound₂.replaceAt soundX made) ?_⟩
    rw [same, exchanged₂₁.blueprint]
  · exact absurd wide (fits c above)

theorem replaceAt_commutes_markedList :
    let mark : Annotation := ⟨7, some "pair", some "x"⟩
    let name : Token := ⟨0, ⟨.ident, {}, 2, .empty⟩, "é", [], [], 0, 0⟩
    let hole : Token := ⟨1, ⟨.semicolon, { missing := true }, 0, .empty⟩, "", [], [], 0, 0⟩
    let marked (cell width : Nat) (children : List Element) : Element :=
      .node ⟨cell, ⟨.listNode, { annotations := true }, width, ⟨[], [mark]⟩⟩, children⟩
    let root (cell width : Nat) (part : Element) : Element :=
      .node ⟨cell, ⟨.listNode, { annotations := true }, width, .empty⟩, [.token name, part]⟩
    let start := root 4 4 (marked 3 2 [.token name, .token hole])
    start.Obtained ∧
      start.replaceAt 5 [1, 0] (.token hole) =
        .ok (root 5 2 (marked 6 0 [.token hole, .token hole])) ∧
      (root 5 2 (marked 6 0 [.token hole, .token hole])).replaceAt 7 [1, 1] (.token name) =
        .ok (root 7 4 (marked 8 2 [.token hole, .token name])) ∧
      start.replaceAt 9 [1, 1] (.token name) =
        .ok (root 9 6 (marked 10 4 [.token name, .token name])) ∧
      ∃ e, (root 9 6 (marked 10 4 [.token name, .token name])).replaceAt 11 [1, 0] (.token hole) =
        .ok e ∧ (root 7 4 (marked 8 2 [.token hole, .token name])).Verbatim e := by
  intro mark name hole marked root start
  have madeName : Token.plain 0 .ident "é" = .ok name := rfl
  have madeHole : Token.missing 1 .semicolon = .ok hole := rfl
  have madeList : Node.plain 2 .listNode [.token name, .token hole] =
      .ok ⟨2, ⟨.listNode, {}, 2, .empty⟩, [.token name, .token hole]⟩ := rfl
  have attached : (Element.node ⟨2, ⟨.listNode, {}, 2, .empty⟩,
    [.token name, .token hole]⟩).withAnnotations 3 [mark] =
      .ok (marked 3 2 [.token name, .token hole]) := by
    simp only [marked, withAnnotations, withOverlay, Node.withOverlay]
    rfl
  have madeRoot : Node.plain 4 .listNode [.token name, marked 3 2 [.token name, .token hole]] =
      .ok ⟨4, ⟨.listNode, { annotations := true }, 4, .empty⟩,
        [.token name, marked 3 2 [.token name, .token hole]]⟩ := rfl
  have small : Overlay.Addressable { annotations := [mark] } := by
    unfold Overlay.Addressable
    decide
  have obtainedName : (Element.token name).Obtained := .token (by simp) (by simp) madeName
  have obtainedHole : (Element.token hole).Obtained := .missing madeHole
  have obtainedList : (marked 3 2 [.token name, .token hole]).Obtained :=
    .withAnnotations (.node (by simpa using ⟨obtainedName, obtainedHole⟩) madeList)
      small attached
  have obtained : start.Obtained := .node (by simpa using ⟨obtainedName, obtainedList⟩) madeRoot
  have first : start.replaceAt 5 [1, 0] (.token hole) =
      .ok (root 5 2 (marked 6 0 [.token hole, .token hole])) := by
    simp only [start, root, marked, name, hole, mark]
    rfl
  have second : (root 5 2 (marked 6 0 [.token hole, .token hole])).replaceAt 7 [1, 1]
      (.token name) =
        .ok (root 7 4 (marked 8 2 [.token hole, .token name])) := by
    simp only [root, marked, name, hole, mark]
    rfl
  have other : start.replaceAt 9 [1, 1] (.token name) =
      .ok (root 9 6 (marked 10 4 [.token name, .token name])) := by
    simp only [start, root, marked, name, hole, mark]
    rfl
  exact ⟨obtained, first, second, other,
    obtained.replaceAt_commutes obtainedHole obtainedName (by decide)
    (by decide) first second other 11⟩

end Element

end GreenTree
