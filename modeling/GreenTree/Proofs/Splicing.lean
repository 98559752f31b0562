import Mathlib.Data.List.Induction
import GreenTree.Proofs.Cutting
import GreenTree.Proofs.Placed.Attaching

/-!
Splicing: a replacement at the end of a path exchanges a stretch of the text of the root, and
nothing else. It fails exactly if an element around the exchanged one becomes too wide. Otherwise
whatever is not on the path stays what it is, and each element around it says of itself what it said
and of its parts what a newly made one says.
-/

namespace GreenTree

/-- Whether a node is another one with other parts: it keeps what it says of itself, and its width
and the bits that its parts give it are those of a node that is newly made from them. -/
structure Node.Rebuilt (n n' : Node Element) : Prop where
  kind : n'.head.kind = n.head.kind
  missing : n'.head.summary.missing = n.head.summary.missing
  overlay : n'.head.overlay = n.head.overlay
  fresh : ∀ cell, ∃ m, Node.plain cell n.head.kind n'.children = .ok m ∧
    n'.head.fullWidth = m.head.fullWidth ∧
    n'.head.summary = (({ missing := n.head.summary.missing } : Summary).union
      m.head.summary).union n.head.overlay.summary

theorem Summary.union_bare (a : Summary) :
    (({ missing := false } : Summary).union a).union Overlay.empty.summary = a := by
  cases a
  simp [union, Overlay.summary, Overlay.empty]

theorem Node.Sound.exists_plain {n : Node Element} (own : n.Sound) (cell : Nat) :
    ∃ m, Node.plain cell n.head.kind n.children = .ok m ∧
      n.head.fullWidth = m.head.fullWidth ∧
      n.head.summary = (({ missing := n.head.summary.missing } : Summary).union
        m.head.summary).union n.head.overlay.summary := by
  refine ⟨_, Node.make_eq_ok cell false .empty own.kind own.shape own.fullWidth own.fits,
    rfl, ?_⟩
  rw [Head.make, Summary.union_bare]
  exact own.summary

theorem Node.Remade.rebuilt {n n' : Node Element} {i : Nat} {child : Element}
    (remade : n.Remade i child n') (own : n'.Sound) : n.Rebuilt n' where
  kind := remade.kind
  missing := remade.missing
  overlay := remade.overlay
  fresh := by
    intro cell
    have fresh := own.exists_plain cell
    rw [remade.kind, remade.missing, remade.overlay] at fresh
    exact fresh

namespace Element

/-! ### Paths -/

theorem follow_cons_of_getElem? {e c : Element} {i : Nat} (there : e.children[i]? = some c)
    (path : List Nat) : e.follow (i :: path) = c.follow path := by
  rw [follow, childAt_eq_ok_iff.2 there]
  rfl

theorem follow_concat_eq_ok {e x : Element} {path : List Nat} {i : Nat}
    (way : e.follow (path ++ [i]) = .ok x) :
    ∃ n, e.follow path = .ok (.node n) ∧ n.children[i]? = some x := by
  induction path generalizing e with
  | nil =>
    obtain ⟨c, there, same⟩ := follow_cons_eq_ok_iff.1 way
    obtain rfl : c = x := Except.ok.inj same
    cases e with
    | node n => exact ⟨n, rfl, there⟩
    | token t => cases there
    | trivia t => cases there
  | cons j path ih =>
    obtain ⟨c, there, rest⟩ := follow_cons_eq_ok_iff.1 way
    obtain ⟨n, above, child⟩ := ih rest
    exact ⟨n, follow_cons_eq_ok_iff.2 ⟨c, there, above⟩, child⟩

theorem Sound.follow {e x : Element} (sound : e.Sound) {path : List Nat}
    (way : e.follow path = .ok x) : x.Sound :=
  sound.part (part_of_follow way)

theorem Sound.isTrivia_of_follow {e x : Element} (sound : e.Sound) {path : List Nat}
    (deep : path ≠ []) (way : e.follow path = .ok x) : x.isTrivia = false := by
  cases path using List.reverseRecOn with
  | nil => exact absurd rfl deep
  | append_singleton path i =>
    obtain ⟨n, above, child⟩ := follow_concat_eq_ok way
    obtain ⟨own, -⟩ := sound_node_iff.1 (sound.follow above)
    exact own.shape x (List.mem_of_getElem? child)

/-- The elements around the one at the end of a path. -/
def Above (e : Element) (path : List Nat) (a : Element) : Prop :=
  ∃ q, q <+: path ∧ q ≠ path ∧ e.follow q = .ok a

theorem not_above_nil {e a : Element} : ¬e.Above [] a := by
  rintro ⟨q, inside, proper, -⟩
  exact proper (List.prefix_nil.1 inside)

theorem above_cons_iff {e c a : Element} {i : Nat} {path : List Nat}
    (there : e.children[i]? = some c) : e.Above (i :: path) a ↔ a = e ∨ c.Above path a := by
  constructor
  · rintro ⟨q, inside, proper, way⟩
    cases q with
    | nil => exact .inl (Except.ok.inj way).symm
    | cons j q =>
      obtain ⟨rfl, below⟩ := List.cons_prefix_cons.1 inside
      rw [follow_cons_of_getElem? there] at way
      exact .inr ⟨q, below, fun same => proper (congrArg (j :: ·) same), way⟩
  · rintro (rfl | ⟨q, inside, proper, way⟩)
    · exact ⟨[], List.nil_prefix, (List.cons_ne_nil i path).symm, rfl⟩
    · refine ⟨i :: q, List.cons_prefix_cons.2 ⟨rfl, inside⟩, ?_, ?_⟩
      · intro same
        exact proper (List.cons.inj same).2
      · rw [follow_cons_of_getElem? there]
        exact way

/-- The text of an element around the one at the end of a path: whatever is put there, it stays. -/
theorem exists_around {e x : Element} {path : List Nat} (way : e.follow path = .ok x) :
    ∃ before behind, e.fullText = before ++ x.fullText ++ behind ∧
      before.utf8ByteSize = e.bytesBefore path ∧
      ∀ x' e', Exchanged x x' path e e' → e'.fullText = before ++ x'.fullText ++ behind := by
  induction path generalizing e with
  | nil =>
    obtain rfl : e = x := Except.ok.inj way
    refine ⟨"", "", by simp, rfl, ?_⟩
    intro x' e' exchanged
    cases exchanged with
    | here => simp
  | cons i path ih =>
    obtain ⟨c, there, rest⟩ := follow_cons_eq_ok_iff.1 way
    obtain ⟨before, behind, text, size, around⟩ := ih rest
    cases e with
    | node n =>
      change n.children[i]? = some c at there
      have split := (split_set there c).1
      have left : (String.join ((n.children.take i).map Element.fullText)).utf8ByteSize =
          ((n.children.take i).map fun c => c.fullText.utf8ByteSize).sum := by
        rw [size_join, bytesIn, List.map_map]
        rfl
      refine ⟨String.join ((n.children.take i).map Element.fullText) ++ before,
        behind ++ String.join ((n.children.drop (i + 1)).map Element.fullText), ?_, ?_, ?_⟩
      · rw [fullText_node]
        conv_lhs => rw [split]
        rw [List.map_append, List.map_cons, String.join_append, String.join_cons, text]
        simp only [String.append_assoc]
      · rw [bytesBefore_cons (e := .node n) there, String.utf8ByteSize_append, left, size]
        rfl
      · intro x' e' exchanged
        cases exchanged with
        | @child _ n' d c' _ _ same below remade =>
          obtain rfl : c = d := Option.some.inj (there.symm.trans same)
          rw [fullText_node, remade.children, (split_set same c').2, List.map_append,
            List.map_cons, String.join_append, String.join_cons, around x' c' below]
          simp only [String.append_assoc]
    | token t => cases there
    | trivia t => cases there

/-! ### What an exchange keeps -/

namespace Exchanged

variable {x x' e e' : Element} {path : List Nat}

theorem way (exchanged : Exchanged x x' path e e') : e.follow path = .ok x := by
  induction exchanged with
  | here => rfl
  | child there _ _ ih => exact follow_cons_eq_ok_iff.2 ⟨_, there, ih⟩

theorem fullWidth (exchanged : Exchanged x x' path e e') (sound : e.Sound) (sound' : e'.Sound)
    (soundX : x.Sound) (soundX' : x'.Sound) :
    x.fullWidth ≤ e.fullWidth ∧ e'.fullWidth = e.fullWidth - x.fullWidth + x'.fullWidth := by
  obtain ⟨before, behind, text, -, around⟩ := exists_around exchanged.way
  have text' := around x' e' exchanged
  have old := congrArg String.utf8ByteSize text
  have new := congrArg String.utf8ByteSize text'
  rw [String.utf8ByteSize_append, String.utf8ByteSize_append] at old new
  rw [sound.fullWidth_eq, sound'.fullWidth_eq, soundX.fullWidth_eq, soundX'.fullWidth_eq]
  omega

theorem isTrivia (exchanged : Exchanged x x' path e e') (shape : x'.isTrivia = false) :
    e'.isTrivia = false := by
  cases exchanged with
  | here => exact shape
  | child _ _ _ => rfl

theorem follow_beside (exchanged : Exchanged x x' path e e') {q : List Nat}
    (notBelow : ¬path <+: q) (notAbove : ¬q <+: path) : e'.follow q = e.follow q := by
  induction exchanged generalizing q with
  | here => exact absurd List.nil_prefix notBelow
  | @child n n' c c' i path there below remade ih =>
    cases q with
    | nil => exact absurd List.nil_prefix notAbove
    | cons j q =>
      by_cases same : i = j
      · subst same
        have there' : (Element.node n').children[i]? = some c' := remade.getElem?_eq there
        rw [follow_cons_of_getElem? there', follow_cons_of_getElem? (e := .node n) there]
        apply ih
        · intro inside
          exact notBelow (List.cons_prefix_cons.2 ⟨rfl, inside⟩)
        · intro inside
          exact notAbove (List.cons_prefix_cons.2 ⟨rfl, inside⟩)
      · have kept : n'.children[j]? = n.children[j]? := by
          rw [remade.children, List.getElem?_set_ne same]
        simp only [Element.follow, childAt, slot, kept]

theorem follow_above (exchanged : Exchanged x x' path e e') (sound' : e'.Sound) {q : List Nat}
    (inside : q <+: path) (proper : q ≠ path) :
    ∃ n n', e.follow q = .ok (.node n) ∧ e'.follow q = .ok (.node n') ∧ n.Rebuilt n' := by
  induction exchanged generalizing q with
  | here => exact absurd (List.prefix_nil.1 inside) proper
  | @child n n' c c' i path there below remade ih =>
    have there' : (Element.node n').children[i]? = some c' := remade.getElem?_eq there
    obtain ⟨own', parts'⟩ := sound_node_iff.1 sound'
    cases q with
    | nil => exact ⟨n, n', rfl, rfl, remade.rebuilt own'⟩
    | cons j q =>
      obtain ⟨rfl, rest⟩ := List.cons_prefix_cons.1 inside
      rw [follow_cons_of_getElem? there', follow_cons_of_getElem? (e := .node n) there]
      apply ih (parts' c' (List.mem_of_getElem? there')) rest
      intro same
      exact proper (congrArg (j :: ·) same)

end Exchanged

/-! ### When a replacement succeeds -/

theorem replaceAt_cons_of_getElem? {e c : Element} {i : Nat} (there : e.children[i]? = some c)
    (cell : Nat) (path : List Nat) (new : Element) : e.replaceAt cell (i :: path) new = (do
      let c' ← c.replaceAt (cell + 1) path new
      e.replaceChild cell i c') := by
  cases path with
  | nil => rfl
  | cons j path =>
    rw [replaceAt, childAt_eq_ok_iff.2 there]
    rfl

theorem Sound.replaceAt {e e' new : Element} (sound : e.Sound) (soundNew : new.Sound)
    {path : List Nat} {cell : Nat} (made : e.replaceAt cell path new = .ok e') : e'.Sound := by
  induction path generalizing e e' cell with
  | nil =>
    obtain rfl : new = e' := Except.ok.inj made
    exact soundNew
  | cons i path ih =>
    obtain ⟨c, c', there, below, around⟩ := replaceAt_cons_eq_ok_iff.1 made
    obtain ⟨n, n', rfl, rfl, built⟩ := replaceChild_eq_ok_iff.1 around
    have soundC : c.Sound := (sound_node_iff.1 sound).2 c (List.mem_of_getElem? there)
    exact sound.replaceChild (ih soundC below) built

/-- Whether an element is too wide once a part of it is exchanged: what it spans beside the old part
and what the new part spans come to more than the largest size. -/
def Outgrows (x x' a : Element) : Prop := maxSize + x.fullWidth < a.fullWidth + x'.fullWidth

theorem sum_fullWidth_set {cs : List Element} {c : Element} {i : Nat} (there : cs[i]? = some c)
    (c' : Element) : c.fullWidth ≤ (cs.map Element.fullWidth).sum ∧
      ((cs.set i c').map Element.fullWidth).sum =
        (cs.map Element.fullWidth).sum - c.fullWidth + c'.fullWidth := by
  obtain ⟨split, split'⟩ := split_set there c'
  have old := congrArg (fun cs => (cs.map Element.fullWidth).sum) split
  have new := congrArg (fun cs => (cs.map Element.fullWidth).sum) split'
  simp only [List.map_append, List.map_cons, List.sum_append, List.sum_cons] at old new
  omega

theorem Sound.replaceChild_cases {n : Node Element} (sound : (Element.node n).Sound) {i : Nat}
    {c c' : Element} (there : n.children[i]? = some c) (shape : c'.isTrivia = false) (cell : Nat) :
    (∃ n', (Element.node n).replaceChild cell i c' = .ok (.node n')) ∧
    ¬Outgrows c c' (.node n) ∨
      Outgrows c c' (.node n) ∧
        (Element.node n).replaceChild cell i c' = .error (.fault (.tooWide n.head.kind)) := by
  obtain ⟨own, -⟩ := sound_node_iff.1 sound
  obtain ⟨least, total⟩ := sum_fullWidth_set there c'
  rw [← own.fullWidth] at least total
  have width : (Element.node n).fullWidth = n.head.fullWidth := rfl
  have inside : i < n.children.length := (List.getElem?_eq_some_iff.1 there).1
  have shapes := forall_mem_set own.shape shape i
  have step : (Element.node n).replaceChild cell i c' = Element.node <$> onPath
      (Node.make cell n.head.kind n.head.summary.missing (n.children.set i c') n.head.overlay) := by
    rw [Element.replaceChild, Node.replaceChild_eq_make, if_pos inside]
  rw [step]
  cases made : Node.make cell n.head.kind n.head.summary.missing (n.children.set i c')
      n.head.overlay with
  | ok n' =>
    obtain ⟨own', -, -, -, children, -⟩ := (Node.make_eq_ok_iff own.overlay).1 made
    have fits := own'.fits
    rw [own'.fullWidth, children, total] at fits
    refine .inl ⟨⟨n', rfl⟩, ?_⟩
    rw [Outgrows, width]
    omega
  | error cause =>
    obtain rfl := Node.eq_tooWide_of_make own.kind shapes made
    refine .inr ⟨?_, rfl⟩
    by_contra small
    rw [Outgrows, width] at small
    have built := Node.make_eq_ok cell n.head.summary.missing n.head.overlay own.kind shapes rfl
      (show _ ≤ maxSize by omega)
    rw [made] at built
    cases built

/-- A replacement fails only where an element around the exchanged one becomes too wide, and
whenever one does. -/
theorem Sound.replaceAt_cases {e x y : Element} (sound : e.Sound) (soundY : y.Sound)
    (shape : y.isTrivia = false) {path : List Nat} (way : e.follow path = .ok x) (cell : Nat) :
    (∃ e', e.replaceAt cell path y = .ok e') ∧ (∀ a, e.Above path a → ¬Outgrows x y a) ∨
      ∃ a, e.Above path a ∧ Outgrows x y a ∧
        e.replaceAt cell path y = .error (.fault (.tooWide a.kind)) := by
  induction path generalizing e cell with
  | nil => exact .inl ⟨⟨y, rfl⟩, fun a above => absurd above not_above_nil⟩
  | cons i path ih =>
    obtain ⟨c, there, rest⟩ := follow_cons_eq_ok_iff.1 way
    have toC : e.follow [i] = .ok c := follow_cons_of_getElem? there []
    have soundC : c.Sound := sound.follow toC
    have soundX : x.Sound := soundC.follow rest
    rw [replaceAt_cons_of_getElem? there]
    rcases ih soundC rest (cell + 1) with ⟨⟨c', made⟩, fits⟩ | ⟨a, above, wide, refused⟩
    · have exchanged := exchanged_of_replaceAt rest made
      obtain ⟨inside, grown⟩ :=
        exchanged.fullWidth soundC (soundC.replaceAt soundY made) soundX soundY
      cases e with
      | node n =>
        obtain ⟨least, -⟩ := sum_fullWidth_set there c'
        rw [children, ← (sound_node_iff.1 sound).1.fullWidth] at least
        have same : Outgrows c c' (.node n) ↔ Outgrows x y (.node n) := by
          have width : (Element.node n).fullWidth = n.head.fullWidth := rfl
          simp only [Outgrows, width]
          omega
        have step := sound.replaceChild_cases there (exchanged.isTrivia shape) cell
        rw [same] at step
        rw [made]
        rcases step with ⟨⟨n', built⟩, small⟩ | ⟨wide, refused⟩
        · refine .inl ⟨⟨.node n', built⟩, ?_⟩
          intro a above
          rcases (above_cons_iff there).1 above with rfl | above
          · exact small
          · exact fits a above
        · exact .inr ⟨.node n, (above_cons_iff there).2 (.inl rfl), wide, refused⟩
      | token t => cases there
      | trivia t => cases there
    · refine .inr ⟨a, (above_cons_iff there).2 (.inr above), wide, ?_⟩
      rw [refused]
      rfl

theorem Exchanged.blueprint_eq {x x' e e' : Element} {path : List Nat}
    (exchanged : Exchanged x x' path e e') (same : x.blueprint = x'.blueprint) :
    e.blueprint = e'.blueprint := by
  induction exchanged with
  | here => exact same
  | @child n n' c c' i path there _ remade ih =>
    have children : n.children.map blueprint = n'.children.map blueprint := by
      obtain ⟨split, split'⟩ := split_set there c'
      rw [remade.children, split']
      conv_lhs => rw [split]
      rw [List.map_append, List.map_append, List.map_cons, List.map_cons, ih]
    simp only [blueprint, blueprints_eq, children, remade.kind, remade.missing, remade.overlay]

end Element

theorem PlacedElement.exists_reached {root : Node Element} (sound : (Element.node root).Sound)
    {path : List Nat} {x : Element} (way : (Element.node root).follow path = .ok x) :
    ∃ h, Reached root path h := by
  induction path using List.reverseRecOn generalizing x with
  | nil => exact ⟨_, .root⟩
  | append_singleton path i ih =>
    obtain ⟨n, above, child⟩ := Element.follow_concat_eq_ok way
    obtain ⟨h, reached⟩ := ih above
    have placing := reached.placing sound
    have onNode : h.element = .node n := Except.ok.inj (placing.way.symm.trans above)
    cases h with
    | node p =>
      obtain ⟨placed, all, elements⟩ := reached.exists_childrenWithTokens sound
      have same : p.node = n := Element.node.inj onNode
      have found : (placed.map PlacedElement.element)[i]? = some x := by
        rw [elements, same]
        exact child
      rw [List.getElem?_map, Option.map_eq_some_iff] at found
      obtain ⟨h, there, -⟩ := found
      exact ⟨h, .childWithTokens reached all there⟩
    | token t => cases onNode

theorem PlacedElement.Reached.span {root : Node Element} (sound : (Element.node root).Sound)
    {path : List Nat} {x : Element} (way : (Element.node root).follow path = .ok x)
    {h : PlacedElement} (reached : Reached root path h) : h.element = x ∧
      h.span = .ok ⟨(Element.node root).bytesBefore path,
        (Element.node root).bytesBefore path + x.fullWidth⟩ := by
  have placing := reached.placing sound
  have small := sound.size_fullText_le
  obtain rfl : h.element = x := Except.ok.inj (placing.way.symm.trans way)
  have inside := placing.stands.le
  rw [← placing.sound.fullWidth_eq, placing.offset] at inside
  refine ⟨rfl, ?_⟩
  rw [span_eq, placing.offset, Span.ofLength_eq_ok (inside.trans small)]

namespace Element

/-- Whether an element is another one with a new part at the end of a path, and nothing else new:
what is not on the path is the same, and so is what each element around the new part says of
itself. -/
structure Spliced (e : Element) (path : List Nat) (y e' : Element) : Prop where
  follow : e'.follow path = .ok y
  beside : ∀ q, ¬path <+: q → ¬q <+: path → e'.follow q = e.follow q
  above : ∀ q, q <+: path → q ≠ path → ∃ n n', e.follow q = .ok (.node n) ∧
    e'.follow q = .ok (.node n') ∧ n.Rebuilt n'

theorem Exchanged.spliced {x y e e' : Element} {path : List Nat}
    (exchanged : Exchanged x y path e e') (sound' : e'.Sound) : Spliced e path y e' where
  follow := exchanged.follow
  beside := fun _ notBelow notAbove => exchanged.follow_beside notBelow notAbove
  above := fun _ inside proper => exchanged.follow_above sound' inside proper

theorem Obtained.replaceAt_self {e x : Element} (obtained : e.Obtained) {path : List Nat}
    (way : e.follow path = .ok x) (cell : Nat) :
    ∃ e', e.replaceAt cell path x = .ok e' ∧ e.Verbatim e' := by
  have obtainedX : x.Obtained := .part (part_of_follow way) obtained
  obtain ⟨e', made, obtained'⟩ := obtained.exists_replaceAt obtainedX way rfl cell
  have same := (exchanged_of_replaceAt way made).blueprint_eq rfl
  exact ⟨e', made, obtained.sound.verbatim obtained'.sound same⟩

/-- Replacing an element at the end of a path by a node or token fails exactly if an element around
it becomes too wide. Otherwise the root reads the same in front of the range of the old element,
then as the new one, then the same behind the range, and nothing is new but the elements on the
path. -/
theorem Obtained.replaceAt_splices {root : Node Element} (obtained : (Element.node root).Obtained)
    {path : List Nat} (deep : path ≠ []) {x y : Element}
    (way : (Element.node root).follow path = .ok x) (obtainedY : y.Obtained)
    (shape : y.isTrivia = false) (cell : Nat) : ∃ span before behind,
      (∃ h, PlacedElement.Reached root path h) ∧
      (∀ h, PlacedElement.Reached root path h → h.element = x ∧ h.span = .ok span) ∧
      (Span.mk 0 span.start).cut? (Element.node root).fullText = some before ∧
      (Span.mk span.stop (Element.node root).fullText.utf8ByteSize).cut?
        (Element.node root).fullText = some behind ∧
      ((∃ a, (Element.node root).Above path a ∧ Outgrows x y a) →
        ∃ a, (Element.node root).Above path a ∧ Outgrows x y a ∧
          (Element.node root).replaceAt cell path y = .error (.fault (.tooWide a.kind))) ∧
      ((∀ a, (Element.node root).Above path a → ¬Outgrows x y a) →
        ∃ root', (Element.node root).replaceAt cell path y = .ok (.node root') ∧
          (Element.node root').fullText = before ++ y.fullText ++ behind ∧
          Spliced (.node root) path y (.node root')) ∧
      ∃ same, (Element.node root).replaceAt cell path x = .ok same ∧
        (Element.node root).Verbatim same := by
  have sound := obtained.sound
  have soundX := sound.follow way
  have outcome := sound.replaceAt_cases obtainedY.sound shape way cell
  obtain ⟨before, behind, text, start, around⟩ := exists_around way
  have stop : (before ++ x.fullText).utf8ByteSize =
      (Element.node root).bytesBefore path + x.fullWidth := by
    rw [String.utf8ByteSize_append, start, soundX.fullWidth_eq]
  refine ⟨⟨(Element.node root).bytesBefore path,
    (Element.node root).bytesBefore path + x.fullWidth⟩,
    before, behind, PlacedElement.exists_reached sound way, ?_, ?_, ?_, ?_, ?_,
    obtained.replaceAt_self way cell⟩
  · intro h reached
    exact reached.span sound way
  · rw [text, String.append_assoc, ← start]
    exact StandsAt.cut?_front before (x.fullText ++ behind)
  · rw [text, ← stop]
    exact StandsAt.cut?_back (before ++ x.fullText) behind
  · rintro ⟨b, above, wide⟩
    rcases outcome with ⟨-, fits⟩ | refused
    · exact absurd wide (fits b above)
    · exact refused
  · intro fits
    rcases outcome with ⟨⟨e', made⟩, -⟩ | ⟨a, above, wide, -⟩
    · have exchanged := exchanged_of_replaceAt way made
      have spliced := exchanged.spliced (sound.replaceAt obtainedY.sound made)
      obtain ⟨-, root', -, top, -⟩ := spliced.above [] List.nil_prefix deep.symm
      obtain rfl : e' = .node root' := Except.ok.inj top
      exact ⟨root', made, around y (.node root') exchanged, spliced⟩
    · exact absurd wide (fits a above)

theorem replaceAt_splices_missingSemicolon :
    let mark : Annotation := ⟨7, some "hole", none⟩
    let blank : Trivia := ⟨0, ⟨.whitespaceTrivia, {}, 2, .empty⟩, "\u00a0"⟩
    let name : Token := ⟨1, ⟨.ident, {}, 4, .empty⟩, "é", [blank], [], 2, 0⟩
    let hole : Token := ⟨2, ⟨.semicolon, { missing := true }, 0, .empty⟩, "", [], [], 0, 0⟩
    let list : Node Element := ⟨4, ⟨.listNode, { annotations := true }, 4, ⟨[], [mark]⟩⟩,
      [.token name, .token hole]⟩
    let root : Node Element := ⟨5, ⟨.listNode, { annotations := true }, 8, .empty⟩,
      [.token name, .node list]⟩
    (Element.node root).Obtained ∧ (Element.node root).follow [1, 1] = .ok (.token hole) ∧
      (Element.token name).Obtained ∧ ∃ span before behind root',
        (∃ h, PlacedElement.Reached root [1, 1] h ∧ h.span = .ok span) ∧
        (Span.mk 0 span.start).cut? (Element.node root).fullText = some before ∧
        (Element.node root).replaceAt 9 [1, 1] (.token name) = .ok (.node root') ∧
        (Element.node root').fullText = before ++ (Element.token name).fullText ++ behind ∧
        Spliced (.node root) [1, 1] (.token name) (.node root') := by
  intro mark blank name hole list root
  have madeBlank : Trivia.make 0 .whitespaceTrivia "\u00a0" .empty = .ok blank := rfl
  have madeName : Token.make 1 .ident false "é" [blank] [] .empty = .ok name := rfl
  have madeHole : Token.missing 2 .semicolon = .ok hole := rfl
  have madeList : Node.plain 3 .listNode [.token name, .token hole] =
      .ok ⟨3, ⟨.listNode, {}, 4, .empty⟩, [.token name, .token hole]⟩ := rfl
  have marked : (Element.node ⟨3, ⟨.listNode, {}, 4, .empty⟩,
    [.token name, .token hole]⟩).withAnnotations 4 [mark] = .ok (.node list) := by
    simp only [list, withAnnotations, withOverlay, Node.withOverlay]
    rfl
  have madeRoot : Node.plain 5 .listNode [.token name, .node list] = .ok root := rfl
  have obtainedBlank : (Element.trivia blank).Obtained :=
    .trivia Overlay.addressable_empty madeBlank
  have obtainedName : (Element.token name).Obtained :=
    .token (by simpa using obtainedBlank) (by simp) madeName
  have small : Overlay.Addressable { annotations := [mark] } := by
    unfold Overlay.Addressable
    decide
  have obtainedList : (Element.node list).Obtained :=
    .withAnnotations (.node (by simpa using ⟨obtainedName, .missing madeHole⟩) madeList)
      small marked
  have obtained : (Element.node root).Obtained :=
    .node (by simpa using ⟨obtainedName, obtainedList⟩) madeRoot
  have way : (Element.node root).follow [1, 1] = .ok (.token hole) := rfl
  have fits : ∀ a, (Element.node root).Above [1, 1] a →
      ¬Outgrows (.token hole) (.token name) a := by
    intro a above
    rcases (above_cons_iff (c := .node list) rfl).1 above with rfl | above
    · show ¬maxSize + 0 < 8 + 4
      decide
    · rcases (above_cons_iff (c := .token hole) rfl).1 above with rfl | above
      · show ¬maxSize + 0 < 4 + 4
        decide
      · exact absurd above not_above_nil
  obtain ⟨span, before, behind, ⟨h, reached⟩, placed, front, -, -, splices, -⟩ :=
    obtained.replaceAt_splices (by decide) way obtainedName rfl 9
  obtain ⟨root', made, text, spliced⟩ := splices fits
  exact ⟨obtained, way, obtainedName, span, before, behind, root',
    ⟨h, reached, (placed h reached).2⟩, front, made, text, spliced⟩

end Element

end GreenTree
