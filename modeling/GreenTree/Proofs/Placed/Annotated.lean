import GreenTree.Proofs.Placed.Search

/-!
Searches for marks. Everything that stands in a placed node ends inside its text, so a search for
marks of a kind never runs past the largest position: it finds every element that carries such a
mark, in source order, with its full range. A part that is shared is found at each place where it
stands.
-/

namespace GreenTree

/-- The elements that carry a mark of a kind, with their full ranges, of those that stand
somewhere. -/
def Element.marked (kind : String) (es : List (Nat × Element)) : List (Span × Element) :=
  (es.filter fun (_, d) => !(d.annotationsOfKind kind).isEmpty).map fun (position, d) =>
    (⟨position, position + d.fullWidth⟩, d)

namespace PlacedNode

private def pickMarked (kind : String) (start : Nat) (e : Element) :
    Except Fault (List (Span × Element)) :=
  if (e.annotationsOfKind kind).isEmpty then .ok []
  else return [(← Span.ofLength start e.fullWidth, e)]

private theorem quiet_pickMarked (kind : String) :
    Search.Quiet ({ annotations := true } : Summary) (pickMarked kind) := by
  apply Search.Quiet.of_bits
  · intro e sound
    rw [e.summary.contains_annotations]
    exact sound.summaryExact.annotations
  · intro position d bare
    rw [pickMarked, Element.annotationsOfKind, bare]
    rfl

private theorem picks_marked (kind : String) {es : List (Nat × Element)}
    (inside : ∀ position d, (position, d) ∈ es → position + d.fullWidth ≤ maxSize) :
    Search.picks (pickMarked kind) es = .ok (Element.marked kind es) := by
  induction es with
  | nil => rfl
  | cons e es ih =>
    obtain ⟨position, d⟩ := e
    have rest := ih fun q c mem => inside q c (List.mem_cons_of_mem _ mem)
    rw [Search.picks, rest, pickMarked]
    by_cases bare : (d.annotationsOfKind kind).isEmpty = true
    · have skipped : Element.marked kind ((position, d) :: es) = Element.marked kind es := by
        simp [Element.marked, bare]
      rw [if_pos bare, skipped]
      rfl
    · have listed : Element.marked kind ((position, d) :: es) =
          (⟨position, position + d.fullWidth⟩, d) :: Element.marked kind es := by
        simp [Element.marked, bare]
      rw [if_neg bare, Span.ofLength_eq_ok (inside position d List.mem_cons_self), listed]
      rfl

/-- The marked elements at or below a node whose text stands in a text of an allowed size. -/
theorem annotatedElements_eq {source : String} {n : PlacedNode} (sound : n.element.Sound)
    (stands : StandsAt source n.offset n.element.fullText) (small : source.utf8ByteSize ≤ maxSize)
    (kind : String) :
    n.annotatedElements kind = .ok (Element.marked kind (n.element.standing n.offset)) := by
  have inside : ∀ position d, (position, d) ∈ n.element.standing n.offset →
      position + d.fullWidth ≤ maxSize := by
    intro position d mem
    have part := sound.part (Element.part_of_mem_standing mem)
    rw [part.fullWidth_eq]
    exact (stands.standing mem).le.trans small
  have room : n.offset + n.element.fullWidth ≤ maxSize := by
    rw [sound.fullWidth_eq]
    exact stands.le.trans small
  have found := Search.run_eq_picks (quiet_pickMarked kind) sound room
  rw [picks_marked kind inside] at found
  exact found

end PlacedNode

def Element.Bears (kind : String) (e : Element) : Prop :=
  ∃ a ∈ e.overlay.annotations, a.kind = some kind

instance (kind : String) (e : Element) : Decidable (e.Bears kind) :=
  inferInstanceAs (Decidable (∃ a ∈ e.overlay.annotations, a.kind = some kind))

theorem Element.bears_iff {kind : String} {e : Element} :
    e.Bears kind ↔ (e.annotationsOfKind kind).isEmpty = false := by
  simp [Bears, annotationsOfKind]

theorem Element.marked_eq (kind : String) (es : List (Nat × Element)) :
    marked kind es = (es.filter fun (_, d) => d.Bears kind).map fun (position, d) =>
      (⟨position, position + d.fullWidth⟩, d) := by
  have same : (fun (p : Nat × Element) => !(p.2.annotationsOfKind kind).isEmpty) =
      fun p => decide (p.2.Bears kind) := by
    funext p
    rw [Bool.eq_iff_iff, decide_eq_true_iff, bears_iff, Bool.not_eq_true']
  simp only [marked, same]

/-- The elements with a mark of a kind that are found from a node that is reached from the root of a
tree are those in it that bear such a mark, in source order and as often as they stand there, each
with the range that its full text has in that of the root. -/
theorem Element.Obtained.reached_annotatedElements {root : Node Element}
    (obtained : (Element.node root).Obtained) {path : List Nat} {n : PlacedNode}
    (reached : PlacedElement.Reached root path (.node n)) (kind : String) :
    let standing := n.element.standing ((Element.node root).bytesBefore path)
    let expected : List (Span × Element) :=
      (standing.filter fun (_, d) => d.Bears kind).map fun (position, d) =>
      (⟨position, position + d.fullWidth⟩, d)
    n.annotatedElements kind = .ok expected ∧
      (∀ d : Element, d.Part n.element → d.Bears kind → ∃ s, (s, d) ∈ expected) ∧
      ∀ s d, (s, d) ∈ expected → d.Part n.element ∧ d.Bears kind ∧ s.stop ≤ maxSize ∧
        s.cut? (Element.node root).fullText = some d.fullText := by
  intro standing expected
  have sound := obtained.sound
  have placing := reached.placing sound
  have small : (Element.node root).fullText.utf8ByteSize ≤ maxSize :=
    sound.fullWidth_eq ▸ sound.fits
  have stands : StandsAt (Element.node root).fullText n.offset n.element.fullText := placing.stands
  have offset : n.offset = (Element.node root).bytesBefore path := placing.offset
  refine ⟨?_, fun d part bears => ?_, fun s d mem => ?_⟩
  · rw [PlacedNode.annotatedElements_eq placing.sound stands small, offset, marked_eq]
  · obtain ⟨position, met⟩ := exists_mem_standing part ((Element.node root).bytesBefore path)
    exact ⟨_, List.mem_map.2 ⟨_, List.mem_filter.2 ⟨met, decide_eq_true bears⟩, rfl⟩⟩
  · obtain ⟨⟨position, d⟩, found, same⟩ := List.mem_map.1 mem
    obtain ⟨rfl, rfl⟩ := Prod.mk.inj same
    obtain ⟨met, bears⟩ := List.mem_filter.1 found
    have part := part_of_mem_standing met
    have there := (offset ▸ stands).standing met
    have width := (placing.sound.part part).fullWidth_eq
    refine ⟨part, of_decide_eq_true bears, ?_, ?_⟩
    · rw [width]
      exact there.le.trans small
    · rw [width]
      exact there.cut?

theorem Element.reached_annotatedElements_sharedPart :
    let mark : Annotation := ⟨1, some "rename", none⟩
    let bare : Annotation := ⟨2, none, some "rename"⟩
    let marks : Summary := { annotations := true }
    let blank : Trivia := ⟨0, ⟨.whitespaceTrivia, marks, 1, ⟨[], [bare, mark]⟩⟩, " "⟩
    let name : Token := ⟨1, ⟨.ident, marks, 3, .empty⟩, "é", [blank], [], 1, 0⟩
    let comma : Token := ⟨3, ⟨.comma, marks, 1, ⟨[], [bare]⟩⟩, ",", [], [], 0, 0⟩
    let part : Node Element :=
      ⟨4, ⟨.listNode, marks, 4, .empty⟩, [.token name, .token comma]⟩
    let root : Node Element := ⟨5, ⟨.listNode, marks, 8, .empty⟩, [.node part, .node part]⟩
    let second : PlacedNode := ⟨⟨part, 4, 1⟩, [⟨root, 0, 0⟩]⟩
    (Element.node root).Obtained ∧ PlacedElement.Reached root [1] (.node second) ∧
      second.annotatedElements "rename" = .ok [(⟨4, 5⟩, .trivia blank)] ∧
      (PlacedNode.root root).annotatedElements "rename" =
        .ok [(⟨0, 1⟩, .trivia blank), (⟨4, 5⟩, .trivia blank)] := by
  intro mark bare marks blank name comma part root second
  let plain : Token := ⟨2, ⟨.comma, {}, 1, .empty⟩, ",", [], [], 0, 0⟩
  have madeBlank : Trivia.make 0 .whitespaceTrivia " " ⟨[], [bare, mark]⟩ = .ok blank := rfl
  have madeName : Token.make 1 .ident false "é" [blank] [] .empty = .ok name := rfl
  have madePlain : Token.plain 2 .comma "," = .ok plain := rfl
  have madeComma : (Element.token plain).withAnnotations 3 [bare] = .ok (.token comma) := by
    simp only [plain, comma, marks]
    rfl
  have madePart : Node.plain 4 .listNode [.token name, .token comma] = .ok part := rfl
  have madeRoot : Node.plain 5 .listNode [.node part, .node part] = .ok root := rfl
  have obtainedBlank : (Element.trivia blank).Obtained :=
    .trivia (by rw [Overlay.addressable_iff]; decide) madeBlank
  have obtainedName : (Element.token name).Obtained :=
    .token (by simpa using obtainedBlank) (by simp) madeName
  have obtainedComma : (Element.token comma).Obtained :=
    .withAnnotations (.token (by simp) (by simp) madePlain)
      (by rw [Overlay.addressable_iff]; decide) madeComma
  have obtainedPart : (Element.node part).Obtained :=
    .node (by simpa using ⟨obtainedName, obtainedComma⟩) madePart
  have obtained : (Element.node root).Obtained := .node (by simpa using obtainedPart) madeRoot
  have placed : (PlacedNode.root root).childrenWithTokens =
      .ok [.node ⟨⟨part, 0, 0⟩, [⟨root, 0, 0⟩]⟩, .node second] := rfl
  have reached : PlacedElement.Reached root [1] (.node second) :=
    .childWithTokens (i := 1) .root placed rfl
  have fromSecond := (obtained.reached_annotatedElements reached "rename").1
  have fromRoot := (obtained.reached_annotatedElements .root "rename").1
  exact ⟨obtained, reached, fromSecond, fromRoot⟩

end GreenTree
