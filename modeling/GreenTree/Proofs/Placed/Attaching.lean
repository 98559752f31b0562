import GreenTree.Proofs.Placed.Annotated
import GreenTree.Proofs.Replacing

/-!
Attaching diagnostics somewhere in a tree. Everything that stands in the root still stands where it
stood; only the element at the end of the path has other diagnostics. So the list of all diagnostics
changes in one place, and marked elements are found where they were.
-/

namespace GreenTree

namespace Element

def standingBefore (start : Nat) (e : Element) : List Nat → List (Nat × Element)
  | [] => []
  | i :: path =>
    let left := e.children.take i
    (start, e) :: (standingAll start left ++ ((e.children[i]?).map fun c =>
      c.standingBefore (start + (left.map fun c => c.fullText.utf8ByteSize).sum) path).getD [])

theorem standingAll_append (start : Nat) (cs ds : List Element) :
    standingAll start (cs ++ ds) = standingAll start cs ++
      standingAll (start + (cs.map fun c => c.fullText.utf8ByteSize).sum) ds := by
  induction cs generalizing start with
  | nil => rfl
  | cons c cs ih =>
    rw [List.cons_append, standingAll, ih, standingAll, List.append_assoc, List.map_cons,
      List.sum_cons, Nat.add_assoc]

theorem standing_eq_cons (start : Nat) (e : Element) :
    e.standing start = (start, e) :: (e.standing start).tail := by
  cases e <;> rfl

theorem Reattached.standing_tail {overlay : Overlay} {e e' : Element}
    (reattached : Reattached overlay e e') (start : Nat) :
    (e'.standing start).tail = (e.standing start).tail := by
  cases reattached with
  | node _ _ _ children => simp only [standing, children, List.tail_cons]
  | token _ _ _ text leading trailing =>
    simp only [standing, Token.leadingText, text, leading, trailing, List.tail_cons]
  | trivia => rfl

/-- What searches see of elements that stand somewhere: where they stand, how wide they are, and
what is attached. -/
def sighted (es : List (Nat × Element)) : List (Nat × Nat × Overlay) :=
  es.map fun (position, d) => (position, d.fullWidth, d.overlay)

theorem ownDiagnostics_of_sighted {es es' : List (Nat × Element)}
    (same : sighted es = sighted es') :
    es.flatMap (fun (position, d) => d.ownDiagnostics position) =
      es'.flatMap fun (position, d) => d.ownDiagnostics position := by
  have seen (es : List (Nat × Element)) :
      es.flatMap (fun (position, d) => d.ownDiagnostics position) =
        (sighted es).flatMap fun (position, _, o) => o.diagnostics.map fun d =>
        (⟨position + d.offset.toNat, position + d.offset.toNat + d.width.toNat⟩, d) := by
    rw [sighted, List.flatMap_map]
    rfl
  rw [seen, same, seen]

/-- The marks on elements that stand somewhere, with what their ranges depend on. -/
def marksOn (es : List (Nat × Element)) : List (Nat × Nat × List Annotation) :=
  es.map fun (position, d) => (position, d.fullWidth, d.overlay.annotations)

theorem marksOn_of_sighted {es es' : List (Nat × Element)} (same : sighted es = sighted es') :
    marksOn es = marksOn es' := by
  have seen (es : List (Nat × Element)) : marksOn es =
      (sighted es).map fun (position, width, o) => (position, width, o.annotations) := by
    rw [marksOn, sighted, List.map_map]
    rfl
  rw [seen, same, seen]

theorem marked_of_marksOn {es es' : List (Nat × Element)} (same : marksOn es = marksOn es')
    (kind : String) : (marked kind es).map Prod.fst = (marked kind es').map Prod.fst := by
  have seen (es : List (Nat × Element)) : (marked kind es).map Prod.fst =
      ((marksOn es).filter fun (_, _, as) => !(as.filter fun a => a.kind == some kind).isEmpty).map
        fun (position, width, _) => ⟨position, position + width⟩ := by
    rw [marked, marksOn, List.filter_map, List.map_map, List.map_map]
    rfl
  rw [seen, same, seen]

theorem bytesBefore_cons {e c : Element} {i : Nat} (there : e.children[i]? = some c)
    (path : List Nat) :
    e.bytesBefore (i :: path) =
      ((e.children.take i).map fun c => c.fullText.utf8ByteSize).sum + c.bytesBefore path := by
  simp [bytesBefore, there]

theorem standingBefore_cons {e c : Element} {i : Nat}
    (there : e.children[i]? = some c) (start : Nat) (path : List Nat) :
    e.standingBefore start (i :: path) = (start, e) ::
      (standingAll start (e.children.take i) ++ c.standingBefore
        (start + ((e.children.take i).map fun c => c.fullText.utf8ByteSize).sum) path) := by
  simp [standingBefore, there]

theorem standing_node_split {n : Node Element} {left right : List Element} {c : Element}
    (split : n.children = left ++ c :: right) (start : Nat) :
    let middle := start + (left.map fun c => c.fullText.utf8ByteSize).sum
    (Element.node n).standing start = (start, .node n) :: (standingAll start left ++
      (c.standing middle ++ standingAll (middle + c.fullText.utf8ByteSize) right)) := by
  intro middle
  rw [standing, split, standingAll_append, standingAll]

variable {x x' e e' : Element} {path : List Nat}

theorem Exchanged.standing (exchanged : Exchanged x x' path e e')
    (same : x.blueprint.erased = x'.blueprint.erased) (sound : e.Sound) (sound' : e'.Sound)
    (start : Nat) : ∃ behind,
      e.standing start = e.standingBefore start path ++
        (x.standing (start + e.bytesBefore path) ++ behind) ∧
      e'.standing start = e'.standingBefore start path ++
        (x'.standing (start + e.bytesBefore path) ++ behind) ∧
      sighted (e'.standingBefore start path) = sighted (e.standingBefore start path) := by
  induction exchanged generalizing start with
  | here =>
    exact ⟨[], by simp [standingBefore, Element.bytesBefore],
      by simp [standingBefore, Element.bytesBefore], rfl⟩
  | @child n n' c c' i path there below remade ih =>
    have whole := (Exchanged.child there below remade).blueprint_erased same
    have there' := remade.getElem?_eq there
    have left := remade.take_eq
    obtain ⟨split, split'⟩ := split_set there c'
    rw [← remade.children] at split'
    have soundC := (sound_node_iff.1 sound).2 c (List.mem_of_getElem? there)
    have soundC' := (sound_node_iff.1 sound').2 c' (List.mem_of_getElem? there')
    have size : c'.fullText.utf8ByteSize = c.fullText.utf8ByteSize := by
      rw [← soundC.fullWidth_eq, ← soundC'.fullWidth_eq]
      exact (soundC.fullWidth_eq_of_blueprint soundC' (below.blueprint_erased same)).symm
    obtain ⟨behind, before, before', seen⟩ := ih soundC soundC'
      (start + ((n.children.take i).map fun c => c.fullText.utf8ByteSize).sum)
    have width : (Element.node n').fullWidth = (Element.node n).fullWidth :=
      (sound.fullWidth_eq_of_blueprint sound' whole).symm
    have overlay : (Element.node n').overlay = (Element.node n).overlay := remade.overlay
    refine ⟨behind ++ standingAll (start +
      ((n.children.take i).map fun c => c.fullText.utf8ByteSize).sum + c.fullText.utf8ByteSize)
        (n.children.drop (i + 1)), ?_, ?_, ?_⟩
    · rw [standing_node_split split, before, standingBefore_cons there, bytesBefore_cons there]
      simp [Nat.add_assoc, children]
    · rw [standing_node_split split', before', standingBefore_cons there',
        bytesBefore_cons there, size]
      simp [Nat.add_assoc, children, left]
    · rw [standingBefore_cons there', standingBefore_cons there]
      simp only [sighted, List.map_cons, List.map_append, children, left, width, overlay]
        at seen ⊢
      rw [seen]

theorem part_of_follow (way : e.follow path = .ok x) : x.Part e := by
  induction path generalizing e with
  | nil =>
    obtain rfl : e = x := Except.ok.inj way
    exact .self e
  | cons i path ih =>
    obtain ⟨c, there, rest⟩ := follow_cons_eq_ok_iff.1 way
    cases e with
    | node n => exact .child (List.mem_of_getElem? there) (ih rest)
    | token t => cases there
    | trivia t => cases there

theorem exists_node_of_blueprint {n : Node Element}
    (same : (Element.node n).blueprint.erased = e.blueprint.erased) : ∃ n', e = .node n' := by
  cases e with
  | node n' => exact ⟨n', rfl⟩
  | token t => simp [blueprint, Blueprint.erased] at same
  | trivia t => simp [blueprint, Blueprint.erased] at same

theorem Obtained.exists_withDiagnosticsAt (obtained : e.Obtained) (way : e.follow path = .ok x)
    {ds : List Diagnostic} (small : Overlay.Addressable { diagnostics := ds }) (cell : Nat) :
    ∃ x' e', e.withDiagnosticsAt cell path ds = .ok e' ∧
      Reattached { x.overlay with diagnostics := ds } x x' ∧ e'.Obtained ∧
      Exchanged x x' path e e' := by
  have obtainedX : x.Obtained := .part (part_of_follow way) obtained
  have made : x.withDiagnostics cell ds = .ok _ := obtainedX.sound.withOverlay_eq cell _
  have obtainedX' := Obtained.withDiagnostics obtainedX small made
  have reattached := reattached_of_withOverlay made
  obtain ⟨e', replaced, obtained'⟩ := obtained.exists_replaceAt obtainedX' way
    reattached.blueprint_erased (cell + 1)
  refine ⟨_, e', ?_, reattached, obtained', exchanged_of_replaceAt way replaced⟩
  rw [withDiagnosticsAt, way]
  change (onPath (x.withDiagnostics cell ds) >>= _) = _
  rw [made]
  exact replaced

end Element

theorem PlacedNode.root_reports {root : Node Element} (sound : (Element.node root).Sound) :
    (PlacedNode.root root).Reports ((Element.node root).standingDiagnostics 0) := by
  apply reports_standing (n := .root root) sound
  rw [show (PlacedNode.root root).offset = 0 from rfl, Nat.zero_add]
  exact sound.fits

theorem PlacedNode.root_annotatedElements {root : Node Element} (sound : (Element.node root).Sound)
    (kind : String) : (PlacedNode.root root).annotatedElements kind =
      .ok (Element.marked kind ((Element.node root).standing 0)) :=
  annotatedElements_eq (n := .root root) sound (StandsAt.self _) sound.size_fullText_le kind

/-- Diagnostics that are attached somewhere below a root, in place of those that were there, are
listed in the place of those, behind the same text. All other diagnostics are listed as before,
marked elements are found where they were, and the root reads as before. -/
theorem Element.Obtained.diagnostics_attached {root : Node Element}
    (obtained : (Element.node root).Obtained) {path : List Nat} {x : Element}
    (way : (Element.node root).follow path = .ok x) {ds : List Diagnostic}
    (small : Overlay.Addressable { diagnostics := ds }) (cell : Nat) :
    ∃ (root' : Node Element) (x' : Element),
      (Element.node root).withDiagnosticsAt cell path ds = .ok (.node root') ∧
      (Element.node root').follow path = .ok x' ∧
      x'.overlay = { x.overlay with diagnostics := ds } ∧
      (Element.node root).isEquivalent (.node root') = true ∧
      (Element.node root').isEquivalent (.node root) = true ∧
      (Element.node root').ReadsAs (.node root) ∧
      (let start := (Element.node root).bytesBefore path
       let before := ((Element.node root).standingBefore 0 path).flatMap fun (position, d) =>
         d.ownDiagnostics position
       (∀ h, PlacedElement.Reached root path h → h.offset = start) ∧
       ∃ behind, (PlacedNode.root root).Reports (before ++ x.ownDiagnostics start ++ behind) ∧
         (PlacedNode.root root').Reports (before ++ x'.ownDiagnostics start ++ behind)) ∧
      ∀ kind, ∃ found found', (PlacedNode.root root).annotatedElements kind = .ok found ∧
        (PlacedNode.root root').annotatedElements kind = .ok found' ∧
        found'.map Prod.fst = found.map Prod.fst := by
  have sound := obtained.sound
  obtain ⟨x', e', attached, reattached, obtained', exchanged⟩ :=
    obtained.exists_withDiagnosticsAt way small cell
  have same := reattached.blueprint_erased
  obtain ⟨root', rfl⟩ := exists_node_of_blueprint (exchanged.blueprint_erased same)
  have sound' := obtained'.sound
  have equal := exchanged.blueprint_erased same
  have overlay := reattached.overlay_eq
  obtain ⟨behind, split, split', seen⟩ := exchanged.standing same sound sound' 0
  rw [Nat.zero_add, standing_eq_cons _ x] at split
  rw [Nat.zero_add, standing_eq_cons _ x', reattached.standing_tail] at split'
  refine ⟨root', x', attached, exchanged.follow, overlay,
    sound.isEquivalent_of_blueprint sound' equal, sound'.isEquivalent_of_blueprint sound equal.symm,
    readsAs_of_erased ((sound'.comparesEqual_iff sound).2.2 equal.symm), ⟨?_, ?_⟩, ?_⟩
  · intro h reached
    exact (reached.placing sound).offset
  · have reports := PlacedNode.root_reports sound
    have reports' := PlacedNode.root_reports sound'
    rw [standingDiagnostics, split, List.flatMap_append] at reports
    rw [standingDiagnostics, split', List.flatMap_append, ownDiagnostics_of_sighted seen]
      at reports'
    simp only [List.cons_append, List.flatMap_cons, ← List.append_assoc] at reports reports'
    exact ⟨_, reports, reports'⟩
  · intro kind
    refine ⟨_, _, PlacedNode.root_annotatedElements sound kind,
      PlacedNode.root_annotatedElements sound' kind, ?_⟩
    have width : x'.fullWidth = x.fullWidth :=
      ((sound.part (part_of_follow way)).fullWidth_eq_of_blueprint
        (sound'.part (part_of_follow exchanged.follow)) same).symm
    have marks : x'.overlay.annotations = x.overlay.annotations := by rw [overlay]
    have before := marksOn_of_sighted seen
    apply marked_of_marksOn
    rw [split, split']
    simp only [marksOn, List.map_append, List.cons_append, List.map_cons, width, marks]
      at before ⊢
    rw [before]

theorem Element.diagnostics_attached_sharedComma :
    let trouble : Diagnostic := ⟨⟨7⟩, .warning, 0, 1, []⟩
    let hint : Diagnostic := ⟨⟨8⟩, .info, 1, 0, []⟩
    let mark : Annotation := ⟨1, some "mark", none⟩
    let both : Summary := { diagnostics := true, annotations := true }
    let comma : Token := ⟨2, ⟨.comma, both, 1, ⟨[trouble], [mark]⟩⟩, ",", [], [], 0, 0⟩
    let part : Node Element := ⟨3, ⟨.listNode, both, 1, .empty⟩, [.token comma]⟩
    let root : Node Element := ⟨4, ⟨.listNode, both, 2, .empty⟩, [.node part, .node part]⟩
    (Element.node root).Obtained ∧ (Element.node root).follow [1, 0] = .ok (.token comma) ∧
      Overlay.Addressable { diagnostics := [hint] } ∧
      (PlacedNode.root root).diagnostics = .ok [(⟨0, 1⟩, trouble), (⟨1, 2⟩, trouble)] ∧
      ∃ root', (Element.node root).withDiagnosticsAt 5 [1, 0] [hint] = .ok (.node root') ∧
        (PlacedNode.root root').diagnostics = .ok [(⟨0, 1⟩, trouble), (⟨2, 2⟩, hint)] := by
  intro trouble hint mark both comma part root
  let plain : Token := ⟨0, ⟨.comma, {}, 1, .empty⟩, ",", [], [], 0, 0⟩
  let marked : Token :=
    ⟨1, ⟨.comma, { annotations := true }, 1, ⟨[], [mark]⟩⟩, ",", [], [], 0, 0⟩
  have madePlain : Token.plain 0 .comma "," = .ok plain := rfl
  have madeMarked : (Element.token plain).withAnnotations 1 [mark] = .ok (.token marked) := by
    simp only [plain, marked]
    rfl
  have madeComma : (Element.token marked).withDiagnostics 2 [trouble] = .ok (.token comma) := by
    simp only [marked, comma, both, Element.withDiagnostics, Element.withOverlay, Token.withOverlay]
    rfl
  have madePart : Node.plain 3 .listNode [.token comma] = .ok part := rfl
  have madeRoot : Node.plain 4 .listNode [.node part, .node part] = .ok root := rfl
  have obtainedPlain : (Element.token plain).Obtained := .token (by simp) (by simp) madePlain
  have obtainedMarked : (Element.token marked).Obtained :=
    .withAnnotations obtainedPlain (by rw [Overlay.addressable_iff]; decide) madeMarked
  have obtainedComma : (Element.token comma).Obtained :=
    .withDiagnostics obtainedMarked (by rw [Overlay.addressable_iff]; decide) madeComma
  have obtainedPart : (Element.node part).Obtained := .node (by simpa using obtainedComma) madePart
  have obtained : (Element.node root).Obtained := .node (by simpa using obtainedPart) madeRoot
  have way : (Element.node root).follow [1, 0] = .ok (.token comma) := rfl
  have small : Overlay.Addressable { diagnostics := [hint] } := by
    rw [Overlay.addressable_iff]
    decide
  have old : (PlacedNode.root root).diagnostics =
      .ok [(⟨0, 1⟩, trouble), (⟨1, 2⟩, trouble)] := by
    rfl
  obtain ⟨root', x', attached, -, overlay, -, -, -, ⟨-, behind, reports, reports'⟩, -⟩ :=
    obtained.diagnostics_attached way small 5
  have before : ((Element.node root).standingBefore 0 [1, 0]).flatMap
      (fun (position, d) => d.ownDiagnostics position) = [(⟨0, 1⟩, trouble)] := by
      decide +kernel
  have start : (Element.node root).bytesBefore [1, 0] = 1 := by decide +kernel
  have block : (Element.token comma).ownDiagnostics 1 = [(⟨1, 2⟩, trouble)] := rfl
  have block' : x'.ownDiagnostics 1 = [(⟨2, 2⟩, hint)] := by
    rw [Element.ownDiagnostics, overlay]
    rfl
  rw [before, start, block, PlacedNode.Reports, old] at reports
  rw [before, start, block', PlacedNode.Reports] at reports'
  split at reports
  · simp only [List.cons_append, List.nil_append, Except.ok.injEq, List.cons.injEq, true_and]
      at reports
    obtain rfl := reports.symm
    exact ⟨obtained, way, small, old, root', attached, reports'⟩
  · cases reports

end GreenTree
