import GreenTree.Element.Equality
import GreenTree.Element.Path
import GreenTree.Proofs.ErasedText

/-!
Equality between identity and equivalence. One object is equal to itself, equal elements have equal
hashes and are equivalent, and equivalent elements read alike at the end of every path. Equality
looks at everything but cells and what marks carry beside their numbers; so it is equality of what
is left when these are dropped.
-/

namespace GreenTree

def Annotation.unlabelled (a : Annotation) : Annotation := ⟨a.id, none, none⟩

def Overlay.unlabelled (o : Overlay) : Overlay :=
  { o with annotations := o.annotations.map Annotation.unlabelled }

def Head.unlabelled (h : Head) : Head := { h with overlay := h.overlay.unlabelled }

def Trivia.unlabelled (t : Trivia) : Trivia := { t with cell := 0, head := t.head.unlabelled }

def Token.unlabelled (t : Token) : Token :=
  { t with
    cell := 0
    head := t.head.unlabelled
    leading := t.leading.map Trivia.unlabelled
    trailing := t.trailing.map Trivia.unlabelled }

namespace Element

mutual

/-- An element without its cells, and with nothing but their numbers left of the marks in it. -/
def unlabelled : Element → Element
  | .node n => .node ⟨0, n.head.unlabelled, allUnlabelled n.children⟩
  | .token t => .token t.unlabelled
  | .trivia t => .trivia t.unlabelled

def allUnlabelled : List Element → List Element
  | [] => []
  | c :: cs => unlabelled c :: allUnlabelled cs

end

@[simp] theorem allUnlabelled_eq (cs : List Element) : allUnlabelled cs = cs.map unlabelled := by
  induction cs with
  | nil => rfl
  | cons c cs ih => simp [allUnlabelled, ih]

end Element

/-! ### Equality -/

theorem beq_list_iff {α β : Type} [BEq α] {left : α → β} {as bs : List α}
    (each : ∀ a ∈ as, ∀ b, (a == b) = true ↔ left a = left b) :
    (as == bs) = true ↔ as.map left = bs.map left := by
  induction as generalizing bs with
  | nil => cases bs <;> simp
  | cons a as ih =>
    obtain ⟨first, others⟩ := List.forall_mem_cons.1 each
    cases bs with
    | nil => simp
    | cons b bs => simp only [List.cons_beq_cons, Bool.and_eq_true, List.map_cons, List.cons.injEq,
        first b, ih others]

theorem Annotation.beq_iff (a b : Annotation) :
    (a == b) = true ↔ a.unlabelled = b.unlabelled := by
  simp [unlabelled]

theorem Overlay.beq_iff (a b : Overlay) : (a == b) = true ↔ a.unlabelled = b.unlabelled := by
  change (a.diagnostics == b.diagnostics && a.annotations == b.annotations) = true ↔ _
  rw [Bool.and_eq_true, beq_iff_eq, beq_list_iff fun a _ b => Annotation.beq_iff a b, unlabelled,
    unlabelled, Overlay.mk.injEq]

theorem Head.beq_iff (a b : Head) : (a == b) = true ↔ a.unlabelled = b.unlabelled := by
  change (a.kind == b.kind && a.summary == b.summary && a.fullWidth == b.fullWidth &&
    a.overlay == b.overlay) = true ↔ _
  simp only [Bool.and_eq_true, beq_iff_eq, Overlay.beq_iff, unlabelled, Head.mk.injEq, and_assoc]

theorem Trivia.beq_iff (a b : Trivia) : (a == b) = true ↔ a.unlabelled = b.unlabelled := by
  change (a.head == b.head && a.text == b.text) = true ↔ _
  simp only [Bool.and_eq_true, beq_iff_eq, Head.beq_iff, unlabelled, Trivia.mk.injEq, true_and]

theorem Token.beq_iff (a b : Token) : (a == b) = true ↔ a.unlabelled = b.unlabelled := by
  change (a.head == b.head && a.text == b.text && a.leading == b.leading &&
    a.trailing == b.trailing && a.leadingWidth == b.leadingWidth &&
    a.trailingWidth == b.trailingWidth) = true ↔ _
  have trivia (as bs : List Trivia) :
      (as == bs) = true ↔ as.map Trivia.unlabelled = bs.map Trivia.unlabelled :=
    beq_list_iff fun a _ b => Trivia.beq_iff a b
  simp only [Bool.and_eq_true, beq_iff_eq, Head.beq_iff, trivia, unlabelled, Token.mk.injEq,
    true_and, and_assoc]

namespace Element

private theorem beqList_iff {as bs : List Element}
    (each : ∀ a ∈ as, ∀ b, beq a b = true ↔ a.unlabelled = b.unlabelled) :
    beqList as bs = true ↔ as.map unlabelled = bs.map unlabelled := by
  induction as generalizing bs with
  | nil => cases bs <;> simp [beqList]
  | cons a as ih =>
    obtain ⟨first, others⟩ := List.forall_mem_cons.1 each
    cases bs with
    | nil => simp [beqList]
    | cons b bs => simp only [beqList, Bool.and_eq_true, List.map_cons, List.cons.injEq,
        first b, ih others]

/-- Elements are equal exactly if they agree in everything but cells and what marks carry beside
their numbers. -/
theorem beq_iff (a b : Element) : (a == b) = true ↔ a.unlabelled = b.unlabelled := by
  change beq a b = true ↔ _
  induction a using Element.induction generalizing b with
  | node n parts =>
    cases b with
    | node m =>
      simp only [beq, Bool.and_eq_true, Head.beq_iff, beqList_iff parts, unlabelled,
        allUnlabelled_eq, node.injEq, Node.mk.injEq, true_and]
    | token t => exact iff_of_false nofun nofun
    | trivia t => exact iff_of_false nofun nofun
  | token t =>
    cases b with
    | node m => exact iff_of_false nofun nofun
    | token u => rw [beq, Token.beq_iff, unlabelled, unlabelled, token.injEq]
    | trivia u => exact iff_of_false nofun nofun
  | trivia t =>
    cases b with
    | node m => exact iff_of_false nofun nofun
    | token u => exact iff_of_false nofun nofun
    | trivia u => rw [beq, Trivia.beq_iff, unlabelled, unlabelled, trivia.injEq]

end Element

/-! ### Hashes -/

theorem hash_list_map {α β : Type} [Hashable α] [Hashable β] {left : α → β} {as : List α}
    (each : ∀ a ∈ as, hash (left a) = hash a) : hash (as.map left) = hash as := by
  change (as.map left).foldl (fun r a => mixHash r (hash a)) 7 =
    as.foldl (fun r a => mixHash r (hash a)) 7
  rw [List.foldl_map]
  exact List.foldl_ext _ _ _ fun r a mem => congrArg (mixHash r) (each a mem)

theorem Annotation.hash_unlabelled (a : Annotation) : hash a.unlabelled = hash a := rfl

theorem Overlay.hash_unlabelled (o : Overlay) : hash o.unlabelled = hash o := by
  change mixHash (hash o.diagnostics) (hash (o.annotations.map Annotation.unlabelled)) = _
  rw [hash_list_map fun a _ => a.hash_unlabelled]
  rfl

theorem Head.hash_unlabelled (h : Head) : hash h.unlabelled = hash h := by
  change mixHash _ (mixHash _ (hash h.overlay.unlabelled)) = _
  rw [h.overlay.hash_unlabelled]
  rfl

theorem Trivia.hash_unlabelled (t : Trivia) : hash t.unlabelled = hash t := by
  change mixHash (hash t.head.unlabelled) _ = _
  rw [t.head.hash_unlabelled]
  rfl

theorem Token.hash_unlabelled (t : Token) : hash t.unlabelled = hash t := by
  change mixHash (mixHash (hash t.head.unlabelled) _) (mixHash (mixHash
    (hash (t.leading.map Trivia.unlabelled)) (hash (t.trailing.map Trivia.unlabelled))) _) = _
  rw [t.head.hash_unlabelled, hash_list_map fun s _ => s.hash_unlabelled,
    hash_list_map fun s _ => s.hash_unlabelled]
  rfl

namespace Element

private theorem hashedList_map {cs : List Element}
    (each : ∀ c ∈ cs, hashed c.unlabelled = hashed c) (seed : UInt64) :
    hashedList seed (cs.map unlabelled) = hashedList seed cs := by
  induction cs generalizing seed with
  | nil => rfl
  | cons c cs ih =>
    obtain ⟨first, others⟩ := List.forall_mem_cons.1 each
    rw [List.map_cons, hashedList, hashedList, first, ih others]

theorem hash_unlabelled (e : Element) : hash e.unlabelled = hash e := by
  change hashed e.unlabelled = hashed e
  induction e using Element.induction with
  | node n parts =>
    rw [unlabelled, hashed, hashed, allUnlabelled_eq, n.head.hash_unlabelled, hashedList_map parts]
  | token t => rw [unlabelled, hashed, hashed, t.hash_unlabelled]
  | trivia t => rw [unlabelled, hashed, hashed, t.hash_unlabelled]

theorem hash_eq_of_beq {a b : Element} (equal : (a == b) = true) : hash a = hash b := by
  rw [← hash_unlabelled a, (beq_iff a b).1 equal, hash_unlabelled]

end Element

/-! ### Equivalence -/

theorem Head.erased_unlabelled (h : Head) : h.unlabelled.erased = h.erased := rfl

theorem Token.erased_unlabelled (t : Token) : t.unlabelled.erased = t.erased := by
  have trivia (ts : List Trivia) : (ts.map Trivia.unlabelled).map Trivia.erased =
      ts.map Trivia.erased := by
    rw [List.map_map]
    rfl
  simp only [unlabelled, erased, trivia, Head.erased_unlabelled]

namespace Element

theorem erased_unlabelled (e : Element) : e.unlabelled.erased = e.erased := by
  induction e using Element.induction with
  | node n parts =>
    have children : (n.children.map unlabelled).map erased = n.children.map erased := by
      rw [List.map_map]
      exact List.map_congr_left parts
    simp only [unlabelled, erased, allUnlabelled_eq, allErased_eq, children, Head.erased_unlabelled]
  | token t => rw [unlabelled, erased, erased, t.erased_unlabelled]
  | trivia t => rfl

theorem isEquivalent_of_beq {a b : Element} (equal : (a == b) = true) :
    a.isEquivalent b = true := by
  have same : a.erased = b.erased := by
    rw [← a.erased_unlabelled, (beq_iff a b).1 equal, b.erased_unlabelled]
  exact isEquivalent_of_comparesEqual (comparesEqual_of_erased same)

theorem erased_childAt (e : Element) (i : Nat) : e.erased.childAt i = (e.childAt i).map erased := by
  cases e with
  | node n =>
    simp only [erased, allErased_eq, childAt, slot, onPath, List.getElem?_map]
    cases n.children[i]? <;> rfl
  | token t => rfl
  | trivia t => rfl

theorem erased_follow (e : Element) (path : List Nat) :
    e.erased.follow path = (e.follow path).map erased := by
  induction path generalizing e with
  | nil => rfl
  | cons i path ih =>
    rw [follow, follow, erased_childAt]
    cases e.childAt i with
    | error cause => rfl
    | ok c => exact ih c

/-- Whether elements have the same texts and widths and as many children, and agree on whether they
are missing and whether they hold skipped text. -/
structure LooksAs (a b : Element) : Prop extends a.ReadsAs b where
  slotCount : a.slotCount = b.slotCount
  missing : a.summary.missing = b.summary.missing
  skippedText : a.summary.skippedText = b.summary.skippedText

theorem erased_slotCount (e : Element) : e.erased.slotCount = e.slotCount := by
  cases e <;> simp [slotCount, children, erased]

theorem looksAs_of_erased {a b : Element} (same : a.erased = b.erased) : a.LooksAs b where
  toReadsAs := readsAs_of_erased same
  slotCount := by rw [← a.erased_slotCount, same, b.erased_slotCount]
  missing := by
    have bits := congrArg (fun e => e.summary.missing) same
    simpa [erased_summary] using bits
  skippedText := by
    have bits := congrArg (fun e => e.summary.skippedText) same
    simpa [erased_summary, Summary.structural, Summary.difference, Summary.metadata] using bits

/-- Whether a path leads in two elements to parts that look alike, or fails in both for the same
reason. -/
def LooksAsAt (path : List Nat) (a b : Element) : Prop :=
  (∃ x y, a.follow path = .ok x ∧ b.follow path = .ok y ∧ x.LooksAs y) ∨
    ∃ cause, a.follow path = .error cause ∧ b.follow path = .error cause

theorem looksAsAt_of_erased {a b : Element} (same : a.erased = b.erased) (path : List Nat) :
    LooksAsAt path a b := by
  have ways : (a.follow path).map erased = (b.follow path).map erased := by
    rw [← erased_follow, same, erased_follow]
  cases there : a.follow path with
  | ok x =>
    cases there' : b.follow path with
    | ok y =>
      rw [there, there'] at ways
      exact .inl ⟨x, y, there, there', looksAs_of_erased (Except.ok.inj ways)⟩
    | error cause =>
      rw [there, there'] at ways
      cases ways
  | error cause =>
    cases there' : b.follow path with
    | ok y =>
      rw [there, there'] at ways
      cases ways
    | error cause' =>
      rw [there, there'] at ways
      obtain rfl := Except.error.inj ways
      exact .inr ⟨cause, there, there'⟩

end Element

/-- At any time of a run, one object is equal to itself, equal elements have equal hashes and are
equivalent, and equivalent elements look alike at the end of every path. Elements are equal exactly
if they are the same but for cells and what marks carry beside their numbers. -/
theorem Store.Reached.equality_chain {s : Store} (reached : s.Reached) {a b : Element}
    (heldA : s.Holds a) (heldB : s.Holds b) :
    (a.sameCell b = true → (a == b) = true) ∧
      ((a == b) = true → hash a = hash b ∧ a.isEquivalent b = true) ∧
      (a.isEquivalent b = true → ∀ path, Element.LooksAsAt path a b) ∧
      ((a == b) = true ↔ a.unlabelled = b.unlabelled) := by
  refine ⟨fun shared => ?_, fun equal => ?_, fun equivalent path => ?_, Element.beq_iff a b⟩
  · have one : a = b := reached.single heldA heldB (eq_of_beq shared)
    exact (Element.beq_iff a b).2 (congrArg Element.unlabelled one)
  · exact ⟨Element.hash_eq_of_beq equal, Element.isEquivalent_of_beq equal⟩
  · exact Element.looksAsAt_of_erased
      ((reached.isEquivalent_iff_erased heldA heldB).1 equivalent) path

theorem Store.equality_chain_renamedMark :
    let comma : Token := ⟨0, ⟨.comma, {}, 1, .empty⟩, ",", [], [], 0, 0⟩
    let bits : Summary := { annotations := true }
    let marked : Token :=
      ⟨1, ⟨.comma, bits, 1, ⟨[], [⟨1, some "bold", none⟩]⟩⟩, ",", [], [], 0, 0⟩
    let renamed : Token := ⟨2,
      ⟨.comma, bits, 1, ⟨[], [⟨1, some "italic", some "x"⟩]⟩⟩, ",", [], [], 0, 0⟩
    let a := Element.token marked
    let b := Element.token renamed
    let s : Store := ⟨3, [b, a, .token comma], [], []⟩
    s.Reached ∧ s.Holds a ∧ s.Holds b ∧ (a == b) = true ∧
      (hash a = hash b ∧ a.isEquivalent b = true) ∧ (∀ path, Element.LooksAsAt path a b) ∧
        ¬Element.Verbatim a b := by
  intro comma bits marked renamed a b s
  have madeComma : Token.make 0 .comma false "," [] [] .empty = .ok comma := rfl
  have madeMarked : (Element.token comma).withAnnotations 1 [⟨1, some "bold", none⟩] =
      .ok a := by
    simp only [a, comma, marked, bits]
    rfl
  have madeRenamed : a.withAnnotations 2 [⟨1, some "italic", some "x"⟩] = .ok b := by
    simp only [a, b, marked, renamed, bits]
    rfl
  have first : Reached ⟨1, [.token comma], [], []⟩ := .token .start (by simp) madeComma
  have second : Reached ⟨2, [a, .token comma], [], []⟩ :=
    .withAnnotations first ⟨_, .head _, .self _⟩
      (by rw [Overlay.addressable_iff]; decide) madeMarked
  have reached : s.Reached :=
    .withAnnotations second ⟨_, .head _, .self _⟩
      (by rw [Overlay.addressable_iff]; decide) madeRenamed
  have heldA : s.Holds a := ⟨_, .tail _ (.head _), .self _⟩
  have heldB : s.Holds b := ⟨_, .head _, .self _⟩
  obtain ⟨-, follows, looks, same⟩ := reached.equality_chain heldA heldB
  have equal : (a == b) = true := same.2 rfl
  have equivalent : a.isEquivalent b = true := (follows equal).2
  have differ : ¬Element.Verbatim a b := fun verbatim =>
    absurd (congrArg (fun p => p.overlay.annotations.map Annotation.kind) verbatim) (by decide)
  exact ⟨reached, heldA, heldB, equal, follows equal, looks equivalent, differ⟩

end GreenTree
