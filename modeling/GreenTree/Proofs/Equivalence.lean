import Mathlib.Data.List.Forall2
import GreenTree.Element.Equivalence
import GreenTree.Proofs.Store

/-!
Structural equivalence is equality of what is left when everything attached is erased. The
comparison stops early, goes through lists in pairs and skips nodes that are one object; what
decides is the same as for the erased trees, and also the same as for their blueprints, since widths
and bits follow from what an element is made from.
-/

namespace GreenTree

namespace Summary

theorem structural_union (a b : Summary) :
    (a.union b).structural = a.structural.union b.structural := by
  simp [structural, difference, union, metadata]

@[simp] theorem structural_missing (a : Summary) : a.structural.missing = a.missing := by
  simp [structural, difference, metadata]

end Summary

def Head.erased (h : Head) : Head := { h with summary := h.summary.structural, overlay := .empty }

def Trivia.erased (t : Trivia) : Trivia := { t with cell := 0, head := t.head.erased }

def Token.erased (t : Token) : Token :=
  { t with
    cell := 0
    head := t.head.erased
    leading := t.leading.map Trivia.erased
    trailing := t.trailing.map Trivia.erased }

def TriviaBlueprint.erased (t : TriviaBlueprint) : TriviaBlueprint := { t with overlay := .empty }

mutual

def Blueprint.erased : Blueprint → Blueprint
  | .trivia t => .trivia t.erased
  | .token kind missing text leading trailing _ =>
    .token kind missing text (leading.map TriviaBlueprint.erased)
      (trailing.map TriviaBlueprint.erased) .empty
  | .node kind missing children _ => .node kind missing (Blueprint.allErased children) .empty

def Blueprint.allErased : List Blueprint → List Blueprint
  | [] => []
  | c :: cs => c.erased :: Blueprint.allErased cs

end

namespace Element

mutual

/-- An element with nothing attached anywhere in it, without the bits that report what is, and
without its cells. -/
def erased : Element → Element
  | .node n => .node ⟨0, n.head.erased, allErased n.children⟩
  | .token t => .token t.erased
  | .trivia t => .trivia t.erased

def allErased : List Element → List Element
  | [] => []
  | c :: cs => erased c :: allErased cs

end

mutual

/-- Whether two elements are structurally the same, with every node searched, whatever cell it is
in. -/
def comparesEqual : Element → Element → Bool
  | .node a, .node b =>
    a.head.isEquivalent b.head && a.children.length == b.children.length &&
      allCompareEqual a.children b.children
  | .token a, .token b => a.isEquivalent b
  | .trivia a, .trivia b => a.isEquivalent b
  | _, _ => false

def allCompareEqual : List Element → List Element → Bool
  | a :: as, b :: bs => comparesEqual a b && allCompareEqual as bs
  | _, _ => true

end

@[simp] theorem allErased_eq (cs : List Element) : allErased cs = cs.map erased := by
  induction cs with
  | nil => rfl
  | cons c cs ih => simp [allErased, ih]

theorem erased_fullWidth (e : Element) : e.erased.fullWidth = e.fullWidth := by
  cases e <;> rfl

theorem erased_summary (e : Element) : e.erased.summary = e.summary.structural := by
  cases e <;> rfl

end Element

@[simp] theorem Blueprint.allErased_eq (cs : List Blueprint) : allErased cs = cs.map erased := by
  induction cs with
  | nil => rfl
  | cons c cs ih => simp [allErased, ih]

@[simp] theorem Blueprint.erased_kind (d : Blueprint) : d.erased.kind = d.kind := by
  cases d <;> rfl

@[simp] theorem Blueprint.erased_isTrivia (d : Blueprint) : d.erased.isTrivia = d.isTrivia := by
  cases d <;> rfl

@[simp] theorem Blueprint.erased_missing (d : Blueprint) : d.erased.missing = d.missing := by
  cases d <;> rfl

@[simp] theorem Blueprint.erased_overlay (d : Blueprint) : d.erased.overlay = .empty := by
  cases d <;> rfl

theorem Blueprint.erased_width (d : Blueprint) : d.erased.width = d.width := by
  induction d using Blueprint.induction with
  | trivia t => rfl
  | token kind missing text leading trailing overlay =>
    simp only [erased, width, List.map_map]
    rfl
  | node kind missing children overlay parts =>
    simp only [erased, width, widths_eq, allErased_eq, List.map_map]
    exact congrArg List.sum (List.map_congr_left parts)

theorem Blueprint.erased_records (d : Blueprint) : d.erased.records = d.records.map erased := by
  induction d using Blueprint.induction with
  | trivia t => rfl
  | token kind missing text leading trailing overlay =>
    simp only [erased, records, List.map_append, List.map_map, List.map_cons, List.map_nil]
    rfl
  | node kind missing children overlay parts =>
    simp only [erased, records, recordsIn_eq, allErased_eq, List.map_append, List.map_cons,
      List.map_nil, List.flatMap_map, List.map_flatMap]
    congr 1
    exact List.flatMap_congr parts

theorem Blueprint.erased_summary (d : Blueprint) : d.erased.summary = d.summary.structural := by
  simp [summary, erased_records, Function.comp_def, Overlay.empty, Summary.structural,
    Summary.difference, Summary.metadata]

theorem Element.Sound.erased_head_eq {e : Element} (sound : e.Sound) :
    e.head.erased = ⟨e.kind, e.blueprint.erased.summary, e.blueprint.erased.width, .empty⟩ := by
  rw [Blueprint.erased_summary, Blueprint.erased_width, sound.summary_blueprint,
    sound.width_blueprint]
  rfl

theorem Trivia.Sound.erased_eq {t : Trivia} (sound : t.Sound) :
    t.erased = t.blueprint.erased.trivia := by
  have head : t.head.erased = _ := Element.Sound.erased_head_eq (.trivia sound)
  rw [Trivia.erased, head]
  rfl

theorem Trivia.Sound.map_erased_eq {ts : List Trivia} (sound : ∀ t ∈ ts, t.Sound) :
    ts.map Trivia.erased =
      ((ts.map Trivia.blueprint).map TriviaBlueprint.erased).map TriviaBlueprint.trivia := by
  rw [List.map_map, List.map_map]
  exact List.map_congr_left fun t mem => (sound t mem).erased_eq

namespace Element

theorem Sound.erased_eq {e : Element} (sound : e.Sound) :
    e.erased = e.blueprint.erased.element := by
  induction sound with
  | @node n own parts ih =>
    have head : n.head.erased = _ := erased_head_eq (.node own parts)
    have children : n.children.map erased =
        ((n.children.map blueprint).map Blueprint.erased).map Blueprint.element := by
      rw [List.map_map, List.map_map]
      exact List.map_congr_left ih
    simp only [erased, allErased_eq, children, blueprint, blueprints_eq, Blueprint.erased,
      Blueprint.allErased_eq, Blueprint.element, Blueprint.elements_eq]
    rw [head, blueprint, blueprints_eq, Blueprint.erased, Blueprint.allErased_eq]
    rfl
  | @token t own =>
    have head : t.head.erased = _ := erased_head_eq (.token own)
    have widths (ts : List TriviaBlueprint) :
        (ts.map TriviaBlueprint.erased).map TriviaBlueprint.width =
          ts.map TriviaBlueprint.width := by
      rw [List.map_map]
      rfl
    simp only [erased, Token.erased, blueprint, Blueprint.erased, Blueprint.element, widths,
      Trivia.Sound.map_erased_eq own.leading, Trivia.Sound.map_erased_eq own.trailing,
      Trivia.Sound.width_blueprints own.leading, Trivia.Sound.width_blueprints own.trailing,
      ← own.leadingWidth, ← own.trailingWidth]
    rw [head, blueprint, Blueprint.erased]
    rfl
  | trivia own => simp only [erased, blueprint, Blueprint.erased, Blueprint.element, own.erased_eq]

end Element

theorem Head.isEquivalent_iff {a b : Head} : a.isEquivalent b = true ↔
    a.kind = b.kind ∧ a.summary.structural = b.summary.structural := by
  rw [isEquivalent, Bool.and_eq_true, beq_iff_eq, beq_iff_eq]

theorem Trivia.isEquivalent_iff {a b : Trivia} :
    a.isEquivalent b = true ↔ a.head.isEquivalent b.head = true ∧ a.text = b.text := by
  rw [isEquivalent, Bool.and_eq_true, beq_iff_eq]

theorem Trivia.areEquivalent_iff {as bs : List Trivia} :
    areEquivalent as bs = true ↔ List.Forall₂ (fun a b => a.isEquivalent b = true) as bs := by
  rw [areEquivalent, Bool.and_eq_true, beq_iff_eq]
  induction as generalizing bs with
  | nil => cases bs <;> simp
  | cons a as ih =>
    cases bs with
    | nil => simp
    | cons b bs =>
      simp only [List.length_cons, Nat.add_right_cancel_iff, List.zip_cons_cons, List.all_cons,
        Bool.and_eq_true, List.forall₂_cons, ← ih]
      exact and_left_comm

theorem Token.isEquivalent_iff {a b : Token} : a.isEquivalent b = true ↔
    a.head.isEquivalent b.head = true ∧ a.text = b.text ∧
      List.Forall₂ (fun s t => s.isEquivalent t = true) a.leading b.leading ∧
      List.Forall₂ (fun s t => s.isEquivalent t = true) a.trailing b.trailing := by
  rw [isEquivalent, Bool.and_eq_true, Bool.and_eq_true, Bool.and_eq_true, beq_iff_eq,
    Trivia.areEquivalent_iff, Trivia.areEquivalent_iff, and_assoc, and_assoc]

namespace Element

private theorem allCompareEqual_iff {as bs : List Element} :
    (as.length = bs.length ∧ allCompareEqual as bs = true) ↔
      List.Forall₂ (fun a b => a.comparesEqual b = true) as bs := by
  induction as generalizing bs with
  | nil => cases bs <;> simp [allCompareEqual]
  | cons a as ih =>
    cases bs with
    | nil => simp
    | cons b bs =>
      simp only [List.length_cons, Nat.add_right_cancel_iff, allCompareEqual, Bool.and_eq_true,
        List.forall₂_cons, ← ih]
      exact and_left_comm

theorem comparesEqual_node_iff {a b : Node Element} :
    (node a).comparesEqual (.node b) = true ↔ a.head.isEquivalent b.head = true ∧
      List.Forall₂ (fun c d => c.comparesEqual d = true) a.children b.children := by
  rw [comparesEqual, Bool.and_eq_true, Bool.and_eq_true, beq_iff_eq, and_assoc, allCompareEqual_iff]

end Element

section Pairs

variable {α β γ : Type} {R : α → β → Prop} {f : α → γ} {g : β → γ}

theorem map_eq_of_forall₂ {as : List α} {bs : List β} (pairs : List.Forall₂ R as bs)
    (same : ∀ a ∈ as, ∀ b, R a b → f a = g b) : as.map f = bs.map g := by
  induction pairs with
  | nil => rfl
  | cons first _ ih =>
    obtain ⟨here, behind⟩ := List.forall_mem_cons.1 same
    rw [List.map_cons, List.map_cons, here _ first, ih behind]

theorem forall₂_of_map_eq {as : List α} {bs : List β} (same : as.map f = bs.map g)
    (related : ∀ a ∈ as, ∀ b ∈ bs, f a = g b → R a b) : List.Forall₂ R as bs := by
  induction as generalizing bs with
  | nil =>
    obtain rfl := List.map_eq_nil_iff.1 same.symm
    exact .nil
  | cons a as ih =>
    cases bs with
    | nil => cases same
    | cons b bs =>
      obtain ⟨first, rest⟩ := List.cons.inj same
      exact .cons (related a List.mem_cons_self b List.mem_cons_self first)
        (ih rest fun c mem d mem' =>
          related c (List.mem_cons_of_mem a mem) d (List.mem_cons_of_mem b mem'))

end Pairs

theorem Head.missing_eq_of_isEquivalent {a b : Head} (same : a.isEquivalent b = true) :
    a.summary.missing = b.summary.missing := by
  have bits := congrArg Summary.missing (isEquivalent_iff.1 same).2
  rwa [Summary.structural_missing, Summary.structural_missing] at bits

theorem Head.isEquivalent_of_erased {a b : Head} (same : a.erased = b.erased) :
    a.isEquivalent b = true := by
  have kinds := congrArg kind same
  have bits := congrArg summary same
  exact isEquivalent_iff.2 ⟨kinds, bits⟩

theorem Trivia.blueprint_erased_of_isEquivalent {a b : Trivia} (same : a.isEquivalent b = true) :
    a.blueprint.erased = b.blueprint.erased := by
  obtain ⟨heads, texts⟩ := isEquivalent_iff.1 same
  obtain ⟨kinds, -⟩ := Head.isEquivalent_iff.1 heads
  rw [blueprint, blueprint, TriviaBlueprint.erased, TriviaBlueprint.erased, kinds, texts]

theorem Trivia.isEquivalent_of_erased {a b : Trivia} (same : a.erased = b.erased) :
    a.isEquivalent b = true := by
  have heads := congrArg head same
  have texts := congrArg text same
  exact isEquivalent_iff.2 ⟨Head.isEquivalent_of_erased heads, texts⟩

private theorem Trivia.map_blueprint_erased {as bs : List Trivia}
    (same : List.Forall₂ (fun a b => a.isEquivalent b = true) as bs) :
    (as.map blueprint).map TriviaBlueprint.erased =
      (bs.map blueprint).map TriviaBlueprint.erased := by
  rw [List.map_map, List.map_map]
  exact map_eq_of_forall₂ same fun a _ b => blueprint_erased_of_isEquivalent

namespace Element

theorem blueprint_erased_of_comparesEqual {a b : Element} (same : a.comparesEqual b = true) :
    a.blueprint.erased = b.blueprint.erased := by
  induction a using Element.induction generalizing b with
  | node n parts =>
    cases b with
    | node m =>
      obtain ⟨heads, pairs⟩ := comparesEqual_node_iff.1 same
      obtain ⟨kinds, -⟩ := Head.isEquivalent_iff.1 heads
      have children : (n.children.map blueprint).map Blueprint.erased =
          (m.children.map blueprint).map Blueprint.erased := by
        rw [List.map_map, List.map_map]
        exact map_eq_of_forall₂ pairs fun c mem d same => parts c mem same
      simp only [blueprint, Blueprint.erased, blueprints_eq, Blueprint.allErased_eq, kinds,
        children, Head.missing_eq_of_isEquivalent heads]
    | token t => cases same
    | trivia t => cases same
  | token t =>
    cases b with
    | node m => cases same
    | token u =>
      obtain ⟨heads, texts, leading, trailing⟩ := Token.isEquivalent_iff.1 same
      obtain ⟨kinds, -⟩ := Head.isEquivalent_iff.1 heads
      simp only [blueprint, Blueprint.erased, kinds, texts, Head.missing_eq_of_isEquivalent heads,
        Trivia.map_blueprint_erased leading, Trivia.map_blueprint_erased trailing]
    | trivia u => cases same
  | trivia t =>
    cases b with
    | node m => cases same
    | token u => cases same
    | trivia u => exact congrArg Blueprint.trivia (Trivia.blueprint_erased_of_isEquivalent same)

theorem comparesEqual_of_erased {a b : Element} (same : a.erased = b.erased) :
    a.comparesEqual b = true := by
  induction a using Element.induction generalizing b with
  | node n parts =>
    cases b with
    | node m =>
      simp only [erased, allErased_eq, node.injEq, Node.mk.injEq, true_and] at same
      obtain ⟨heads, children⟩ := same
      exact comparesEqual_node_iff.2 ⟨Head.isEquivalent_of_erased heads,
        forall₂_of_map_eq children fun c mem d _ same => parts c mem same⟩
    | token t => cases same
    | trivia t => cases same
  | token t =>
    cases b with
    | node m => cases same
    | token u =>
      simp only [erased, Token.erased, token.injEq, Token.mk.injEq, true_and] at same
      obtain ⟨heads, texts, leading, trailing, -, -⟩ := same
      exact Token.isEquivalent_iff.2 ⟨Head.isEquivalent_of_erased heads, texts,
        forall₂_of_map_eq leading fun s _ t _ => Trivia.isEquivalent_of_erased,
        forall₂_of_map_eq trailing fun s _ t _ => Trivia.isEquivalent_of_erased⟩
    | trivia u => cases same
  | trivia t =>
    cases b with
    | node m => cases same
    | token u => cases same
    | trivia u => exact Trivia.isEquivalent_of_erased (trivia.inj same)

/-- What is left of sound elements is the same exactly if they compare equal, and exactly if they
are made from the same, but for what is attached. -/
theorem Sound.comparesEqual_iff {a b : Element} (soundA : a.Sound) (soundB : b.Sound) :
    (a.comparesEqual b = true ↔ a.erased = b.erased) ∧
      (a.erased = b.erased ↔ a.blueprint.erased = b.blueprint.erased) := by
  have made (same : a.blueprint.erased = b.blueprint.erased) : a.erased = b.erased := by
    rw [soundA.erased_eq, soundB.erased_eq, same]
  refine ⟨⟨fun same => ?_, comparesEqual_of_erased⟩, fun same => ?_, made⟩
  · exact made (blueprint_erased_of_comparesEqual same)
  · exact blueprint_erased_of_comparesEqual (comparesEqual_of_erased same)

private theorem allEquivalent_of_pairs {as bs : List Element}
    (pairs : List.Forall₂ (fun a b => a.comparesEqual b = true) as bs)
    (parts : ∀ a ∈ as, ∀ b, a.comparesEqual b = true → a.isEquivalent b = true) :
    allEquivalent as bs = true := by
  induction pairs with
  | nil => rfl
  | cons same _ ih =>
    obtain ⟨first, others⟩ := List.forall_mem_cons.1 parts
    rw [allEquivalent, first _ same, ih others, Bool.and_self]

theorem isEquivalent_of_comparesEqual {a b : Element} (same : a.comparesEqual b = true) :
    a.isEquivalent b = true := by
  induction a using Element.induction generalizing b with
  | node n parts =>
    cases b with
    | node m =>
      obtain ⟨heads, pairs⟩ := comparesEqual_node_iff.1 same
      have all := allEquivalent_of_pairs pairs fun c mem d => parts c mem
      rw [isEquivalent, heads, all, pairs.length_eq, beq_self_eq_true, Bool.and_self, Bool.and_self,
        Bool.or_true]
    | token t => cases same
    | trivia t => cases same
  | token t => cases b <;> exact same
  | trivia t => cases b <;> exact same

private theorem allEquivalent_eq {as bs : List Element}
    (same : ∀ a ∈ as, ∀ b ∈ bs, a.isEquivalent b = a.comparesEqual b) :
    allEquivalent as bs = allCompareEqual as bs := by
  induction as generalizing bs with
  | nil => cases bs <;> rfl
  | cons a as ih =>
    cases bs with
    | nil => rfl
    | cons b bs =>
      have first := same a List.mem_cons_self b List.mem_cons_self
      have rest := ih fun c memC d memD =>
        same c (List.mem_cons_of_mem a memC) d (List.mem_cons_of_mem b memD)
      rw [allEquivalent, allCompareEqual, first, rest]

/-- Where a cell names one object, it makes no difference that nodes in one cell are not
searched. -/
theorem isEquivalent_eq_comparesEqual {a b : Element}
    (single : ∀ c d : Element, c.Part a → d.Part b → c.cell = d.cell → c = d) :
    a.isEquivalent b = a.comparesEqual b := by
  induction a using Element.induction generalizing b with
  | node n parts =>
    cases b with
    | node m =>
      have lists := allEquivalent_eq fun c memC d memD => parts c memC fun x y inC inD =>
        single x y (.child memC inC) (.child memD inD)
      by_cases shared : n.cell = m.cell
      · have one : Element.node n = .node m := single _ _ (.self _) (.self _) shared
        have equal : (Element.node n).comparesEqual (.node m) = true :=
          comparesEqual_of_erased (congrArg erased one)
        rw [equal, isEquivalent, shared, beq_self_eq_true, Bool.true_or]
      · have apart : (n.cell == m.cell) = false := beq_false_of_ne shared
        rw [isEquivalent, comparesEqual, apart, Bool.false_or, lists]
    | token t => rfl
    | trivia t => rfl
  | token t => cases b <;> rfl
  | trivia t => cases b <;> rfl

end Element

namespace Store

/-- What the comparison of two elements of a run says, and how it relates elements of the run. -/
structure ComparesErased (s : Store) (a b : Element) : Prop where
  erased : a.isEquivalent b = true ↔ a.erased = b.erased
  blueprint : a.isEquivalent b = true ↔ a.blueprint.erased = b.blueprint.erased
  searched : a.isEquivalent b = a.comparesEqual b
  shape : a.isEquivalent b = true → a.ctorIdx = b.ctorIdx
  refl : a.isEquivalent a = true
  symm : a.isEquivalent b = b.isEquivalent a
  trans : ∀ c, s.Holds c → a.isEquivalent b = true → b.isEquivalent c = true →
    a.isEquivalent c = true

theorem Reached.isEquivalent_eq {s : Store} (reached : s.Reached) {a b : Element}
    (heldA : s.Holds a) (heldB : s.Holds b) : a.isEquivalent b = a.comparesEqual b :=
  Element.isEquivalent_eq_comparesEqual fun _ _ inA inB =>
    reached.single (heldA.part inA) (heldB.part inB)

theorem Reached.isEquivalent_iff_erased {s : Store} (reached : s.Reached) {a b : Element}
    (heldA : s.Holds a) (heldB : s.Holds b) : a.isEquivalent b = true ↔ a.erased = b.erased := by
  have tidy := reached.tidy
  rw [reached.isEquivalent_eq heldA heldB]
  exact ((tidy.sound_of_holds heldA).comparesEqual_iff (tidy.sound_of_holds heldB)).1

/-- At any time of a run, elements are equivalent exactly if the same is left of them when
everything attached is erased; the comparison is an equivalence, keeps shapes apart, and does not
depend on which nodes are one object. -/
theorem Reached.comparesErased {s : Store} (reached : s.Reached) {a b : Element} (heldA : s.Holds a)
    (heldB : s.Holds b) : s.ComparesErased a b where
  erased := reached.isEquivalent_iff_erased heldA heldB
  blueprint := by
    have tidy := reached.tidy
    rw [reached.isEquivalent_iff_erased heldA heldB]
    exact ((tidy.sound_of_holds heldA).comparesEqual_iff (tidy.sound_of_holds heldB)).2
  searched := reached.isEquivalent_eq heldA heldB
  shape := by
    intro same
    cases a <;> cases b <;> first | rfl | cases same
  refl := (reached.isEquivalent_iff_erased heldA heldA).2 rfl
  symm := by
    rw [Bool.eq_iff_iff, reached.isEquivalent_iff_erased heldA heldB,
      reached.isEquivalent_iff_erased heldB heldA]
    exact eq_comm
  trans := by
    intro c heldC first second
    rw [reached.isEquivalent_iff_erased heldA heldB] at first
    rw [reached.isEquivalent_iff_erased heldB heldC] at second
    exact (reached.isEquivalent_iff_erased heldA heldC).2 (first.trans second)

theorem comparesErased_markedComma :
    let comma : Token := ⟨0, ⟨.comma, {}, 1, .empty⟩, ",", [], [], 0, 0⟩
    let trouble : Diagnostic := ⟨⟨7⟩, .warning, 0, 1, []⟩
    let marked : Token :=
      ⟨1, ⟨.comma, { diagnostics := true }, 1, ⟨[trouble], []⟩⟩, ",", [], [], 0, 0⟩
    let list : Node Element := ⟨2, ⟨.listNode, {}, 1, .empty⟩, [.token comma]⟩
    let list' : Node Element :=
      ⟨3, ⟨.listNode, { diagnostics := true }, 1, .empty⟩, [.token marked]⟩
    let s : Store := ⟨4, [.node list', .node list, .token marked, .token comma], [], []⟩
    s.Reached ∧ s.Holds (.node list) ∧ s.Holds (.node list') ∧
      s.ComparesErased (.node list) (.node list') ∧
        (Element.node list).isEquivalent (.node list') = true := by
  intro comma trouble marked list list' s
  have madeComma : Token.make 0 .comma false "," [] [] .empty = .ok comma := rfl
  have madeMarked : (Element.token comma).withDiagnostics 1 [trouble] = .ok (.token marked) := by
    simp only [comma, marked]
    rfl
  have madeList : Node.plain 2 .listNode [.token comma] = .ok list := rfl
  have madeList' : list.replaceChild 3 0 (.token marked) = .ok list' := by
    simp only [list, comma, marked]
    rfl
  have first : Reached ⟨1, [.token comma], [], []⟩ := .token .start (by simp) madeComma
  have second : Reached ⟨2, [.token marked, .token comma], [], []⟩ :=
    .withDiagnostics first ⟨_, .head _, .self _⟩
      (by simp [Overlay.Addressable, Overlay.texts, trouble])
      madeMarked
  have heldComma : Holds ⟨2, [.token marked, .token comma], [], []⟩ (.token comma) :=
    ⟨_, .tail _ (.head _), .self _⟩
  have third : Reached ⟨3, [.node list, .token marked, .token comma], [], []⟩ :=
    .node second (by simpa using heldComma) madeList
  have reached : s.Reached :=
    .replaceChild third ⟨_, .head _, .self _⟩ ⟨_, .tail _ (.head _), .self _⟩ madeList'
  have held : s.Holds (.node list) := ⟨_, .tail _ (.head _), .self _⟩
  have held' : s.Holds (.node list') := ⟨_, .head _, .self _⟩
  have compares := reached.comparesErased held held'
  exact ⟨reached, held, held', compares, compares.erased.2 rfl⟩

end Store

end GreenTree
