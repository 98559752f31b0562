import GreenTree.Proofs.Blueprint
import GreenTree.Stream.OverlayBlock
import Mathlib.Data.List.Forall2

/-!
Sound elements: every element in them has the class of its kind, the width of its text and the
summary bits of its parts. The makers make sound elements from sound parts and fail only on what no
sound element can have, and a sound element is the one that its blueprint denotes.
-/

namespace GreenTree

theorem addSize?_eq_some_iff {a b total : Nat} :
    addSize? a b = some total ↔ total = a + b ∧ a + b ≤ maxSize := by
  simp only [addSize?, Option.ite_none_right_eq_some, Option.some.injEq]
  omega

private theorem foldlM_addSize? {sizes : List Nat} {start total : Nat} (small : start ≤ maxSize) :
    sizes.foldlM addSize? start = some total ↔
      total = start + sizes.sum ∧ start + sizes.sum ≤ maxSize := by
  induction sizes generalizing start with
  | nil =>
    simp only [List.foldlM_nil, Option.pure_def, Option.some.injEq, List.sum_nil]
    omega
  | cons size sizes ih =>
    simp only [List.foldlM_cons, Option.bind_eq_bind, Option.bind_eq_some_iff,
      addSize?_eq_some_iff, List.sum_cons]
    constructor
    · rintro ⟨_, ⟨rfl, fits⟩, rest⟩
      have := (ih fits).1 rest
      omega
    · rintro ⟨rfl, fits⟩
      refine ⟨start + size, ⟨rfl, by omega⟩, (ih (by omega)).2 ?_⟩
      omega

theorem sumSizes?_eq_some_iff {sizes : List Nat} {total : Nat} :
    sumSizes? sizes = some total ↔ total = sizes.sum ∧ sizes.sum ≤ maxSize := by
  have := @foldlM_addSize? sizes 0 total (Nat.zero_le maxSize)
  simpa [sumSizes?] using this

theorem textSize_eq_ok_iff {text : String} {width : Nat} :
    textSize text = .ok width ↔ width = text.utf8ByteSize ∧ text.utf8ByteSize ≤ maxSize := by
  unfold textSize
  split
  · simp only [Except.ok.injEq]
    omega
  · simp only [reduceCtorEq, false_iff]
    omega

theorem fitting_eq_ok_iff {kind : Kind} {sum : Option Nat} {width : Nat} :
    fitting kind sum = .ok width ↔ sum = some width := by
  cases sum <;> simp [fitting]

theorem bind_eq_ok_iff {ε α β : Type} {x : Except ε α} {f : α → Except ε β} {b : β} :
    (x >>= f) = .ok b ↔ ∃ a, x = .ok a ∧ f a = .ok b := by
  cases x <;> simp [bind, Except.bind]

theorem bind_eq_error_iff {ε α β : Type} {x : Except ε α} {f : α → Except ε β} {e : ε} :
    (x >>= f) = .error e ↔ x = .error e ∨ ∃ a, x = .ok a ∧ f a = .error e := by
  cases x <;> simp [bind, Except.bind]

theorem map_eq_ok_iff {ε α β : Type} {x : Except ε α} {f : α → β} {b : β} :
    f <$> x = .ok b ↔ ∃ a, x = .ok a ∧ f a = b := by
  cases x <;> simp [Functor.map, Except.map]

theorem forall_mem_set {α : Type} {P : α → Prop} {xs : List α} (old : ∀ x ∈ xs, P x)
    {y : α} (new : P y) (i : Nat) : ∀ x ∈ xs.set i y, P x := by
  intro x mem
  rcases List.mem_or_eq_of_mem_set mem with mem | rfl
  · exact old x mem
  · exact new

def Overlay.texts (o : Overlay) : List String :=
  o.diagnostics.flatMap Diagnostic.arguments ++
    o.annotations.flatMap fun a => a.kind.toList ++ a.data.toList

/-- Whether the texts in an overlay fit in memory, where no text takes half of the address space. -/
def Overlay.Addressable (o : Overlay) : Prop :=
  ∀ text ∈ o.texts, text.utf8ByteSize < OverlayBlock.addressLimit

@[simp] theorem Overlay.addressable_empty : Overlay.empty.Addressable := by
  simp [Addressable, texts, empty]

theorem Overlay.addressable_iff {o : Overlay} : o.Addressable ↔
    (∀ d ∈ o.diagnostics, ∀ text ∈ d.arguments, text.utf8ByteSize <
      OverlayBlock.addressLimit) ∧
    ∀ a ∈ o.annotations, ∀ text ∈ a.kind.toList ++ a.data.toList,
      text.utf8ByteSize < OverlayBlock.addressLimit := by
  simp only [Addressable, texts, List.mem_append, List.mem_flatMap]
  constructor
  · intro small
    exact ⟨fun d hd text h => small text (.inl ⟨d, hd, h⟩),
      fun a ha text h => small text (.inr ⟨a, ha, h⟩)⟩
  · rintro ⟨first, second⟩ text (⟨d, hd, h⟩ | ⟨a, ha, h⟩)
    · exact first d hd text h
    · exact second a ha text h

theorem Overlay.Addressable.withDiagnostics {o : Overlay} (old : o.Addressable)
    {diagnostics : List Diagnostic} (new : Addressable { diagnostics }) :
    Addressable { o with diagnostics } :=
  addressable_iff.2 ⟨(addressable_iff.1 new).1, (addressable_iff.1 old).2⟩

theorem Overlay.Addressable.withAnnotations {o : Overlay} (old : o.Addressable)
    {annotations : List Annotation} (new : Addressable { annotations }) :
    Addressable { o with annotations } :=
  addressable_iff.2 ⟨(addressable_iff.1 old).1, (addressable_iff.1 new).2⟩

/-- What holds of trivia whose head agrees with the text. -/
structure Trivia.Sound (t : Trivia) : Prop where
  kind : t.head.kind.isTrivia = true
  fullWidth : t.head.fullWidth = t.text.utf8ByteSize
  fits : t.head.fullWidth ≤ maxSize
  summary : t.head.summary = (Trivia.kindSummary t.head.kind).union t.head.overlay.summary
  overlay : t.head.overlay.Addressable

/-- What holds of a token whose head agrees with its text and trivia. -/
structure Token.Sound (t : Token) : Prop where
  kind : t.head.kind.isToken = true
  leading : ∀ s ∈ t.leading, s.Sound
  trailing : ∀ s ∈ t.trailing, s.Sound
  leadingWidth : t.leadingWidth = (t.leading.map fun s => s.head.fullWidth).sum
  trailingWidth : t.trailingWidth = (t.trailing.map fun s => s.head.fullWidth).sum
  fullWidth : t.head.fullWidth = t.leadingWidth + t.text.utf8ByteSize + t.trailingWidth
  fits : t.head.fullWidth ≤ maxSize
  summary : t.head.summary =
    (({ missing := t.head.summary.missing } : Summary).union
      (Trivia.inherited (t.leading ++ t.trailing))).union t.head.overlay.summary
  overlay : t.head.overlay.Addressable

/-- What holds of a node whose head agrees with its children. -/
structure Node.Sound (n : Node Element) : Prop where
  kind : n.head.kind.isNode = true
  shape : ∀ c ∈ n.children, c.isTrivia = false
  fullWidth : n.head.fullWidth = (n.children.map Element.fullWidth).sum
  fits : n.head.fullWidth ≤ maxSize
  summary : n.head.summary =
    (({ missing := n.head.summary.missing } : Summary).union
      (Node.inherited n.children)).union n.head.overlay.summary
  overlay : n.head.overlay.Addressable

/-- Every element in a sound one agrees with what it holds. -/
inductive Element.Sound : Element → Prop
  | node {n : Node Element} (own : n.Sound) (parts : ∀ c ∈ n.children, Sound c) :
      Sound (.node n)
  | token {t : Token} (own : t.Sound) : Sound (.token t)
  | trivia {t : Trivia} (own : t.Sound) : Sound (.trivia t)

theorem Element.sound_node_iff {n : Node Element} :
    (Element.node n).Sound ↔ n.Sound ∧ ∀ c ∈ n.children, c.Sound := by
  constructor
  · intro sound
    cases sound with
    | node own parts => exact ⟨own, parts⟩
  · intro sound
    exact .node sound.1 sound.2

theorem Element.sound_token_iff {t : Token} : (Element.token t).Sound ↔ t.Sound := by
  constructor
  · intro sound
    cases sound with
    | token own => exact own
  · exact .token

theorem Element.sound_trivia_iff {t : Trivia} : (Element.trivia t).Sound ↔ t.Sound := by
  constructor
  · intro sound
    cases sound with
    | trivia own => exact own
  · exact .trivia

@[simp] theorem Trivia.inherited_content (trivia : List Trivia) :
    Trivia.inherited (trivia.map Trivia.content) = Trivia.inherited trivia := by
  simp [Trivia.inherited, List.foldl_map, Trivia.content]

@[simp] theorem Node.inherited_content (children : List Element) :
    Node.inherited (children.map Element.content) = Node.inherited children := by
  simp [Node.inherited, List.foldl_map, Element.summary]

@[simp] theorem Summary.union_missing (a b : Summary) :
    (a.union b).missing = (a.missing || b.missing) := rfl

@[simp] theorem Overlay.summary_missing (o : Overlay) : o.summary.missing = false := rfl

@[simp] theorem Trivia.kindSummary_missing (kind : Kind) :
    (Trivia.kindSummary kind).missing = false := by
  unfold Trivia.kindSummary
  split <;> rfl

private theorem foldl_inherit_missing {α : Type} (bits : α → Summary) (parts : List α)
    (start : Summary) :
    (parts.foldl (fun s p => s.union (bits p).toInherit) start).missing = start.missing := by
  induction parts generalizing start with
  | nil => rfl
  | cons p parts ih =>
    rw [List.foldl_cons, ih]
    simp [Summary.toInherit, Summary.inter, Summary.inherited]

@[simp] theorem Trivia.inherited_missing (trivia : List Trivia) :
    (Trivia.inherited trivia).missing = false :=
  foldl_inherit_missing (fun t : Trivia => t.head.summary) trivia .empty

@[simp] theorem Node.inherited_missing (children : List Element) :
    (Node.inherited children).missing = false :=
  foldl_inherit_missing Element.summary children .empty

theorem Trivia.eq_of_make {cell : Nat} {kind : Kind} {text : String} {overlay : Overlay}
    {t : Trivia} (made : make cell kind text overlay = .ok t) :
    ∃ width, t = ⟨cell, .make kind (kindSummary kind) width overlay, text⟩ := by
  unfold make at made
  split at made
  · obtain ⟨width, -, built⟩ := bind_eq_ok_iff.1 made
    exact ⟨width, (Except.ok.inj built).symm⟩
  · cases made

theorem Token.eq_of_make {cell : Nat} {kind : Kind} {missing : Bool} {text : String}
    {leading trailing : List Trivia} {overlay : Overlay} {t : Token}
    (made : make cell kind missing text leading trailing overlay = .ok t) :
    ∃ width before behind, t = ⟨cell, .make kind
      (({ missing } : Summary).union (Trivia.inherited (leading ++ trailing))) width overlay, text,
      leading, trailing, before, behind⟩ := by
  rw [make, ofParts, Summary.inter_intrinsic] at made
  split at made
  · obtain ⟨before, -, made⟩ := bind_eq_ok_iff.1 made
    obtain ⟨behind, -, made⟩ := bind_eq_ok_iff.1 made
    obtain ⟨own, -, made⟩ := bind_eq_ok_iff.1 made
    obtain ⟨upToText, -, made⟩ := bind_eq_ok_iff.1 made
    obtain ⟨width, -, built⟩ := bind_eq_ok_iff.1 made
    exact ⟨width, before, behind, (Except.ok.inj built).symm⟩
  · cases made

theorem Node.eq_of_make {cell : Nat} {kind : Kind} {missing : Bool} {children : List Element}
    {overlay : Overlay} {n : Node Element}
    (made : make cell kind missing children overlay = .ok n) : ∃ width, n = ⟨cell,
      .make kind (({ missing } : Summary).union (Node.inherited children)) width overlay,
      children⟩ := by
  rw [make, ofParts, Summary.inter_intrinsic] at made
  split at made
  · split at made
    · cases made
    · obtain ⟨width, -, built⟩ := bind_eq_ok_iff.1 made
      exact ⟨width, (Except.ok.inj built).symm⟩
  · cases made

theorem fitting_eq_error_iff {kind : Kind} {sum : Option Nat} {cause : Fault} :
    fitting kind sum = .error cause ↔ sum = none ∧ cause = .tooWide kind := by
  cases sum <;> simp [fitting, eq_comm]

theorem textSize_eq_error_iff {text : String} {cause : Fault} :
    textSize text = .error cause ↔ maxSize < text.utf8ByteSize ∧ cause = .textTooLong := by
  unfold textSize
  split
  · rename_i fits
    simp [Nat.not_lt.2 fits]
  · rename_i long
    simp [Nat.not_le.1 long, eq_comm]

theorem Trivia.cause_of_make {cell : Nat} {kind : Kind} {text : String} {overlay : Overlay}
    {cause : Fault} (refused : make cell kind text overlay = .error cause) :
    (kind.isTrivia = false ∧ cause = .notTrivia kind) ∨
      (kind.isTrivia = true ∧ maxSize < text.utf8ByteSize ∧ cause = .textTooLong) := by
  unfold make at refused
  split at refused
  · rename_i isTrivia
    rcases bind_eq_error_iff.1 refused with unmeasured | ⟨width, -, built⟩
    · exact .inr ⟨isTrivia, textSize_eq_error_iff.1 unmeasured⟩
    · cases built
  · rename_i other
    exact .inl ⟨eq_false_of_ne_true other, (Except.error.inj refused).symm⟩

theorem Token.cause_of_make {cell : Nat} {kind : Kind} {missing : Bool} {text : String}
    {leading trailing : List Trivia} {overlay : Overlay} {cause : Fault}
    (refused : make cell kind missing text leading trailing overlay = .error cause) :
    (kind.isToken = false ∧ cause = .notToken kind) ∨
      (maxSize < text.utf8ByteSize ∧ cause = .textTooLong) ∨ cause = .tooWide kind := by
  rw [make, ofParts, Summary.inter_intrinsic] at refused
  split at refused
  · rcases bind_eq_error_iff.1 refused with wide | ⟨before, -, refused⟩
    · exact .inr (.inr (fitting_eq_error_iff.1 wide).2)
    rcases bind_eq_error_iff.1 refused with wide | ⟨behind, -, refused⟩
    · exact .inr (.inr (fitting_eq_error_iff.1 wide).2)
    rcases bind_eq_error_iff.1 refused with unmeasured | ⟨own, -, refused⟩
    · exact .inr (.inl (textSize_eq_error_iff.1 unmeasured))
    rcases bind_eq_error_iff.1 refused with wide | ⟨upToText, -, refused⟩
    · exact .inr (.inr (fitting_eq_error_iff.1 wide).2)
    rcases bind_eq_error_iff.1 refused with wide | ⟨width, -, built⟩
    · exact .inr (.inr (fitting_eq_error_iff.1 wide).2)
    · cases built
  · rename_i other
    exact .inl ⟨eq_false_of_ne_true other, (Except.error.inj refused).symm⟩

theorem Node.cause_of_make {cell : Nat} {kind : Kind} {missing : Bool} {children : List Element}
    {overlay : Overlay} {cause : Fault}
    (refused : make cell kind missing children overlay = .error cause) :
    (kind.isNode = false ∧ cause = .notNode kind) ∨
      ((∃ c ∈ children, c.isTrivia = true) ∧ cause = .triviaChild kind) ∨
      cause = .tooWide kind := by
  rw [make, ofParts, Summary.inter_intrinsic] at refused
  split at refused
  · split at refused
    · rename_i inside
      exact .inr (.inl ⟨List.any_eq_true.1 inside, (Except.error.inj refused).symm⟩)
    · rcases bind_eq_error_iff.1 refused with wide | ⟨width, -, built⟩
      · exact .inr (.inr (fitting_eq_error_iff.1 wide).2)
      · cases built
  · rename_i other
    exact .inl ⟨eq_false_of_ne_true other, (Except.error.inj refused).symm⟩

theorem Trivia.make_ne_error {cell : Nat} {kind : Kind} {text : String} {overlay : Overlay}
    (isTrivia : kind.isTrivia = true) (fits : text.utf8ByteSize ≤ maxSize) (cause : Fault) :
    make cell kind text overlay ≠ .error cause := by
  intro refused
  rcases cause_of_make refused with ⟨other, -⟩ | ⟨-, long, -⟩
  · simp [isTrivia] at other
  · omega

theorem Token.eq_tooWide_of_make {cell : Nat} {kind : Kind} {missing : Bool} {text : String}
    {leading trailing : List Trivia} {overlay : Overlay} {cause : Fault}
    (isToken : kind.isToken = true) (fits : text.utf8ByteSize ≤ maxSize)
    (refused : make cell kind missing text leading trailing overlay = .error cause) :
    cause = .tooWide kind := by
  rcases cause_of_make refused with ⟨other, -⟩ | ⟨long, -⟩ | wide
  · simp [isToken] at other
  · omega
  · exact wide

theorem Node.eq_tooWide_of_make {cell : Nat} {kind : Kind} {missing : Bool}
    {children : List Element} {overlay : Overlay} {cause : Fault} (isNode : kind.isNode = true)
    (shape : ∀ c ∈ children, c.isTrivia = false)
    (refused : make cell kind missing children overlay = .error cause) : cause = .tooWide kind := by
  rcases cause_of_make refused with ⟨other, -⟩ | ⟨⟨c, inside, isTrivia⟩, -⟩ | wide
  · simp [isNode] at other
  · simp [shape c inside] at isTrivia
  · exact wide

theorem Trivia.make_eq_ok (cell : Nat) {kind : Kind} {text : String} (overlay : Overlay)
    (isTrivia : kind.isTrivia = true) (fits : text.utf8ByteSize ≤ maxSize) :
    make cell kind text overlay =
      .ok ⟨cell, .make kind (kindSummary kind) text.utf8ByteSize overlay, text⟩ := by
  unfold make
  rw [if_pos isTrivia, textSize_eq_ok_iff.2 ⟨rfl, fits⟩]
  rfl

theorem Token.make_eq_ok (cell : Nat) {kind : Kind} (missing : Bool) {text : String}
    {leading trailing : List Trivia} (overlay : Overlay) (isToken : kind.isToken = true)
    {before behind width : Nat}
    (leadingWidth : before = (leading.map fun s => s.head.fullWidth).sum)
    (trailingWidth : behind = (trailing.map fun s => s.head.fullWidth).sum)
    (fullWidth : width = before + text.utf8ByteSize + behind) (fits : width ≤ maxSize) :
    make cell kind missing text leading trailing overlay = .ok ⟨cell, .make kind
      (({ missing } : Summary).union (Trivia.inherited (leading ++ trailing))) width overlay, text,
      leading, trailing, before, behind⟩ := by
  have first : Trivia.totalWidth? leading = some before :=
    sumSizes?_eq_some_iff.2 ⟨leadingWidth, by omega⟩
  have last : Trivia.totalWidth? trailing = some behind :=
    sumSizes?_eq_some_iff.2 ⟨trailingWidth, by omega⟩
  have own : textSize text = .ok text.utf8ByteSize := textSize_eq_ok_iff.2 ⟨rfl, by omega⟩
  have upToText : addSize? before text.utf8ByteSize = some (before + text.utf8ByteSize) :=
    addSize?_eq_some_iff.2 ⟨rfl, by omega⟩
  have all : addSize? (before + text.utf8ByteSize) behind = some width :=
    addSize?_eq_some_iff.2 ⟨fullWidth, by omega⟩
  rw [make, ofParts, Summary.inter_intrinsic]
  rw [if_pos isToken, first, last, own]
  simp only [fitting, upToText, all, bind, Except.bind, pure, Except.pure]

/-- Children under a kind of node, as it is made if their widths add up to a size. -/
theorem Node.make_eq_ok (cell : Nat) {kind : Kind} (missing : Bool) {children : List Element}
    (overlay : Overlay) (isNode : kind.isNode = true)
    (shape : ∀ c ∈ children, c.isTrivia = false) {width : Nat}
    (fullWidth : width = (children.map Element.fullWidth).sum) (fits : width ≤ maxSize) :
    make cell kind missing children overlay = .ok ⟨cell,
      .make kind (({ missing } : Summary).union (Node.inherited children)) width overlay,
      children⟩ := by
  have total : totalWidth? children = some width :=
    sumSizes?_eq_some_iff.2 ⟨fullWidth, by omega⟩
  have noTrivia : ¬children.any Element.isTrivia = true := by simpa using shape
  rw [make, ofParts, Summary.inter_intrinsic]
  rw [if_pos isNode, if_neg noTrivia, total]
  rfl

theorem Node.make_eq_triviaChild (cell : Nat) {kind : Kind} (missing : Bool)
    {children : List Element} (overlay : Overlay) (isNode : kind.isNode = true) {c : Element}
    (inside : c ∈ children) (isTrivia : c.isTrivia = true) :
    make cell kind missing children overlay = .error (.triviaChild kind) := by
  rw [make, ofParts, Summary.inter_intrinsic]
  rw [if_pos isNode, if_pos (List.any_eq_true.2 ⟨c, inside, isTrivia⟩)]

theorem Trivia.make_eq_ok_iff {cell : Nat} {kind : Kind} {text : String} {overlay : Overlay}
    (small : overlay.Addressable) {t : Trivia} :
    Trivia.make cell kind text overlay = .ok t ↔
      t.Sound ∧ t.cell = cell ∧ t.blueprint = ⟨kind, text, overlay⟩ := by
  constructor
  · intro made
    unfold Trivia.make at made
    split at made
    · rename_i isTrivia
      obtain ⟨width, measured, built⟩ := bind_eq_ok_iff.1 made
      obtain ⟨rfl, fits⟩ := textSize_eq_ok_iff.1 measured
      obtain rfl := Except.ok.inj built
      exact ⟨⟨isTrivia, rfl, fits, rfl, small⟩, rfl, rfl⟩
    · simp at made
  · rintro ⟨sound, rfl, same⟩
    obtain ⟨cell, ⟨kind, summary, width, overlay⟩, text⟩ := t
    obtain ⟨isTrivia, fullWidth, fits, bits, -⟩ := sound
    simp only at isTrivia fullWidth fits bits
    simp only [Trivia.blueprint, TriviaBlueprint.mk.injEq] at same
    obtain ⟨rfl, rfl, rfl⟩ := same
    subst fullWidth bits
    exact make_eq_ok cell overlay isTrivia fits

theorem Token.make_eq_ok_iff {cell : Nat} {kind : Kind} {missing : Bool} {text : String}
    {leading trailing : List Trivia} {overlay : Overlay} (small : overlay.Addressable)
    (soundLeading : ∀ s ∈ leading, s.Sound)
    (soundTrailing : ∀ s ∈ trailing, s.Sound) {t : Token} :
    Token.make cell kind missing text leading trailing overlay = .ok t ↔
      t.Sound ∧ t.cell = cell ∧ t.head.kind = kind ∧ t.head.summary.missing = missing ∧
        t.text = text ∧ t.leading = leading ∧ t.trailing = trailing ∧
        t.head.overlay = overlay := by
  constructor
  · intro made
    rw [make, ofParts, Summary.inter_intrinsic] at made
    split at made
    · rename_i isToken
      obtain ⟨before, summed, made⟩ := bind_eq_ok_iff.1 made
      obtain ⟨rfl, -⟩ := sumSizes?_eq_some_iff.1 (fitting_eq_ok_iff.1 summed)
      obtain ⟨behind, summed, made⟩ := bind_eq_ok_iff.1 made
      obtain ⟨rfl, -⟩ := sumSizes?_eq_some_iff.1 (fitting_eq_ok_iff.1 summed)
      obtain ⟨own, measured, made⟩ := bind_eq_ok_iff.1 made
      obtain ⟨rfl, -⟩ := textSize_eq_ok_iff.1 measured
      obtain ⟨upToText, summed, made⟩ := bind_eq_ok_iff.1 made
      obtain ⟨rfl, -⟩ := addSize?_eq_some_iff.1 (fitting_eq_ok_iff.1 summed)
      obtain ⟨width, summed, made⟩ := bind_eq_ok_iff.1 made
      obtain ⟨rfl, fits⟩ := addSize?_eq_some_iff.1 (fitting_eq_ok_iff.1 summed)
      obtain rfl := Except.ok.inj made
      refine ⟨⟨isToken, soundLeading, soundTrailing, rfl, rfl, rfl, fits, ?_, small⟩, rfl,
        rfl, ?_, rfl, rfl, rfl, rfl⟩
      · simp [Head.make]
      · simp [Head.make]
    · simp at made
  · rintro ⟨sound, rfl, rfl, rfl, rfl, rfl, rfl, rfl⟩
    obtain ⟨cell, ⟨kind, summary, width, overlay⟩, text, leading, trailing,
      before, behind⟩ := t
    obtain ⟨isToken, -, -, leadingWidth, trailingWidth, fullWidth, fits, bits, -⟩ := sound
    simp only at isToken leadingWidth trailingWidth fullWidth fits bits
    have made :=
      make_eq_ok cell summary.missing overlay isToken leadingWidth trailingWidth fullWidth fits
    rwa [Head.make, ← bits] at made

theorem Node.make_eq_ok_iff {cell : Nat} {kind : Kind} {missing : Bool} {children : List Element}
    {overlay : Overlay} (small : overlay.Addressable) {n : Node Element} :
    Node.make cell kind missing children overlay = .ok n ↔
      n.Sound ∧ n.cell = cell ∧ n.head.kind = kind ∧ n.head.summary.missing = missing ∧
        n.children = children ∧ n.head.overlay = overlay := by
  constructor
  · intro made
    rw [make, ofParts, Summary.inter_intrinsic] at made
    split at made
    · rename_i isNode
      split at made
      · simp at made
      · rename_i shape
        obtain ⟨width, summed, made⟩ := bind_eq_ok_iff.1 made
        obtain ⟨rfl, fits⟩ := sumSizes?_eq_some_iff.1 (fitting_eq_ok_iff.1 summed)
        obtain rfl := Except.ok.inj made
        refine ⟨⟨isNode, by simpa using shape, rfl, fits, ?_, small⟩, rfl,
          rfl, ?_, rfl, rfl⟩
        · simp [Head.make]
        · simp [Head.make]
    · simp at made
  · rintro ⟨sound, rfl, rfl, rfl, rfl, rfl⟩
    obtain ⟨cell, ⟨kind, summary, width, overlay⟩, children⟩ := n
    obtain ⟨isNode, shape, fullWidth, fits, bits, -⟩ := sound
    simp only at isNode shape fullWidth fits bits
    have made := make_eq_ok cell summary.missing overlay isNode shape fullWidth fits
    rwa [Head.make, ← bits] at made

namespace Element

theorem Sound.overlay {e : Element} (sound : e.Sound) : e.overlay.Addressable := by
  cases sound with
  | node own _ => exact own.overlay
  | token own => exact own.overlay
  | trivia own => exact own.overlay

theorem Sound.fits {e : Element} (sound : e.Sound) : e.fullWidth ≤ maxSize := by
  cases sound with
  | node own _ => exact own.fits
  | token own => exact own.fits
  | trivia own => exact own.fits

theorem Sound.withOverlay {e e' : Element} (sound : e.Sound) {cell : Nat} {overlay : Overlay}
    (small : overlay.Addressable) (made : e.withOverlay cell overlay = .ok e') : e'.Sound := by
  cases sound with
  | @node n own parts =>
    obtain ⟨n', built, rfl⟩ := map_eq_ok_iff.1 made
    rw [Node.withOverlay_eq_make] at built
    obtain ⟨own', -, -, -, same, -⟩ := (Node.make_eq_ok_iff small).1 built
    exact .node own' (same ▸ parts)
  | @token t own =>
    obtain ⟨t', built, rfl⟩ := map_eq_ok_iff.1 made
    rw [Token.withOverlay_eq_make] at built
    exact .token ((Token.make_eq_ok_iff small own.leading own.trailing).1 built).1
  | @trivia t own =>
    obtain ⟨t', built, rfl⟩ := map_eq_ok_iff.1 made
    exact .trivia ((Trivia.make_eq_ok_iff small).1 built).1

theorem Sound.withDiagnostics {e e' : Element} (sound : e.Sound) {cell : Nat}
    {diagnostics : List Diagnostic} (small : Overlay.Addressable { diagnostics })
    (made : e.withDiagnostics cell diagnostics = .ok e') : e'.Sound :=
  sound.withOverlay (sound.overlay.withDiagnostics small) made

theorem Sound.withAnnotations {e e' : Element} (sound : e.Sound) {cell : Nat}
    {annotations : List Annotation} (small : Overlay.Addressable { annotations })
    (made : e.withAnnotations cell annotations = .ok e') : e'.Sound :=
  sound.withOverlay (sound.overlay.withAnnotations small) made

theorem Sound.replaceChild {n n' : Node Element} (sound : (Element.node n).Sound) {cell index : Nat}
    {child : Element} (soundChild : child.Sound) (made : n.replaceChild cell index child = .ok n') :
    (Element.node n').Sound := by
  obtain ⟨own, parts⟩ := sound_node_iff.1 sound
  rw [Node.replaceChild_eq_make] at made
  split at made
  · obtain ⟨own', -, -, -, same, -⟩ := (Node.make_eq_ok_iff own.overlay).1 made
    exact .node own' (same ▸ forall_mem_set parts soundChild index)
  · cases made

end Element

end GreenTree
