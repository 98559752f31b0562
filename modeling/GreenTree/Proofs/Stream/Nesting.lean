import GreenTree.Proofs.Making
import GreenTree.Proofs.Stream.Grammar

/-!
The grammar of records as a reader goes through it: the header, and the contents behind it, with the
number of levels that records in them may still nest. Kinds decide what may stand where, and texts
that are spelled out fit in memory.
-/

namespace GreenTree

theorem Limits.maxStringLength_le (limits : Limits) : limits.maxStringLength.toNat ≤ maxSize := by
  have := limits.maxStringLength.toNat_lt
  simp only [maxSize, UInt32.size]
  omega

theorem Limits.lt_maxSize (limits : Limits) {depth : Nat} (room : depth < limits.maxDepth.toNat) :
    depth < maxSize := by
  have := limits.maxDepth.toNat_lt
  simp only [maxSize, UInt32.size]
  omega

theorem KindSet.contains_all (k : Kind) : all.contains k = true := by
  cases k <;> decide

theorem KindSet.contains_children (k : Kind) :
    children.contains k = (k.isToken || k.isNode) := by
  simp [children, Kind.isToken, Kind.isNode]

namespace Kind

theorem class_cases (k : Kind) :
    (k.isTrivia = true ∧ k.isToken = false ∧ k.isNode = false) ∨
    (k.isTrivia = false ∧ k.isToken = true ∧ k.isNode = false) ∨
    (k.isTrivia = false ∧ k.isToken = false ∧ k.isNode = true) := by
  cases k <;> decide

theorem isToken_of_isTrivia {k : Kind} (h : k.isTrivia = true) : k.isToken = false := by
  rcases k.class_cases with ⟨-, apart, -⟩ | ⟨other, -, -⟩ | ⟨other, -, -⟩ <;> simp_all

theorem isTrivia_of_isToken {k : Kind} (h : k.isToken = true) : k.isTrivia = false := by
  rcases k.class_cases with ⟨-, other, -⟩ | ⟨apart, -, -⟩ | ⟨apart, -, -⟩ <;> simp_all

theorem isTrivia_of_isNode {k : Kind} (h : k.isNode = true) : k.isTrivia = false := by
  rcases k.class_cases with ⟨-, -, other⟩ | ⟨apart, -, -⟩ | ⟨apart, -, -⟩ <;> simp_all

theorem isNode_of_isTrivia {k : Kind} (h : k.isTrivia = true) : k.isNode = false := by
  rcases k.class_cases with ⟨-, -, apart⟩ | ⟨other, -, -⟩ | ⟨other, -, -⟩ <;> simp_all

theorem isNode_of_isToken {k : Kind} (h : k.isToken = true) : k.isNode = false := by
  rcases k.class_cases with ⟨-, other, -⟩ | ⟨-, -, apart⟩ | ⟨-, other, -⟩ <;> simp_all

theorem isToken_of_isNode {k : Kind} (h : k.isNode = true) : k.isToken = false := by
  rcases k.class_cases with ⟨-, other, -⟩ | ⟨-, -, apart⟩ | ⟨-, other, -⟩ <;> simp_all

theorem isTrivia_of_contains_children {k : Kind} (h : KindSet.children.contains k = true) :
    k.isTrivia = false := by
  rw [KindSet.contains_children, Bool.or_eq_true] at h
  cases h with
  | inl isToken => exact isTrivia_of_isToken isToken
  | inr isNode => exact isTrivia_of_isNode isNode

end Kind

namespace RecordReader

variable {k : Kind}

theorem standard_of_isTrivia (h : k.isTrivia = true) : standard k = .trivia := by
  rw [standard, if_pos h]

theorem standard_of_isToken (h : k.isToken = true) : standard k = .token := by
  rw [standard, Kind.isTrivia_of_isToken h, if_neg Bool.false_ne_true, if_pos h]

theorem standard_of_isNode (h : k.isNode = true) : standard k = .node := by
  rw [standard, Kind.isTrivia_of_isNode h, if_neg Bool.false_ne_true, Kind.isToken_of_isNode h,
    if_neg Bool.false_ne_true]

end RecordReader

namespace OverlayBlock

theorem ListSpelling.spelled {α : Type} {member : α → List UInt8 → Prop} {as : List α}
    {p : List UInt8} (spelling : ListSpelling member as p) {a : α} (h : a ∈ as) :
    ∃ q, member a q := by
  obtain ⟨-, parts⟩ := spelling
  induction parts with
  | nil => cases h
  | @cons b q as parts head _ ih =>
    rcases List.mem_cons.1 h with rfl | h
    · exact ⟨q, head⟩
    · exact ih h

theorem TextSpelling.lt {text : String} {p : List UInt8} (spelling : TextSpelling text p) :
    text.utf8ByteSize < addressLimit := by
  obtain ⟨-, small⟩ := spelling
  exact small

theorem OptionSpelling.lt {option : Option String} {p : List UInt8}
    (spelling : OptionSpelling option p) {text : String} (h : text ∈ option.toList) :
    text.utf8ByteSize < addressLimit := by
  cases spelling with
  | absent => cases h
  | present spelled =>
    obtain rfl := List.mem_singleton.1 h
    exact spelled.lt

theorem DiagnosticSpelling.lt {d : Diagnostic} {p : List UInt8} (spelling : DiagnosticSpelling d p)
    {text : String} (h : text ∈ d.arguments) : text.utf8ByteSize < addressLimit := by
  obtain ⟨-, -, -, -, arguments⟩ := spelling
  obtain ⟨q, spelled⟩ := arguments.spelled h
  exact spelled.lt

theorem AnnotationSpelling.lt {a : Annotation} {p : List UInt8} (spelling : AnnotationSpelling a p)
    {text : String} (h : text ∈ a.kind.toList ++ a.data.toList) :
    text.utf8ByteSize < addressLimit := by
  obtain ⟨-, kind, data⟩ := spelling
  rcases List.mem_append.1 h with h | h
  · exact kind.lt h
  · exact data.lt h

end OverlayBlock

namespace Grammar

variable {limits : Limits}

theorem Attached.spelled {α : Type} {member : α → List UInt8 → Prop} {as : List α}
    {p : List UInt8} (attached : Attached limits member as p) {a : α} (h : a ∈ as) :
    ∃ q, member a q := by
  cases attached with
  | absent => cases h
  | present spelling => exact spelling.spelled h

theorem Attached.addressable {o : Overlay} {p q : List UInt8}
    (diagnostics : Attached limits OverlayBlock.DiagnosticSpelling o.diagnostics p)
    (annotations : Attached limits OverlayBlock.AnnotationSpelling o.annotations q) :
    o.Addressable := by
  intro text h
  rcases List.mem_append.1 h with h | h
  · obtain ⟨d, hd, h⟩ := List.mem_flatMap.1 h
    obtain ⟨_, spelled⟩ := diagnostics.spelled hd
    exact spelled.lt h
  · obtain ⟨a, ha, h⟩ := List.mem_flatMap.1 h
    obtain ⟨_, spelled⟩ := annotations.spelled ha
    exact spelled.lt h

theorem many_and_iff {α : Type} {phrase : Phrase α} {keep : α → Prop}
    {texts texts' : List String} {p : List UInt8} {as : List α} :
    Many (fun texts p a texts' => phrase texts p a texts' ∧ keep a) texts p as texts' ↔
      Many phrase texts p as texts' ∧ ∀ a ∈ as, keep a := by
  constructor
  · intro many
    induction many with
    | nil => exact ⟨.nil, by simp⟩
    | cons head _ ih => exact ⟨.cons head.1 ih.1, List.forall_mem_cons.2 ⟨head.2, ih.2⟩⟩
  · rintro ⟨many, kept⟩
    induction many with
    | nil => exact .nil
    | cons head _ ih =>
      obtain ⟨first, others⟩ := List.forall_mem_cons.1 kept
      exact .cons ⟨head, first⟩ (ih others)

theorem counted_and_iff {α : Type} {phrase : Phrase α} {keep : α → Prop}
    {texts texts' : List String} {p : List UInt8} {as : List α} :
    Counted (fun texts p a texts' => phrase texts p a texts' ∧ keep a) texts p as texts' ↔
      Counted phrase texts p as texts' ∧ ∀ a ∈ as, keep a := by
  constructor
  · rintro ⟨small, many⟩
    obtain ⟨many, kept⟩ := many_and_iff.1 many
    exact ⟨.mk small many, kept⟩
  · rintro ⟨⟨small, many⟩, kept⟩
    exact .mk small (many_and_iff.2 ⟨many, kept⟩)

theorem Counted.forall_mem {α : Type} {phrase : Phrase α} {keep : α → Prop}
    {texts texts' : List String} {p : List UInt8} {as : List α}
    (counted : Counted phrase texts p as texts')
    (each : ∀ texts p a texts', phrase texts p a texts' → keep a) : ∀ a ∈ as, keep a := by
  obtain ⟨-, many⟩ := counted
  have kept : Many (fun texts p a texts' => phrase texts p a texts' ∧ keep a) texts _ as texts' :=
    many.mono fun _ _ _ _ head => ⟨head, each _ _ _ _ head⟩
  exact (many_and_iff.1 kept).2

theorem Record.contains_children_iff {texts texts' : List String} {p : List UInt8} {d : Blueprint}
    (record : Record limits texts p d texts') :
    KindSet.children.contains d.kind = true ↔ d.isTrivia = false := by
  rw [KindSet.contains_children]
  cases record with
  | trivia record =>
    obtain ⟨isTrivia, -, -, -⟩ := record
    simp [Blueprint.kind, Blueprint.isTrivia, Kind.isToken_of_isTrivia isTrivia,
      Kind.isNode_of_isTrivia isTrivia]
  | token isToken => simp [Blueprint.kind, Blueprint.isTrivia, isToken]
  | node isNode => simp [Blueprint.kind, Blueprint.isTrivia, isNode]

/-- A record of an allowed kind in which records nest no deeper than a number of levels. -/
def Within (limits : Limits) (levels : Nat) (allowed : KindSet) : Phrase Blueprint :=
  fun texts p d texts' =>
    Record limits texts p d texts' ∧ d.height ≤ levels ∧ allowed.contains d.kind = true

/-- What stands behind the header of a record, in which records nest no deeper than a number of
levels. -/
inductive Contents (limits : Limits) (levels : Nat) (h : RecordHeader) : Phrase Blueprint
  | trivia {texts texts' : List String} {p : List UInt8} {text : String} :
      h.kind.isTrivia = true → Text limits texts p text texts' →
      text.utf8ByteSize ≤ maxSize →
      Contents limits levels h texts p (.trivia ⟨h.kind, text, h.overlay⟩) texts'
  | token {texts₀ texts₁ texts₂ texts₃ : List String} {p q r : List UInt8} {text : String}
      {leading trailing : List TriviaBlueprint} :
      h.kind.isToken = true → Text limits texts₀ p text texts₁ →
      Counted (TriviaRecord limits) texts₁ q leading texts₂ →
      Counted (TriviaRecord limits) texts₂ r trailing texts₃ →
      (Blueprint.token h.kind h.summary.missing text leading trailing h.overlay).width ≤
        maxSize →
      (Blueprint.token h.kind h.summary.missing text leading trailing h.overlay).height ≤
        levels + 1 →
      Contents limits levels h texts₀ (p ++ (q ++ r))
        (.token h.kind h.summary.missing text leading trailing h.overlay) texts₃
  | node {texts texts' : List String} {p : List UInt8} {children : List Blueprint} :
      h.kind.isNode = true → Counted (Within limits levels .children) texts p children texts' →
      (Blueprint.node h.kind h.summary.missing children h.overlay).width ≤ maxSize →
      Contents limits levels h texts p (.node h.kind h.summary.missing children h.overlay) texts'

/-- The header of a record as it is read, with all the bits that it has. -/
inductive Heading (limits : Limits) : RecordHeader → List UInt8 → Prop
  | mk {kind : Kind} {word : Nat} {overlay : Overlay} {diagnostics annotations : List UInt8} :
      word < Bytes.capacity 2 →
      Attached limits OverlayBlock.DiagnosticSpelling overlay.diagnostics diagnostics →
      Attached limits OverlayBlock.AnnotationSpelling overlay.annotations annotations →
      Heading limits ⟨kind, .ofBitsTruncate word, overlay⟩ (Bytes.littleEndian 2 kind.tag ++
        (Bytes.littleEndian 2 word ++ (diagnostics ++ annotations)))

theorem Heading.header {h : RecordHeader} {p : List UInt8} (heading : Heading limits h p) :
    Header limits h.kind h.summary.missing h.overlay p := by
  obtain ⟨few, diagnostics, annotations⟩ := heading
  exact .mk few diagnostics annotations

theorem Header.exists_heading {kind : Kind} {missing : Bool} {overlay : Overlay} {p : List UInt8}
    (header : Header limits kind missing overlay p) :
    ∃ summary : Summary,
      summary.missing = missing ∧ Heading limits ⟨kind, summary, overlay⟩ p := by
  obtain ⟨few, diagnostics, annotations⟩ := header
  exact ⟨_, rfl, .mk few diagnostics annotations⟩

theorem Heading.addressable {h : RecordHeader} {p : List UInt8} (heading : Heading limits h p) :
    h.overlay.Addressable := by
  obtain ⟨-, diagnostics, annotations⟩ := heading
  exact Attached.addressable diagnostics annotations

theorem many_children_iff {levels : Nat} {texts texts' : List String} {p : List UInt8}
    {ds : List Blueprint} : Many (Within limits levels .children) texts p ds texts' ↔
      Many (Record limits) texts p ds texts' ∧
        (∀ d ∈ ds, d.height ≤ levels) ∧ ∀ d ∈ ds, d.isTrivia = false := by
  constructor
  · intro many
    have kept : Many (fun texts p d texts' => Record limits texts p d texts' ∧
        d.height ≤ levels ∧ d.isTrivia = false) texts p ds texts' :=
      many.mono fun _ _ _ _ h => ⟨h.1, h.2.1, h.1.contains_children_iff.1 h.2.2⟩
    obtain ⟨records, both⟩ := many_and_iff.1 kept
    exact ⟨records, fun d hd => (both d hd).1, fun d hd => (both d hd).2⟩
  · rintro ⟨records, low, shape⟩
    have kept := many_and_iff.2 ⟨records, fun d hd => And.intro (low d hd) (shape d hd)⟩
    exact kept.mono fun _ _ _ _ h => ⟨h.1, h.2.1, h.1.contains_children_iff.2 h.2.2⟩

theorem within_succ_iff {levels : Nat} {allowed : KindSet} {texts texts' : List String}
    {p : List UInt8} {d : Blueprint} :
    Within limits (levels + 1) allowed texts p d texts' ↔ ∃ h q r,
      allowed.contains h.kind = true ∧ Heading limits h q ∧
        Contents limits levels h texts r d texts' ∧ p = q ++ r := by
  constructor
  · rintro ⟨record, height, hallowed⟩
    cases record with
    | trivia record =>
      obtain ⟨isTrivia, header, spelled, fits⟩ := record
      obtain ⟨summary, -, heading⟩ := header.exists_heading
      exact ⟨_, _, _, hallowed, heading, .trivia isTrivia spelled fits, rfl⟩
    | token isToken header spelled leading trailing fits =>
      obtain ⟨summary, rfl, heading⟩ := header.exists_heading
      exact ⟨_, _, _, hallowed, heading,
        .token isToken spelled leading trailing fits height, rfl⟩
    | @node _ _ _ _ _ _ children _ isNode header shape count many fits =>
      obtain ⟨summary, rfl, heading⟩ := header.exists_heading
      have low : ∀ c ∈ children, c.height ≤ levels := by
        simp only [Blueprint.height] at height
        exact Blueprint.heights_le_iff.1 (by omega)
      have counted : Counted (Within limits levels .children) _ _ children _ :=
        .mk count (many_children_iff.2 ⟨many, low, shape⟩)
      exact ⟨_, _, _, hallowed, heading, .node isNode counted fits, rfl⟩
  · rintro ⟨h, q, r, hallowed, heading, contents, rfl⟩
    have header := heading.header
    cases contents with
    | trivia isTrivia spelled fits =>
      exact ⟨.trivia (.mk isTrivia header spelled fits), Nat.le_add_left 1 levels, hallowed⟩
    | token isToken spelled leading trailing fits height =>
      exact ⟨.token isToken header spelled leading trailing fits, height, hallowed⟩
    | node isNode counted fits =>
      obtain ⟨count, many⟩ := counted
      obtain ⟨many, low, shape⟩ := many_children_iff.1 many
      have height := Blueprint.heights_le_iff.2 low
      refine ⟨.node isNode header shape count many fits, ?_, hallowed⟩
      simp only [Blueprint.height]
      omega

end Grammar

end GreenTree
