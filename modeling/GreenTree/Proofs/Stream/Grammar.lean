import GreenTree.Proofs.Blueprint
import GreenTree.Proofs.Stream.OverlayGrammar
import GreenTree.Stream.Tree

/-!
The grammar of streams: which bytes stand for which blueprint under given limits. A phrase stands
behind the texts that were spelled out before it, since references name them by number, and leads to
the texts that can be referred to behind it.
-/

namespace GreenTree.Grammar

/-- What can stand in a stream: the texts before it, its bytes, its meaning, and the texts behind
it. -/
abbrev Phrase (α : Type) := List String → List UInt8 → α → List String → Prop

/-- A text that is spelled out, or the number of one that was. -/
inductive Text (limits : Limits) : Phrase String
  | inline {texts : List String} {text : String} :
      text.utf8ByteSize ≤ limits.maxStringLength.toNat →
      Text limits texts (0 :: (Bytes.littleEndian 4 text.utf8ByteSize ++ Utf8.encode text)) text
        (texts ++ [text])
  | reference {texts : List String} {index : Nat} {text : String} :
      index < Bytes.capacity 4 → texts[index]? = some text →
      Text limits texts (1 :: Bytes.littleEndian 4 index) text texts

/-- Half of an overlay: absent, or a block within the limit. A block may be empty. -/
inductive Attached {α : Type} (limits : Limits) (member : α → List UInt8 → Prop) :
    List α → List UInt8 → Prop
  | absent : Attached limits member [] [0]
  | present {members : List α} {block : List UInt8} :
      OverlayBlock.ListSpelling member members block →
      block.length ≤ limits.maxOverlayBytes.toNat → Attached limits member members (1 :: block)

/-- What every record begins with: the tag of a kind, any word of bits, of which the lowest says
whether the element is missing, and both halves of the overlay. -/
inductive Header (limits : Limits) (kind : Kind) : Bool → Overlay → List UInt8 → Prop
  | mk {word : Nat} {overlay : Overlay} {diagnostics annotations : List UInt8} :
      word < Bytes.capacity 2 →
      Attached limits OverlayBlock.DiagnosticSpelling overlay.diagnostics diagnostics →
      Attached limits OverlayBlock.AnnotationSpelling overlay.annotations annotations →
      Header limits kind (word.testBit 0) overlay
        (Bytes.littleEndian 2 kind.tag ++
          (Bytes.littleEndian 2 word ++ (diagnostics ++ annotations)))

/-- Phrases one behind the other. -/
inductive Many {α : Type} (phrase : Phrase α) : Phrase (List α)
  | nil {texts : List String} : Many phrase texts [] [] texts
  | cons {texts texts' texts'' : List String} {p q : List UInt8} {a : α} {as : List α} :
      phrase texts p a texts' → Many phrase texts' q as texts'' →
      Many phrase texts (p ++ q) (a :: as) texts''

/-- The number of phrases, then the phrases. -/
inductive Counted {α : Type} (phrase : Phrase α) : Phrase (List α)
  | mk {texts texts' : List String} {p : List UInt8} {as : List α} :
      as.length < Bytes.capacity 4 → Many phrase texts p as texts' →
      Counted phrase texts (Bytes.littleEndian 4 as.length ++ p) as texts'

/-- A record of trivia. That it is missing means nothing. -/
inductive TriviaRecord (limits : Limits) : Phrase TriviaBlueprint
  | mk {texts texts' : List String} {header text : List UInt8} {missing : Bool}
      {t : TriviaBlueprint} :
      t.kind.isTrivia = true → Header limits t.kind missing t.overlay header →
      Text limits texts text t.text texts' → t.width ≤ maxSize →
      TriviaRecord limits texts (header ++ text) t texts'

/-- A record of any class. No record spans more bytes than a size can hold. -/
inductive Record (limits : Limits) : Phrase Blueprint
  | trivia {texts texts' : List String} {p : List UInt8} {t : TriviaBlueprint} :
      TriviaRecord limits texts p t texts' → Record limits texts p (.trivia t) texts'
  | token {texts₀ texts₁ texts₂ texts₃ : List String} {header p q r :
      List UInt8} {kind : Kind} {missing : Bool} {text : String} {leading trailing :
      List TriviaBlueprint} {overlay : Overlay} :
      kind.isToken = true → Header limits kind missing overlay header →
      Text limits texts₀ p text texts₁ →
      Counted (TriviaRecord limits) texts₁ q leading texts₂ →
      Counted (TriviaRecord limits) texts₂ r trailing texts₃ →
      (Blueprint.token kind missing text leading trailing overlay).width ≤ maxSize →
      Record limits texts₀ (header ++ (p ++ (q ++ r)))
        (.token kind missing text leading trailing overlay) texts₃
  | node {texts texts' : List String} {header p : List UInt8} {kind : Kind} {missing : Bool}
      {children : List Blueprint} {overlay : Overlay} :
      kind.isNode = true → Header limits kind missing overlay header →
      (∀ c ∈ children, c.isTrivia = false) → children.length < Bytes.capacity 4 →
      Many (Record limits) texts p children texts' →
      (Blueprint.node kind missing children overlay).width ≤ maxSize →
      Record limits texts (header ++ (Bytes.littleEndian 4 children.length ++ p))
        (.node kind missing children overlay) texts'

/-- A stream: the bytes that name the format, its version, and the record of the root, in which
records nest no deeper than the limit allows. -/
inductive Stream (limits : Limits) : List UInt8 → Blueprint → Prop
  | mk {p : List UInt8} {d : Blueprint} {texts : List String} : Record limits [] p d texts →
      d.height ≤ limits.maxDepth.toNat →
      Stream limits (streamMagic ++ (UInt8.ofNat streamVersion :: p)) d

variable {limits : Limits} {α : Type}

theorem Many.mono {phrase phrase' : Phrase α} {texts texts' : List String} {p : List UInt8}
    {as : List α} (many : Many phrase texts p as texts')
    (each : ∀ texts p a texts', phrase texts p a texts' → phrase' texts p a texts') :
    Many phrase' texts p as texts' := by
  induction many with
  | nil => exact .nil
  | cons head _ ih => exact .cons (each _ _ _ _ head) ih

@[elab_as_elim]
theorem Record.induction {P : Phrase Blueprint}
    (trivia : ∀ {texts p t texts'}, TriviaRecord limits texts p t texts' →
      P texts p (.trivia t) texts')
    (token :
      ∀ {texts₀ texts₁ texts₂ texts₃ header p q r kind missing text leading trailing
        overlay}, kind.isToken = true → Header limits kind missing overlay header →
      Text limits texts₀ p text texts₁ →
      Counted (TriviaRecord limits) texts₁ q leading texts₂ →
      Counted (TriviaRecord limits) texts₂ r trailing texts₃ →
      (Blueprint.token kind missing text leading trailing overlay).width ≤ maxSize →
      P texts₀ (header ++ (p ++ (q ++ r))) (.token kind missing text leading trailing overlay)
        texts₃)
    (node : ∀ {texts texts' header p kind missing children overlay}, kind.isNode = true →
      Header limits kind missing overlay header → (∀ c ∈ children, c.isTrivia = false) →
      children.length < Bytes.capacity 4 →
      Many (fun texts p d texts' => Record limits texts p d texts' ∧ P texts p d texts')
        texts p children texts' →
      (Blueprint.node kind missing children overlay).width ≤ maxSize →
      P texts (header ++ (Bytes.littleEndian 4 children.length ++ p))
        (.node kind missing children overlay) texts')
    {texts : List String} {p : List UInt8} {d : Blueprint} {texts' : List String}
    (record : Record limits texts p d texts') : P texts p d texts' :=
  Record.rec (motive_1 := fun texts p d texts' _ => P texts p d texts')
    (motive_2 := fun texts p ds texts' _ =>
      Many (fun texts p d texts' => Record limits texts p d texts' ∧ P texts p d texts')
        texts p ds texts')
    trivia token (fun isNode header shape count _ fits ih => node isNode header shape count ih fits)
    .nil (fun head _ ih tail => .cons ⟨head, ih⟩ tail) record

section Widening

variable {limits' : Limits} (strings : limits.maxStringLength ≤ limits'.maxStringLength)
  (blocks : limits.maxOverlayBytes ≤ limits'.maxOverlayBytes)

include strings in
theorem Text.widen {texts texts' : List String} {p : List UInt8} {text : String}
    (spelled : Text limits texts p text texts') : Text limits' texts p text texts' := by
  cases spelled with
  | inline short => exact .inline (Nat.le_trans short (UInt32.le_iff_toNat_le.1 strings))
  | reference small found => exact .reference small found

include blocks in
theorem Attached.widen {member : α → List UInt8 → Prop} {as : List α} {p : List UInt8}
    (attached : Attached limits member as p) : Attached limits' member as p := by
  cases attached with
  | absent => exact .absent
  | present spelled within =>
    exact .present spelled (Nat.le_trans within (UInt64.le_iff_toNat_le.1 blocks))

include blocks in
theorem Header.widen {kind : Kind} {missing : Bool} {overlay : Overlay} {p : List UInt8}
    (header : Header limits kind missing overlay p) : Header limits' kind missing overlay p := by
  obtain ⟨small, diagnostics, annotations⟩ := header
  exact .mk small (diagnostics.widen blocks) (annotations.widen blocks)

theorem Counted.mono {phrase phrase' : Phrase α} {texts texts' : List String} {p : List UInt8}
    {as : List α} (counted : Counted phrase texts p as texts')
    (each : ∀ texts p a texts', phrase texts p a texts' → phrase' texts p a texts') :
    Counted phrase' texts p as texts' := by
  obtain ⟨small, many⟩ := counted
  exact .mk small (many.mono each)

include strings blocks

theorem TriviaRecord.widen {texts texts' : List String} {p : List UInt8} {t : TriviaBlueprint}
    (record : TriviaRecord limits texts p t texts') : TriviaRecord limits' texts p t texts' := by
  obtain ⟨isTrivia, header, text, fits⟩ := record
  exact .mk isTrivia (header.widen blocks) (text.widen strings) fits

theorem Record.widen {texts texts' : List String} {p : List UInt8} {d : Blueprint}
    (record : Record limits texts p d texts') : Record limits' texts p d texts' := by
  refine Record.induction ?_ ?_ ?_ record
  · intro texts p t texts' record
    exact .trivia (record.widen strings blocks)
  · intro _ _ _ _ _ _ _ _ _ _ _ _ _ _ isToken header text leading trailing fits
    exact .token isToken (header.widen blocks) (text.widen strings)
      (leading.mono fun _ _ _ _ h => h.widen strings blocks)
      (trailing.mono fun _ _ _ _ h => h.widen strings blocks) fits
  · intro _ _ _ _ _ _ _ _ isNode header shape count many fits
    exact .node isNode (header.widen blocks) shape count (many.mono fun _ _ _ _ h => h.2) fits

end Widening

end GreenTree.Grammar
