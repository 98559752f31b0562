import GreenTree.Element.Path
import GreenTree.Proofs.Obtained

/-!
What summary bits say. A bit that parents take over is set in an element exactly if something in the
element has it of its own accord, so a search that skips what lacks the bit misses nothing. The bit
of missing elements is never taken over: it is what the maker or the record of the element said, and
the operations keep it.
-/

namespace GreenTree

theorem Trivia.make_missing {cell : Nat} {kind : Kind} {text : String} {overlay : Overlay}
    {t : Trivia} (made : make cell kind text overlay = .ok t) : t.head.summary.missing = false := by
  obtain ⟨width, rfl⟩ := eq_of_make made
  simp [Head.make]

theorem Token.make_missing {cell : Nat} {kind : Kind} {missing : Bool} {text : String}
    {leading trailing : List Trivia} {overlay : Overlay} {t : Token}
    (made : make cell kind missing text leading trailing overlay = .ok t) :
    t.head.summary.missing = missing := by
  obtain ⟨width, before, behind, rfl⟩ := eq_of_make made
  simp [Head.make]

theorem Node.make_missing {cell : Nat} {kind : Kind} {missing : Bool} {children : List Element}
    {overlay : Overlay} {n : Node Element}
    (made : make cell kind missing children overlay = .ok n) :
    n.head.summary.missing = missing := by
  obtain ⟨width, rfl⟩ := eq_of_make made
  simp [Head.make]

theorem Node.replaceChild_missing {cell index : Nat} {n n' : Node Element} {child : Element}
    (made : n.replaceChild cell index child = .ok n') :
    n'.head.summary.missing = n.head.summary.missing := by
  rw [replaceChild_eq_make] at made
  split at made
  · exact make_missing made
  · cases made

namespace Element

theorem Sound.withOverlay_missing {e e' : Element} (sound : e.Sound) {cell : Nat}
    {overlay : Overlay} (made : e.withOverlay cell overlay = .ok e') :
    e'.summary.missing = e.summary.missing := by
  cases e with
  | node n =>
    obtain ⟨n', built, rfl⟩ := map_eq_ok_iff.1 made
    rw [Node.withOverlay_eq_make] at built
    exact Node.make_missing built
  | token t =>
    obtain ⟨t', built, rfl⟩ := map_eq_ok_iff.1 made
    rw [Token.withOverlay_eq_make] at built
    exact Token.make_missing built
  | trivia t =>
    obtain ⟨t', built, rfl⟩ := map_eq_ok_iff.1 made
    have before : (Element.trivia t).summary.missing = false := sound.trivia_missing rfl
    rw [before]
    exact Trivia.make_missing built

/-- What is promised about the bit of missing elements: trivia never has it, nothing that is made
around the element takes it over, and the operations on the element keep it. -/
structure MissingIsOwn (e : Element) : Prop where
  ofTrivia : e.isTrivia = true → e.summary.missing = false
  inToken : ∀ {cell kind text leading trailing} {s : Trivia} {t : Token}, e = .trivia s →
    s ∈ leading ++ trailing →
      Token.make cell kind false text leading trailing .empty = .ok t →
    t.head.summary.missing = false
  inNode : ∀ {cell kind children} {n : Node Element}, e ∈ children →
    Node.plain cell kind children = .ok n → n.head.summary.missing = false
  asNewChild : ∀ {cell index} {n n' : Node Element}, n.replaceChild cell index e = .ok n' →
    n'.head.summary.missing = n.head.summary.missing
  replaceChild : ∀ {cell index child} {n n' : Node Element}, e = .node n →
    n.replaceChild cell index child = .ok n' → n'.head.summary.missing = e.summary.missing
  withDiagnostics : ∀ {cell diagnostics} {e' : Element},
    e.withDiagnostics cell diagnostics = .ok e' → e'.summary.missing = e.summary.missing
  withAnnotations : ∀ {cell annotations} {e' : Element},
    e.withAnnotations cell annotations = .ok e' → e'.summary.missing = e.summary.missing

theorem Sound.missingIsOwn {e : Element} (sound : e.Sound) : e.MissingIsOwn where
  ofTrivia := sound.trivia_missing
  inToken _ _ made := Token.make_missing made
  inNode _ made := Node.make_missing made
  asNewChild made := Node.replaceChild_missing made
  replaceChild := by
    rintro _ _ _ _ _ rfl made
    exact Node.replaceChild_missing made
  withDiagnostics made := sound.withOverlay_missing made
  withAnnotations made := sound.withOverlay_missing made

end Element

namespace Grammar

variable {limits : Limits}

theorem Many.exists_mem {α : Type} {phrase : Phrase α} {texts texts' : List String}
    {p : List UInt8} {as : List α} (many : Many phrase texts p as texts') {a : α}
    (mem : a ∈ as) :
    ∃ texts q texts', phrase texts q a texts' ∧ q <:+: p := by
  induction many with
  | nil => cases mem
  | @cons _ _ _ q r _ _ head _ ih =>
    rcases List.mem_cons.1 mem with rfl | mem
    · exact ⟨_, q, _, head, (List.prefix_append q r).isInfix⟩
    · obtain ⟨_, s, _, spelled, inside⟩ := ih mem
      exact ⟨_, s, _, spelled, inside.trans (List.suffix_append q r).isInfix⟩

theorem Counted.exists_mem {α : Type} {phrase : Phrase α} {texts texts' : List String}
    {p : List UInt8} {as : List α} (counted : Counted phrase texts p as texts') {a : α}
    (mem : a ∈ as) : ∃ texts q texts', phrase texts q a texts' ∧ q <:+: p := by
  obtain ⟨-, many⟩ := counted
  obtain ⟨_, q, _, spelled, inside⟩ := many.exists_mem mem
  exact ⟨_, q, _, spelled, inside.trans (List.suffix_append _ _).isInfix⟩

theorem Record.exists_part {d e : Element} (part : d.Part e) {texts texts' : List String}
    {p : List UInt8} (record : Record limits texts p e.blueprint texts') :
    ∃ texts q texts', Record limits texts q d.blueprint texts' ∧ q <:+: p := by
  induction part generalizing texts p texts' with
  | self e => exact ⟨_, p, _, record, List.infix_refl p⟩
  | @child n c d mem _ ih =>
    rw [Element.blueprint, Element.blueprints_eq] at record
    cases record with
    | node _ _ _ _ many _ =>
      obtain ⟨_, q, _, spelled, inside⟩ := many.exists_mem (List.mem_map_of_mem mem)
      obtain ⟨_, r, _, below, deeper⟩ := ih spelled
      refine ⟨_, r, _, below, deeper.trans (inside.trans ?_)⟩
      exact (List.suffix_append _ _).isInfix.trans (List.suffix_append _ _).isInfix
  | @leading t s mem =>
    cases record with
    | token _ _ _ first _ _ =>
      obtain ⟨_, q, _, spelled, inside⟩ := first.exists_mem (List.mem_map_of_mem mem)
      refine ⟨_, q, _, .trivia spelled, inside.trans ?_⟩
      exact (List.infix_append' _ _ _).trans (List.suffix_append _ _).isInfix
  | @trailing t s mem =>
    cases record with
    | token _ _ _ _ second _ =>
      obtain ⟨_, q, _, spelled, inside⟩ := second.exists_mem (List.mem_map_of_mem mem)
      refine ⟨_, q, _, .trivia spelled, inside.trans ?_⟩
      exact (List.suffix_append _ _).isInfix.trans
        ((List.suffix_append _ _).isInfix.trans (List.suffix_append _ _).isInfix)

/-- A record begins with the tag of its kind and a word, whose lowest bit says whether the element
is missing. -/
theorem Record.exists_word {texts texts' : List String} {p : List UInt8} {d : Blueprint}
    (record : Record limits texts p d texts') : ∃ word behind,
      p = Bytes.littleEndian 2 d.kind.tag ++ (Bytes.littleEndian 2 word ++ behind) ∧
        word < Bytes.capacity 2 ∧ d.missing = (!d.isTrivia && word.testBit 0) := by
  cases record with
  | trivia record =>
    obtain ⟨-, header, -, -⟩ := record
    obtain ⟨small, -, -⟩ := header
    exact ⟨_, _, by simp only [List.append_assoc]; rfl, small, rfl⟩
  | token _ header _ _ _ _ =>
    obtain ⟨small, -, -⟩ := header
    exact ⟨_, _, by simp only [List.append_assoc]; rfl, small, rfl⟩
  | node _ header _ _ _ _ =>
    obtain ⟨small, -, -⟩ := header
    exact ⟨_, _, by simp only [List.append_assoc]; rfl, small, rfl⟩

end Grammar

namespace Element

/-- Whether the bytes hold a record of the element, whose own word alone says whether the element is
missing. -/
def MissingAsRecorded (limits : Limits) (bytes : List UInt8) (e : Element) : Prop :=
  ∃ texts word behind texts',
    let record := Bytes.littleEndian 2 e.kind.tag ++ (Bytes.littleEndian 2 word ++ behind)
    record <:+: bytes ∧ word < Bytes.capacity 2 ∧
      Grammar.Record limits texts record e.blueprint texts' ∧
      e.summary.missing = (!e.isTrivia && word.testBit 0)

theorem missingAsRecorded_of_tree {limits : Limits} {bytes : List UInt8} {cell : Nat}
    {e : Element} {r : Reader}
    (read : Reader.tree .standard limits { rest := bytes, nextCell := cell } = .ok e r)
    {d : Element} (part : d.Part e) : d.MissingAsRecorded limits bytes := by
  obtain ⟨p, _, split, stream, sound, rfl⟩ := Reader.exists_stream_of_tree read
  obtain ⟨record, -⟩ := stream
  obtain ⟨texts, q, texts', own, inside⟩ := record.exists_part part
  obtain ⟨word, behind, rfl, small, missing⟩ := own.exists_word
  rw [(sound.part part).missing_blueprint, blueprint_isTrivia] at missing
  rw [blueprint_kind] at own inside
  refine ⟨texts, word, behind, texts', ?_, small, own, missing⟩
  rw [split, List.append_assoc, List.cons_append]
  exact inside.trans ((List.prefix_append _ _).isInfix.trans
    ((List.suffix_cons _ _).isInfix.trans (List.suffix_append _ _).isInfix))

/-- Every element that can be obtained, and everything below it, says in its summary bits what it
holds, and is missing of its own accord only. -/
theorem Obtained.part_summary {e d : Element} (obtained : e.Obtained) (part : d.Part e) :
    d.SummaryExact ∧ d.MissingIsOwn ∧ ∀ {limits bytes cell r},
      Reader.tree .standard limits { rest := bytes, nextCell := cell } = .ok e r →
        d.MissingAsRecorded limits bytes := by
  have sound := obtained.sound.part part
  exact ⟨sound.summaryExact, sound.missingIsOwn,
    fun read => missingAsRecorded_of_tree read part⟩

/-- A comma in front of a message. All bits of both words are set, and a block without diagnostics
is on the comma. -/
def noisyComma : List UInt8 :=
  streamMagic ++ [1, 12, 0, 255, 255, 1, 0, 0, 0, 1, 0, 0, 0, 44, 0, 0, 0, 0,
    1, 0, 0, 0, 7, 0, 255, 255, 0, 0, 0, 1, 0, 0, 0, 35]

theorem part_summary_noisyComma : ∃ e r,
    Reader.tree .standard .standard { rest := noisyComma } = .ok e r ∧
      e.summary = { missing := true, skippedText := true } ∧ e.SummaryExact ∧ e.MissingIsOwn ∧
        e.MissingAsRecorded .standard noisyComma := by
  have kept : ((Reader.tree .standard .standard).run' { rest := noisyComma }).map summary =
      some { missing := true, skippedText := true } := by decide +kernel
  unfold EStateM.run' at kept
  split at kept
  · rename_i e r read
    obtain ⟨exact, own, recorded⟩ := Obtained.part_summary (.decoded read) (.self e)
    exact ⟨e, r, read, Option.some.inj kept, exact, own, recorded read⟩
  · cases kept

end Element

end GreenTree
