import GreenTree.Proofs.FullText
import GreenTree.Proofs.Stream.Acceptance

/-!
Elements that can be obtained: by making them from parts, by the operations that make one element
from others, from shared trivia, and by reading bytes. All of them are sound, so their widths are
exact and their shapes are those of their kinds, in themselves and in everything below them.
-/

namespace GreenTree

/-- Interners after any runs of trivia were asked for. -/
inductive Interner.Reached : Interner → Prop
  | empty : Reached {}
  | intern {i i' : Interner} {cell : Nat} {kind : Kind} {text : String} {t : Trivia} :
      Reached i → i.intern cell kind text = .ok (t, i') → Reached i'

theorem Interner.Reached.sound {i : Interner} (reached : i.Reached) : i.Sound := by
  induction reached with
  | empty => exact sound_empty
  | intern _ run ih => exact (ih.intern run).2

namespace Reader

variable {limits : Limits}

/-- Reading sessions with the readers that come with the library, after any requests; each was
answered or ended in an error. -/
inductive Session (limits : Limits) : Reader → Prop
  | start (bytes : List UInt8) (cell : Nat) : Session limits { rest := bytes, nextCell := cell }
  | answered {r r' : Reader} {request : Request} {a : request.Answer} : Session limits r →
      serve .standard limits request r = .ok a r' → Session limits r'
  | refused {r r' : Reader} {request : Request} {e : ReadError} : Session limits r →
      serve .standard limits request r = .error (.error e) r' → Session limits r'

theorem serve_ready (request : Request) {r : Reader} (ready : r.Ready 0) :
    (∀ a r', serve .standard limits request r = .ok a r' → r'.Ready 0) ∧
      ∀ e r', serve .standard limits request r = .error (.error e) r' → r'.Ready 0 := by
  have keeps {α δ : Type} {reader : Read α} {view : α → δ → Prop}
      {phrase : Grammar.Phrase δ} (parses : Parses 0 reader view phrase) :
      (∀ a r', reader r = .ok a r' → r'.Ready 0) ∧
        ∀ e r', reader r = .error (.error e) r' → r'.Ready 0 :=
    ⟨fun _ _ run => (parses.sound ready run).1, fun _ _ run => parses.failed ready run⟩
  have whole : ReadsWithin 0 limits (limits.maxDepth.toNat - 0) (element .standard limits) :=
    element_parses (Nat.zero_le _)
  cases request with
  | byte => exact keeps (fixed_parses 1)
  | half => exact keeps (fixed_parses 2)
  | word => exact keeps (fixed_parses 4)
  | flag => exact keeps flag_parses
  | length => exact keeps length_parses
  | text => exact keeps (text_parses limits)
  | diagnostics =>
    exact keeps (block_parses limits (OverlayBlock.list_decodes OverlayBlock.diagnostic_decodes))
  | annotations =>
    exact keeps (block_parses limits (OverlayBlock.list_decodes OverlayBlock.annotation_decodes))
  | element allowed expected => exact keeps (whole allowed expected)
  | trivia => exact keeps (triviaRecord_parses whole)
  | intern kind text => exact keeps (intern_parses kind text)

theorem Session.ready {r : Reader} (session : Session limits r) : r.Ready 0 := by
  induction session with
  | start bytes cell => exact ready_start bytes cell
  | answered _ run ih => exact (serve_ready _ ih).1 _ _ run
  | refused _ run ih => exact (serve_ready _ ih).2 _ _ run

end Reader

namespace Element

/-- The elements that a caller can get hold of. Texts in overlays fit in memory. -/
inductive Obtained : Element → Prop
  | trivia {cell : Nat} {kind : Kind} {text : String} {overlay : Overlay} {t : Trivia} :
      overlay.Addressable → Trivia.make cell kind text overlay = .ok t → Obtained (.trivia t)
  | token {cell : Nat} {kind : Kind} {text : String} {leading trailing : List Trivia} {t : Token} :
      (∀ s ∈ leading, Obtained (.trivia s)) → (∀ s ∈ trailing, Obtained (.trivia s)) →
      Token.make cell kind false text leading trailing .empty = .ok t → Obtained (.token t)
  | missing {cell : Nat} {kind : Kind} {t : Token} :
      Token.missing cell kind = .ok t → Obtained (.token t)
  | node {cell : Nat} {kind : Kind} {children : List Element} {n : Node Element} :
      (∀ c ∈ children, Obtained c) → Node.plain cell kind children = .ok n →
      Obtained (.node n)
  | withDiagnostics {cell : Nat} {e e' : Element} {diagnostics : List Diagnostic} : Obtained e →
      Overlay.Addressable { diagnostics } → e.withDiagnostics cell diagnostics = .ok e' →
      Obtained e'
  | withAnnotations {cell : Nat} {e e' : Element} {annotations : List Annotation} : Obtained e →
      Overlay.Addressable { annotations } → e.withAnnotations cell annotations = .ok e' →
      Obtained e'
  | replaceChild {cell index : Nat} {n n' : Node Element} {child : Element} : Obtained (.node n) →
      Obtained child → n.replaceChild cell index child = .ok n' → Obtained (.node n')
  | interned {cell : Nat} {i i' : Interner} {kind : Kind} {text : String} {t : Trivia} :
      i.Reached → i.intern cell kind text = .ok (t, i') → Obtained (.trivia t)
  | decoded {limits : Limits} {bytes : List UInt8} {cell : Nat} {e : Element} {r : Reader} :
      Reader.tree .standard limits { rest := bytes, nextCell := cell } = .ok e r → Obtained e
  | read {limits : Limits} {r r' : Reader} {allowed : KindSet} {expected : String} {e : Element} :
      r.Session limits →
      Reader.serve .standard limits (.element allowed expected) r = .ok e r' → Obtained e
  | readTrivia {limits : Limits} {r r' : Reader} {t : Trivia} : r.Session limits →
      Reader.serve .standard limits .trivia r = .ok t r' → Obtained (.trivia t)
  | shared {limits : Limits} {r r' : Reader} {kind : Kind} {text : String} {t : Trivia} :
      r.Session limits → Reader.serve .standard limits (.intern kind text) r = .ok t r' →
      Obtained (.trivia t)
  | part {d e : Element} : d.Part e → Obtained e → Obtained d

theorem Obtained.sound {e : Element} (obtained : e.Obtained) : e.Sound := by
  induction obtained with
  | trivia small made => exact .trivia ((Trivia.make_eq_ok_iff small).1 made).1
  | @token _ _ _ leading trailing _ _ _ made ihLeading ihTrailing =>
    have soundLeading : ∀ s ∈ leading, s.Sound := fun s h => sound_trivia_iff.1 (ihLeading s h)
    have soundTrailing : ∀ s ∈ trailing, s.Sound :=
      fun s h => sound_trivia_iff.1 (ihTrailing s h)
    exact .token ((Token.make_eq_ok_iff Overlay.addressable_empty soundLeading
      soundTrailing).1 made).1
  | missing made =>
    exact .token ((Token.make_eq_ok_iff Overlay.addressable_empty (by simp) (by simp)).1 made).1
  | node _ made parts =>
    obtain ⟨own, -, -, -, rfl, -⟩ := (Node.make_eq_ok_iff Overlay.addressable_empty).1 made
    exact .node own parts
  | withDiagnostics _ small made sound => exact sound.withDiagnostics small made
  | withAnnotations _ small made sound => exact sound.withAnnotations small made
  | replaceChild _ _ made sound soundChild => exact sound.replaceChild soundChild made
  | interned reached run => exact .trivia (reached.sound.intern run).1.1
  | decoded run =>
    obtain ⟨_, _, _, _, sound, _⟩ := Reader.exists_stream_of_tree run
    exact sound
  | read session run =>
    obtain ⟨_, _, _, means, _⟩ :=
      (Reader.element_parses (Nat.zero_le _) _ _).sound session.ready run
    exact means.1
  | readTrivia session run =>
    obtain ⟨_, _, _, means, _⟩ :=
      (Reader.triviaRecord_parses (Reader.element_parses (Nat.zero_le _))).sound session.ready run
    exact .trivia means.1
  | shared session run =>
    obtain ⟨_, _, _, means, _⟩ := (Reader.intern_parses _ _).sound session.ready run
    exact .trivia means.1
  | part part _ sound => exact sound.part part

def hasOwnShape : Element → Bool
  | .node n => n.head.kind.isNode
  | .token t => t.head.kind.isToken
  | .trivia t => t.head.kind.isTrivia

/-- What an element promises about its shape and its widths, as exact numbers. -/
structure Coherent (e : Element) : Prop where
  shape : e.hasOwnShape = true
  noTriviaChild : ∀ c ∈ e.children, c.isTrivia = false
  fullWidth : e.fullWidth = e.fullText.utf8ByteSize
  ofToken : ∀ t, e = .token t →
    t.leadingWidth = (t.leading.map fun s => s.head.fullWidth).sum ∧
      t.trailingWidth = (t.trailing.map fun s => s.head.fullWidth).sum
  ofNode : ∀ n, e = .node n → n.head.fullWidth = (n.children.map Element.fullWidth).sum

theorem Sound.coherent {e : Element} (sound : e.Sound) : e.Coherent where
  shape := by
    cases sound with
    | node own _ => exact own.kind
    | token own => exact own.kind
    | trivia own => exact own.kind
  noTriviaChild := by
    cases sound with
    | node own _ => exact own.shape
    | token own => simp [children]
    | trivia own => simp [children]
  fullWidth := sound.fullWidth_eq
  ofToken := by
    rintro t rfl
    have own := sound_token_iff.1 sound
    exact ⟨own.leadingWidth, own.trailingWidth⟩
  ofNode := by
    rintro n rfl
    exact (sound_node_iff.1 sound).1.fullWidth

/-- Every element that can be obtained, and everything below it, has the shape of its kind and exact
widths. -/
theorem Obtained.part_coherent {e d : Element} (obtained : e.Obtained)
    (part : d.Part e) : d.Coherent :=
  (obtained.sound.part part).coherent

theorem coherent_in_replaced_list :
    let blank : Trivia := ⟨0, ⟨.whitespaceTrivia, {}, 2, .empty⟩, "\u00a0"⟩
    let name : Token := ⟨1, ⟨.ident, {}, 4, .empty⟩, "é", [blank], [], 2, 0⟩
    let hole : Token := ⟨2, ⟨.semicolon, { missing := true }, 0, .empty⟩, "", [], [], 0, 0⟩
    let list : Element := .node ⟨4, ⟨.listNode, {}, 4, .empty⟩, [.token name, .token hole]⟩
    list.Obtained ∧ (Element.trivia blank).Part list ∧ list.Coherent ∧
      (Element.trivia blank).Coherent := by
  intro blank name hole list
  have madeBlank : Trivia.make 0 .whitespaceTrivia "\u00a0" .empty = .ok blank := rfl
  have madeName : Token.make 1 .ident false "é" [blank] [] .empty = .ok name := rfl
  have madeHole : Token.missing 2 .semicolon = .ok hole := rfl
  have madeTwice : Node.plain 3 .listNode [.token name, .token name] =
      .ok ⟨3, ⟨.listNode, {}, 8, .empty⟩, [.token name, .token name]⟩ := rfl
  have replaced : Node.replaceChild 4 ⟨3, ⟨.listNode, {}, 8, .empty⟩,
      [.token name, .token name]⟩ 1 (.token hole) =
        .ok ⟨4, ⟨.listNode, {}, 4, .empty⟩, [.token name, .token hole]⟩ := by
    simp only [blank, name, hole]
    rfl
  have obtainedBlank : (Element.trivia blank).Obtained :=
    .trivia Overlay.addressable_empty madeBlank
  have obtainedName : (Element.token name).Obtained :=
    .token (by simpa using obtainedBlank) (by simp) madeName
  have obtained : list.Obtained := .replaceChild (.node (by simpa using obtainedName) madeTwice)
    (.missing madeHole) replaced
  have part : (Element.trivia blank).Part list :=
    .child List.mem_cons_self (.leading List.mem_cons_self)
  exact ⟨obtained, part, obtained.part_coherent (.self list), obtained.part_coherent part⟩

end Element

end GreenTree
