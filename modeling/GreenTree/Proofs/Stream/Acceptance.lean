import GreenTree.Proofs.Realizing
import GreenTree.Proofs.Stream.Nesting
import GreenTree.Proofs.Stream.Parsing

/-!
What is accepted as a stream. The reader of records parses exactly the records of the grammar that
nest within the limit, and gives sound elements made from what the records say. So a stream is
accepted exactly if it is one under the grammar, and what is read is what the grammar denotes.
-/

namespace GreenTree.Reader

open Grammar

variable {α β δ : Type} {depth : Nat} {limits : Limits}

namespace Parses

theorem known {reader : Read α} {view : α → δ → Prop} {phrase : Phrase δ}
    (parses : Parses depth reader view phrase) (keep : δ → Prop)
    (kept : ∀ texts p d texts', phrase texts p d texts' → keep d) :
    Parses depth reader (fun a d => view a d ∧ keep d) phrase where
  sound := by
    intro r a r' ready run
    obtain ⟨ready', p, d, means, spelled, split⟩ := parses.sound ready run
    exact ⟨ready', p, d, ⟨means, kept _ _ _ _ spelled⟩, spelled, split⟩
  complete := by
    intro r p d texts s ready spelled split
    obtain ⟨a, r', run, means, rest⟩ := parses.complete ready spelled split
    exact ⟨a, r', run, ⟨means, kept _ _ _ _ spelled⟩, rest⟩
  failed := parses.failed

theorem after {step : Read α} {next : α → Read β} {view : β → δ → Prop}
    {phrase : Phrase δ} (free : ∀ r : Reader, r.Ready depth → ∃ a r', step r = .ok a r' ∧
      r'.Ready depth ∧ r'.texts = r.texts ∧ r'.rest = r.rest)
    (parses : ∀ a, Parses depth (next a) view phrase) :
    Parses depth (step >>= next) view phrase where
  sound := by
    intro r b r'' ready run
    obtain ⟨a, r', first, run⟩ := EStateM.bind_eq_ok_iff.1 run
    obtain ⟨a', t, first', ready', known, rest⟩ := free r ready
    obtain ⟨rfl, rfl⟩ := EStateM.Result.ok.inj (first.symm.trans first')
    obtain ⟨ready'', p, d, means, spelled, split⟩ := (parses a).sound ready' run
    exact ⟨ready'', p, d, means, known ▸ spelled, rest ▸ split⟩
  complete := by
    intro r p d texts s ready spelled split
    obtain ⟨a, r', first, ready', known, rest⟩ := free r ready
    obtain ⟨b, r'', run, means, last⟩ :=
      (parses a).complete (r := r') ready' (known ▸ spelled) (rest ▸ split)
    exact ⟨b, r'', EStateM.bind_eq_ok_iff.2 ⟨a, r', first, run⟩, means, last⟩
  failed := by
    intro r e r'' ready run
    obtain ⟨a, r', first, ready', -⟩ := free r ready
    rcases EStateM.bind_eq_error_iff.1 run with run | ⟨_, _, first', run⟩
    · cases first.symm.trans run
    · obtain ⟨rfl, rfl⟩ := EStateM.Result.ok.inj (first.symm.trans first')
      exact (parses a).failed ready' run

end Parses

private theorem freshCell_free (r : Reader) (ready : r.Ready depth) :
    ∃ a r', freshCell r = .ok a r' ∧ r'.Ready depth ∧ r'.texts = r.texts ∧
      r'.rest = r.rest :=
  ⟨r.nextCell, { r with nextCell := r.nextCell + 1 }, rfl,
    ⟨ready.depth, ready.interned⟩, rfl, rfl⟩

theorem visit_free (kind : Kind) (r : Reader) (ready : r.Ready depth) :
    ∃ a r', visit kind r = .ok a r' ∧ r'.Ready depth ∧ r'.texts = r.texts ∧
      r'.rest = r.rest :=
  ⟨(), { r with visits := r.visits.push ⟨kind, r.depth⟩ }, rfl,
    ⟨ready.depth, ready.interned⟩, rfl,
    rfl⟩

theorem made_parses {make : Nat → Except Fault α} {wrap : α → β}
    {view : β → δ → Prop} {d : δ} {fits : Prop}
    (sound : ∀ cell a, make cell = .ok a → view (wrap a) d ∧ fits)
    (complete : fits → ∀ cell, ∃ a, make cell = .ok a) :
    Parses depth (do
      let cell ← freshCell
      return wrap (← built (make cell))) view (plain fun d' p => d' = d ∧ p = [] ∧ fits) := by
  refine Parses.after freshCell_free fun cell => ?_
  cases made : make cell with
  | ok a =>
    obtain ⟨means, room⟩ := sound cell a made
    refine (Parses.pure (a := wrap a) means).congr fun texts p d' texts' => ?_
    simp [plain, room]
  | error cause =>
    have noRoom : ¬fits := by
      intro room
      obtain ⟨a, made'⟩ := complete room cell
      rw [made] at made'
      cases made'
    have refused : ∃ failure, built (.error cause : Except Fault α) = throw failure := by
      cases cause <;> exact ⟨_, rfl⟩
    obtain ⟨failure, same⟩ := refused
    rw [same]
    refine (Parses.throw failure view).congr fun texts p d' texts' => ?_
    simp [plain, noRoom]

theorem intern_parses (kind : Kind) (text : String) :
    Parses depth
    (intern kind text) Trivia.Realizes (plain fun t p => t = ⟨kind, text, .empty⟩ ∧
      p = [] ∧ kind.isTrivia = true ∧ text.utf8ByteSize ≤ maxSize) where
  sound := by
    intro r t r' ready run
    rw [intern_eq] at run
    split at run
    · rename_i found
      cases run
      obtain ⟨⟨own, meant⟩, sound⟩ := ready.interned.ask found
      have same : t.head.kind = kind := congrArg TriviaBlueprint.kind meant
      have isTrivia : kind.isTrivia = true := same ▸ own.kind
      have means : t.Realizes ⟨kind, text, .empty⟩ := ⟨own, meant⟩
      exact ⟨⟨ready.depth, sound⟩, [], _, means,
        ⟨⟨rfl, rfl, isTrivia, means.width_le⟩, rfl⟩, rfl⟩
    · cases run
  complete := by
    rintro r _ _ _ s ready ⟨⟨rfl, rfl, isTrivia, fits⟩, rfl⟩ split
    obtain ⟨t, i, found⟩ := r.interner.exists_ask r.nextCell isTrivia fits
    refine ⟨t, { r with nextCell := r.nextCell + 1, interner := i }, ?_,
      (ready.interned.ask found).1, rfl, split⟩
    rw [intern_eq, found]
  failed := by
    intro r e r' _ run
    rw [intern_eq] at run
    split at run <;> cases run

private theorem overlay_eq_empty {o : Overlay} (bare : o.isEmpty = true) : o = .empty := by
  obtain ⟨diagnostics, annotations⟩ := o
  simp only [Overlay.isEmpty, Bool.and_eq_true, List.isEmpty_iff] at bare
  obtain ⟨rfl, rfl⟩ := bare
  rfl

theorem madeTrivia_parses {h : RecordHeader} (small : h.overlay.Addressable)
    (isTrivia : h.kind.isTrivia = true) (text : String) : Parses depth (do
      if h.overlay.isEmpty then return .trivia (← intern h.kind text)
      else return .trivia (← built (Trivia.make (← freshCell) h.kind text h.overlay)))
      Element.Realizes (plain fun d p => d = .trivia ⟨h.kind, text, h.overlay⟩ ∧ p = [] ∧
        text.utf8ByteSize ≤ maxSize) := by
  split
  · rename_i bare
    refine ((intern_parses h.kind text).bind fun t d means =>
      Parses.pure means.element).congr fun texts p d texts' => ?_
    rw [overlay_eq_empty bare]
    constructor
    · rintro ⟨_, _, _, _, ⟨⟨rfl, rfl, -, fits⟩, rfl⟩, ⟨⟨rfl, rfl⟩, rfl⟩, rfl⟩
      exact ⟨⟨rfl, rfl, fits⟩, rfl⟩
    · rintro ⟨⟨rfl, rfl, fits⟩, rfl⟩
      exact ⟨_, [], [], _, ⟨⟨rfl, rfl, isTrivia, fits⟩, rfl⟩,
        ⟨⟨rfl, rfl⟩, rfl⟩, rfl⟩
  · refine made_parses (fun cell t made => ?_) fun fits cell =>
      ⟨_, Trivia.make_eq_ok cell h.overlay isTrivia fits⟩
    obtain ⟨sound, -, meant⟩ := (Trivia.make_eq_ok_iff small).1 made
    have means : t.Realizes ⟨h.kind, text, h.overlay⟩ := ⟨sound, meant⟩
    exact ⟨means.element, means.width_le⟩

theorem triviaContents_eq {h : RecordHeader} (isTrivia : h.kind.isTrivia = true) :
    triviaContents limits h = (do
      let text ← text limits
      if h.overlay.isEmpty then
        return .trivia (← intern h.kind text)
      else
        return .trivia (← built (Trivia.make (← freshCell) h.kind text h.overlay))) := by
  unfold triviaContents
  simp only [isTrivia, Bool.not_true, Bool.false_eq_true, if_false]

theorem triviaContents_parses {levels : Nat} {h : RecordHeader} (small : h.overlay.Addressable)
    (isTrivia : h.kind.isTrivia = true) :
    Parses depth (triviaContents limits h) Element.Realizes (Contents limits levels h) := by
  rw [triviaContents_eq isTrivia]
  refine ((text_parses limits).bindEq fun text =>
    madeTrivia_parses small isTrivia text).congr fun texts p d texts' => ?_
  constructor
  · rintro ⟨text, p, _, _, spelled, ⟨⟨rfl, rfl, fits⟩, rfl⟩, rfl⟩
    rw [List.append_nil]
    exact .trivia isTrivia spelled fits
  · intro contents
    cases contents with
    | trivia _ spelled fits =>
      exact ⟨_, _, [], _, spelled, ⟨⟨rfl, rfl, fits⟩, rfl⟩, (List.append_nil _).symm⟩
    | token isToken =>
      rw [Kind.isToken_of_isTrivia isTrivia] at isToken
      cases isToken
    | node isNode =>
      rw [Kind.isNode_of_isTrivia isTrivia] at isNode
      cases isNode

/-- How records inside a record have to be read: within a number of levels. -/
def ReadsWithin (depth : Nat) (limits : Limits) (levels : Nat) (inner : Inner) : Prop :=
  ∀ allowed expected, Parses depth (inner allowed expected) Element.Realizes
    (Within limits levels allowed)

theorem triviaRecord_parses {levels : Nat} {inner : Inner}
    (reads : ReadsWithin depth limits levels inner) : Parses depth (triviaRecord inner)
      Trivia.Realizes fun texts p t texts' => TriviaRecord limits texts p t texts' ∧
      1 ≤ levels := by
  unfold triviaRecord
  refine Parses.congr ((reads .trivia "trivia").bind fun e d means => (?_ : Parses depth _
    Trivia.Realizes (plain fun t p => d = .trivia t ∧ p = []))) ?_
  · obtain ⟨sound, rfl⟩ := means
    cases sound with
    | @trivia t own =>
      refine (Parses.pure ⟨own, rfl⟩).congr fun texts p d texts' => ?_
      simp [plain, Element.blueprint, eq_comm]
    | token own =>
      refine (Parses.fail _ _).congr fun texts p d texts' => ?_
      simp [plain, Element.blueprint]
    | node own parts =>
      refine (Parses.fail _ _).congr fun texts p d texts' => ?_
      simp [plain, Element.blueprint]
  · intro texts p t texts'
    constructor
    · rintro ⟨_, p, _, _, ⟨record, height, -⟩, ⟨⟨rfl, rfl⟩, rfl⟩, rfl⟩
      rw [List.append_nil]
      cases record with
      | trivia record => exact ⟨record, height⟩
    · rintro ⟨record, height⟩
      have isTrivia : t.kind.isTrivia = true := by
        cases record
        assumption
      exact ⟨.trivia t, p, [], _, ⟨.trivia record, height, isTrivia⟩,
        ⟨⟨rfl, rfl⟩, rfl⟩, (List.append_nil p).symm⟩

theorem triviaList_parses {levels : Nat} {inner : Inner}
    (reads : ReadsWithin depth limits levels inner) :
    Parses depth (triviaList inner) (List.Forall₂ Trivia.Realizes) fun texts p ts texts' =>
      Counted (TriviaRecord limits) texts p ts texts' ∧ ∀ t ∈ ts, 1 ≤ levels :=
  (counted_parses (triviaRecord_parses reads)).congr fun _ _ _ _ => counted_and_iff

theorem token_height_le_iff {kind : Kind} {missing : Bool} {text : String}
    {leading trailing : List TriviaBlueprint} {overlay : Overlay} {levels : Nat} :
    (Blueprint.token kind missing text leading trailing overlay).height ≤ levels + 1 ↔
      (∀ t ∈ leading, 1 ≤ levels) ∧ ∀ t ∈ trailing, 1 ≤ levels := by
  have some (ts : List TriviaBlueprint) : (∀ t ∈ ts, 1 ≤ levels) ↔ ts = [] ∨
      1 ≤ levels := by
    cases ts with
    | nil => simp
    | cons t ts =>
      exact ⟨fun h => .inr (h t List.mem_cons_self), fun h _ _ => h.resolve_left (by simp)⟩
  rw [some, some, Blueprint.height, ← List.isEmpty_iff, ← List.isEmpty_iff]
  cases leading.isEmpty <;> cases trailing.isEmpty <;> simp

theorem madeToken_parses {h : RecordHeader} (small : h.overlay.Addressable)
    (isToken : h.kind.isToken = true) (text : String) {ls ts : List Trivia}
    {leading trailing : List TriviaBlueprint}
    (allLeading : List.Forall₂ Trivia.Realizes ls leading)
    (allTrailing : List.Forall₂ Trivia.Realizes ts trailing) : Parses depth (do
      let cell ← freshCell
      return .token (← built
        (Token.make cell h.kind h.summary.missing text ls ts h.overlay)))
      Element.Realizes (plain fun d p =>
        d = .token h.kind h.summary.missing text leading trailing h.overlay ∧ p = [] ∧
          (Blueprint.token h.kind h.summary.missing text leading trailing h.overlay).width ≤
            maxSize) := by
  refine made_parses (fun cell t made => ?_) fun fits cell => ?_
  · have means := (Token.make_realizes small isToken allLeading allTrailing).1 t made
    exact ⟨means, means.width_le⟩
  · exact (Token.make_realizes small isToken allLeading allTrailing).2 fits

theorem tokenContents_eq (inner : Inner) {h : RecordHeader} (isToken : h.kind.isToken = true) :
    tokenContents limits inner h = (do
      let text ← text limits
      let leading ← triviaList inner
      let trailing ← triviaList inner
      let cell ← freshCell
      return .token (← built
        (Token.make cell h.kind h.summary.missing text leading trailing h.overlay))) := by
  unfold tokenContents
  simp only [isToken, Bool.not_true, Bool.false_eq_true, if_false, Token.ofParts_eq_make]

theorem tokenContents_parses {levels : Nat} {inner : Inner} {h : RecordHeader}
    (reads : ReadsWithin depth limits levels inner) (small : h.overlay.Addressable)
    (isToken : h.kind.isToken = true) :
    Parses depth (tokenContents limits inner h) Element.Realizes (Contents limits levels h) := by
  rw [tokenContents_eq inner isToken]
  refine Parses.congr ((text_parses limits).bindEq fun text => (triviaList_parses reads).bind
    fun ls leading allLeading => (triviaList_parses reads).bind fun ts trailing allTrailing =>
      madeToken_parses small isToken text allLeading allTrailing) fun texts p d texts' => ?_
  constructor
  · rintro ⟨text, p, _, _, spelled, ⟨leading, q, _, _, ⟨first, some⟩, ⟨trailing, r, _, _,
      ⟨second, some'⟩, ⟨⟨rfl, rfl, fits⟩, rfl⟩, rfl⟩, rfl⟩, rfl⟩
    rw [List.append_nil]
    exact .token isToken spelled first second fits (token_height_le_iff.2 ⟨some, some'⟩)
  · intro contents
    cases contents with
    | trivia isTrivia =>
      rw [Kind.isToken_of_isTrivia isTrivia] at isToken
      cases isToken
    | token _ spelled first second fits height =>
      obtain ⟨some, some'⟩ := token_height_le_iff.1 height
      exact ⟨_, _, _, _, spelled,
        ⟨_, _, _, _, ⟨first, some⟩, ⟨_, _, [], _, ⟨second, some'⟩,
        ⟨⟨rfl, rfl, fits⟩, rfl⟩, (List.append_nil _).symm⟩, rfl⟩, rfl⟩
    | node isNode =>
      rw [Kind.isNode_of_isToken isToken] at isNode
      cases isNode

theorem madeNode_parses {h : RecordHeader} (small : h.overlay.Addressable)
    (isNode : h.kind.isNode = true) {es : List Element} {children : List Blueprint}
    (shape : ∀ c ∈ children, c.isTrivia = false)
    (all : List.Forall₂ Element.Realizes es children) : Parses depth (do
      let cell ← freshCell
      return .node (← built (Node.make cell h.kind h.summary.missing es h.overlay)))
      Element.Realizes (plain fun d p =>
        d = .node h.kind h.summary.missing children h.overlay ∧ p = [] ∧
          (Blueprint.node h.kind h.summary.missing children h.overlay).width ≤ maxSize) := by
  refine made_parses (fun cell n made => ?_) fun fits cell => ?_
  · have means := (Node.make_realizes small isNode shape all).1 n made
    exact ⟨means, means.width_le⟩
  · exact (Node.make_realizes small isNode shape all).2 fits

theorem nodeContents_eq (inner : Inner) {h : RecordHeader} (isNode : h.kind.isNode = true) :
    nodeContents inner h = (do
      let children ← (do repeated (← length) (inner KindSet.children "node or token"))
      let cell ← freshCell
      return .node (← built (Node.make cell h.kind h.summary.missing children h.overlay))) := by
  unfold nodeContents
  simp only [isNode, Bool.not_true, Bool.false_eq_true, if_false, bind_assoc, Node.ofParts_eq_make]

theorem nodeContents_parses {levels : Nat} {inner : Inner} {h : RecordHeader}
    (reads : ReadsWithin depth limits levels inner) (small : h.overlay.Addressable)
    (isNode : h.kind.isNode = true) :
    Parses depth (nodeContents inner h) Element.Realizes (Contents limits levels h) := by
  rw [nodeContents_eq inner isNode]
  refine (((counted_parses (reads .children "node or token")).known
    (fun children => ∀ c ∈ children, c.isTrivia = false) ?_).bind
      fun es children means => madeNode_parses small isNode means.2 means.1).congr
        fun texts p d texts' => ?_
  · intro texts p children texts' counted
    exact counted.forall_mem fun _ _ _ _ within => within.1.contains_children_iff.1 within.2.2
  · constructor
    · rintro ⟨children, p, _, _, counted, ⟨⟨rfl, rfl, fits⟩, rfl⟩, rfl⟩
      rw [List.append_nil]
      exact .node isNode counted fits
    · intro contents
      cases contents with
      | trivia isTrivia =>
        rw [Kind.isNode_of_isTrivia isTrivia] at isNode
        cases isNode
      | token isToken =>
        rw [Kind.isNode_of_isToken isToken] at isNode
        cases isNode
      | node _ counted fits =>
        exact ⟨_, _, [], _, counted, ⟨⟨rfl, rfl, fits⟩, rfl⟩, (List.append_nil _).symm⟩

theorem contents_parses {levels : Nat} {inner : Inner} {h : RecordHeader}
    (reads : ReadsWithin depth limits levels inner) (small : h.overlay.Addressable) :
    Parses depth (contents limits inner h (.standard h.kind)) Element.Realizes
      (Contents limits levels h) := by
  rcases h.kind.class_cases with ⟨isTrivia, -, -⟩ | ⟨-, isToken, -⟩ | ⟨-, -, isNode⟩
  · rw [RecordReader.standard_of_isTrivia isTrivia]
    exact triviaContents_parses small isTrivia
  · rw [RecordReader.standard_of_isToken isToken]
    exact tokenContents_parses reads small isToken
  · rw [RecordReader.standard_of_isNode isNode]
    exact nodeContents_parses reads small isNode

/-- Whole records are parsed wherever records may still nest. -/
theorem record_parses {levels : Nat} (total : depth + levels = limits.maxDepth.toNat) :
    ReadsWithin depth limits levels (record .standard limits levels) := by
  obtain rfl : levels = limits.maxDepth.toNat - depth := by omega
  refine record_induction (motive := fun depth inner =>
    ReadsWithin depth limits (limits.maxDepth.toNat - depth) inner) ?_ ?_ total
  · intro allowed expected
    refine (Parses.fail _ _).congr fun texts p d texts' => ⟨False.elim, ?_⟩
    rintro ⟨-, height, -⟩
    have := d.height_pos
    omega
  · intro depth inner room reads allowed expected
    obtain ⟨levels, left⟩ : ∃ levels, limits.maxDepth.toNat - depth = levels + 1 :=
      ⟨_, (Nat.succ_pred (by omega)).symm⟩
    have small : depth < maxSize := limits.lt_maxSize room
    have below : ReadsWithin (depth + 1) limits levels inner := by
      rwa [show limits.maxDepth.toNat - (depth + 1) = levels by omega] at reads
    rw [left]
    refine Parses.congr (((header_parses .standard allowed expected room).known
      (fun opening => opening.2 = .standard opening.1.kind ∧ opening.1.overlay.Addressable)
      ?_).bind fun _ opening means => (?_ : Parses depth _ Element.Realizes
        (Contents limits levels opening.1))) fun texts p d texts' => ?_
    · rintro texts p opening texts' ⟨⟨-, found, heading⟩, -⟩
      exact ⟨(Option.some.inj found).symm, heading.addressable⟩
    · obtain ⟨rfl, standard, addressable⟩ := means
      rw [standard]
      exact Parses.after (visit_free _) fun _ =>
        nested_parses small (contents_parses below addressable)
    · rw [within_succ_iff]
      constructor
      · rintro ⟨opening, q, r, _, ⟨⟨hallowed, -, heading⟩, rfl⟩, contents, rfl⟩
        exact ⟨opening.1, q, r, hallowed, heading, contents, rfl⟩
      · rintro ⟨h, q, r, hallowed, heading, contents, rfl⟩
        exact ⟨(h, .standard h.kind), q, r, _, ⟨⟨hallowed, rfl, heading⟩, rfl⟩,
          contents, rfl⟩

theorem element_parses (open_ : depth ≤ limits.maxDepth.toNat) :
    ReadsWithin depth limits (limits.maxDepth.toNat - depth) (element .standard limits) := by
  intro allowed expected
  unfold element
  exact Parses.atDepth (record_parses (Nat.add_sub_cancel' open_) allowed expected)
    fun r level => by rw [level]

private theorem expect_parses {reader : Read α} {next : Read β} {view : β → δ → Prop}
    {phrase : Phrase δ} [BEq α] [LawfulBEq α] (a : α) (e : α → ReadError)
    {spelling : α → List UInt8 → Prop} (head : Parses depth reader Eq (plain spelling))
    (tail : Parses depth next view phrase) : Parses depth (do
      let b ← reader
      if b != a then fail (e b)
      next) view fun texts p d texts' => ∃ q r, spelling a q ∧ phrase texts r d texts' ∧
        p = q ++ r := by
  refine Parses.congr (head.bindEq fun b => (?_ : Parses depth _ view
    fun texts p d texts' => b = a ∧ phrase texts p d texts')) fun texts p d texts' => ?_
  · dsimp only
    split
    · rename_i other
      refine (Parses.fail_bind _ _ _).congr fun texts p d texts' => ⟨False.elim, ?_⟩
      rintro ⟨rfl, -⟩
      simp at other
    · rename_i same
      have same : b = a := by simpa using same
      exact tail.congr fun texts p d texts' => ⟨fun h => ⟨same, h⟩, And.right⟩
  · constructor
    · rintro ⟨_, q, r, _, ⟨spelled, rfl⟩, ⟨rfl, behind⟩, rfl⟩
      exact ⟨q, r, spelled, behind, rfl⟩
    · rintro ⟨q, r, spelled, behind, rfl⟩
      exact ⟨a, q, r, _, ⟨spelled, rfl⟩, ⟨rfl, behind⟩, rfl⟩

theorem tree_parses (limits : Limits) : Parses 0 (tree .standard limits) Element.Realizes
    fun texts p d texts' => ∃ q, p = streamMagic ++ (UInt8.ofNat streamVersion :: q) ∧
      Record limits texts q d texts' ∧ d.height ≤ limits.maxDepth.toNat := by
  unfold tree
  refine (expect_parses streamMagic (fun _ => .badMagic) (take_parses 4)
    (expect_parses streamVersion .unsupportedVersion (fixed_parses 1)
      (element_parses (Nat.zero_le _) .all "green"))).congr fun texts p d texts' => ?_
  constructor
  · rintro ⟨_, _, ⟨rfl, -⟩, ⟨_, q, ⟨-, rfl⟩, ⟨record, height, -⟩, rfl⟩, rfl⟩
    exact ⟨q, rfl, record, height⟩
  · rintro ⟨q, rfl, record, height⟩
    exact ⟨_, _, ⟨rfl, rfl⟩, ⟨_, q, ⟨by decide, rfl⟩,
      ⟨record, height, KindSet.contains_all _⟩, rfl⟩, rfl⟩

theorem ready_start (bytes : List UInt8) (cell : Nat) :
    Ready 0 { rest := bytes, nextCell := cell } :=
  ⟨rfl, Interner.sound_empty⟩

theorem exists_stream_of_tree {bytes : List UInt8} {cell : Nat} {t : Element} {session : Reader}
    (read : tree .standard limits { rest := bytes, nextCell := cell } = .ok t session) :
    ∃ p d, bytes = p ++ session.rest ∧ Stream limits p d ∧ t.Realizes d := by
  obtain ⟨-, p, d, means, ⟨q, rfl, record, height⟩, split⟩ :=
    (tree_parses limits).sound (ready_start bytes cell) read
  exact ⟨_, d, split, .mk record height, means⟩

theorem exists_tree_of_stream {p : List UInt8} {d : Blueprint} (stream : Stream limits p d)
    (suffix : List UInt8) (cell : Nat) : ∃ t session,
      tree .standard limits { rest := p ++ suffix, nextCell := cell } = .ok t session ∧
        session.rest = suffix ∧ t.Realizes d := by
  obtain ⟨record, height⟩ := stream
  obtain ⟨t, session, read, means, -, rest⟩ := (tree_parses limits).complete
    (ready_start (_ ++ suffix) cell) ⟨_, rfl, record, height⟩ rfl
  exact ⟨t, session, read, rest, means⟩

/-- The reader accepts exactly the streams of the grammar, leaves what stands behind them, and gives
what they denote. -/
theorem tree_ok_iff_stream (limits : Limits) (cell : Nat) (bytes suffix : List UInt8)
    (t : Element) :
    (∃ t' session, tree .standard limits { rest := bytes, nextCell := cell } = .ok t' session ∧
      session.rest = suffix ∧ t'.Verbatim t) ↔
    ∃ p d, bytes = p ++ suffix ∧ Stream limits p d ∧ t.content = d.element := by
  constructor
  · rintro ⟨t', session, read, rfl, same⟩
    obtain ⟨p, d, split, stream, sound, rfl⟩ := exists_stream_of_tree read
    refine ⟨p, _, split, stream, ?_⟩
    rw [← sound.content_eq]
    exact same.symm
  · rintro ⟨p, d, rfl, stream, same⟩
    obtain ⟨t', session, read, rest, sound, rfl⟩ := exists_tree_of_stream stream suffix cell
    refine ⟨t', session, read, rest, ?_⟩
    rw [Element.Verbatim, same, sound.content_eq]

end GreenTree.Reader
