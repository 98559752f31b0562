import GreenTree.Proofs.Obtained
import GreenTree.Proofs.Occurrences

/-!
Writers against the grammar. What a writer has written when it succeeds is a phrase of the grammar
for what it was given, and its table of texts is the one that a reader has at the same place. So
what is written is read back.
-/

namespace GreenTree

namespace StringTable

private theorem index?_eq (t : StringTable) (text : String) :
    t.index? text = t.entries.toList.idxOf? text := by
  rw [index?, ← List.idxOf?_toArray, Array.toArray_toList]

theorem getElem?_of_index? {t : StringTable} {text : String} {index : Nat}
    (found : t.index? text = some index) : t.entries.toList[index]? = some text := by
  rw [index?_eq] at found
  obtain ⟨bound, there, -⟩ := List.idxOf?_eq_some_iff.1 found
  exact List.getElem?_eq_some_iff.2 ⟨bound, there⟩

theorem index?_eq_none_iff {t : StringTable} {text : String} :
    t.index? text = none ↔ text ∉ t.entries.toList := by
  rw [index?_eq]
  exact List.idxOf?_eq_none_iff

end StringTable

theorem ByteSink.toList_write {sink : ByteSink} {bs : List UInt8}
    (complete : (sink.write bs).2 = true) :
    (sink.write bs).1.written.toList = sink.written.toList ++ bs := by
  obtain ⟨taken, room⟩ := sink
  cases room with
  | none => simp [write]
  | some room =>
    by_cases fits : bs.length ≤ room
    · simp [write, fits]
    · simp [write, fits] at complete

namespace Writer

open Grammar

variable {α β : Type} {limits : Limits}

def texts (w : Writer) : List String := w.strings.entries.toList

def written (w : Writer) : List UInt8 := w.sink.written.toList

theorem texts_push (w : Writer) (s : String) :
    ({ w with strings := w.strings.push s } : Writer).texts = w.texts ++ [s] :=
  Array.toList_push

/-- Whether the texts are those that a reader of the bytes knows; a writer that does not share texts
keeps none. -/
structure Knows (limits : Limits) (texts : List String) (w : Writer) : Prop where
  same : limits.shareStrings = true → w.texts = texts
  few : w.texts.length ≤ Bytes.capacity 4

/-- Whether a step that succeeds has written a phrase behind the texts that are known. -/
structure Emits (limits : Limits) (step : Write α)
    (phrase : List String → List UInt8 → List String → Prop) : Prop where
  of_ok : ∀ {texts w a w'}, Knows limits texts w → step w = .ok a w' →
    ∃ p texts', w'.written = w.written ++ p ∧ phrase texts p texts' ∧ Knows limits texts' w'

namespace Emits

theorem bind {step : Write α} {next : α → Write β}
    {first second : List String → List UInt8 → List String → Prop}
    (head : Emits limits step first) (tail : ∀ a, Emits limits (next a) second) :
    Emits limits (step >>= next) fun texts p texts'' => ∃ q r texts', first texts q texts' ∧
    second texts' r texts'' ∧
        p = q ++ r := by
  constructor
  intro texts w b w'' knows run
  obtain ⟨a, w', run, rest⟩ := EStateM.bind_eq_ok_iff.1 run
  obtain ⟨q, texts', written, phrase, knows'⟩ := head.of_ok knows run
  obtain ⟨r, texts'', written', phrase', knows''⟩ := (tail a).of_ok knows' rest
  exact ⟨q ++ r, texts'', by rw [written', written, List.append_assoc],
    ⟨q, r, texts', phrase, phrase', rfl⟩, knows''⟩

theorem mono {step : Write α}
    {phrase phrase' : List String → List UInt8 → List String → Prop}
    (emits : Emits limits step phrase)
    (weaker : ∀ texts p texts', phrase texts p texts' → phrase' texts p texts') :
    Emits limits step phrase' := by
  constructor
  intro texts w a w' knows run
  obtain ⟨p, texts', written, spelled, knows'⟩ := emits.of_ok knows run
  exact ⟨p, texts', written, weaker _ _ _ spelled, knows'⟩

theorem pure (a : α) : Emits limits (pure a) fun texts p texts' => p = [] ∧ texts' = texts := by
  constructor
  intro texts w b w' knows run
  obtain ⟨-, rfl⟩ := EStateM.pure_eq_ok_iff.1 run
  exact ⟨[], texts, (List.append_nil _).symm, ⟨rfl, rfl⟩, knows⟩

end Emits

theorem bytes_eq_ok {bs : List UInt8} {w w' : Writer} {u : Unit} (run : bytes bs w = .ok u w') :
    w'.written = w.written ++ bs ∧ w'.texts = w.texts := by
  simp only [bytes] at run
  split at run
  · rename_i complete
    cases run
    exact ⟨ByteSink.toList_write complete, rfl⟩
  · cases run

theorem length_eq_ok {n : Nat} {w w' : Writer} {u : Unit} (run : length n w = .ok u w') :
    n < Bytes.capacity 4 ∧ w'.written = w.written ++ Bytes.littleEndian 4 n ∧
      w'.texts = w.texts := by
  unfold length at run
  split at run
  · rename_i small
    exact ⟨small, bytes_eq_ok run⟩
  · cases run

theorem block_eq_ok {bs : List UInt8} {w w' : Writer} {u : Unit}
    (run : block limits bs w = .ok u w') : bs.length ≤ limits.maxOverlayBytes.toNat ∧
      w'.written = w.written ++ bs ∧ w'.texts = w.texts := by
  simp only [block] at run
  split at run
  · cases run
  · rename_i within
    split at run
    · rename_i wrote
      cases run
      exact ⟨Nat.le_of_not_lt within, bytes_eq_ok wrote⟩
    · cases run
    · cases run

theorem text_eq_ok {s : String} {w w' : Writer} {u : Unit} (run : text limits s w = .ok u w') :
    s.utf8ByteSize ≤ limits.maxStringLength.toNat ∧
      ((∃ index, limits.shareStrings = true ∧ w.texts[index]? = some s ∧
          w'.written = w.written ++ 1 :: Bytes.littleEndian 4 index ∧ w'.texts = w.texts) ∨
        (w'.written = w.written ++ 0 :: (Bytes.littleEndian 4 s.utf8ByteSize ++ Utf8.encode s) ∧
          (limits.shareStrings = false → w'.texts = w.texts) ∧
          (limits.shareStrings = true → s ∉ w.texts ∧ w.texts.length < Bytes.capacity 4 ∧
            w'.texts = w.texts ++ [s]))) := by
  unfold text at run
  dsimp only at run
  split at run
  · obtain ⟨_, _, thrown, -⟩ := EStateM.bind_eq_ok_iff.1 run
    cases thrown
  rename_i long
  refine ⟨Nat.le_of_not_lt long, ?_⟩
  obtain ⟨_, _, read, run⟩ := EStateM.bind_eq_ok_iff.1 run
  cases read
  cases found : (if limits.shareStrings = true then w.strings.index? s else none) with
  | some index =>
    simp only [found] at run
    obtain ⟨_, w₁, first, second⟩ := EStateM.bind_eq_ok_iff.1 run
    obtain ⟨behind₁, same₁⟩ := bytes_eq_ok first
    obtain ⟨behind₂, same₂⟩ := bytes_eq_ok second
    obtain ⟨share, found⟩ : limits.shareStrings = true ∧ w.strings.index? s = some index := by
      simpa using found
    refine .inl ⟨index, share, StringTable.getElem?_of_index? found, ?_, same₂.trans same₁⟩
    rw [behind₂, behind₁, List.append_assoc]
    rfl
  | none =>
    simp only [found] at run
    obtain ⟨_, w₁, first, run⟩ := EStateM.bind_eq_ok_iff.1 run
    obtain ⟨_, w₂, second, run⟩ := EStateM.bind_eq_ok_iff.1 run
    obtain ⟨_, w₃, third, last⟩ := EStateM.bind_eq_ok_iff.1 run
    obtain ⟨behind₁, same₁⟩ := bytes_eq_ok first
    obtain ⟨-, behind₂, same₂⟩ := length_eq_ok second
    obtain ⟨behind₃, same₃⟩ := bytes_eq_ok third
    have same : w₃.texts = w.texts := same₃.trans (same₂.trans same₁)
    have behind : w₃.written = w.written ++
        0 :: (Bytes.littleEndian 4 s.utf8ByteSize ++ Utf8.encode s) := by
      rw [behind₃, behind₂, behind₁]
      simp [inlineTag]
    cases share : limits.shareStrings with
    | false =>
      simp only [share, Bool.false_eq_true, if_false] at last
      cases last
      exact .inr ⟨behind, fun _ => same, nofun⟩
    | true =>
      have new : s ∉ w.texts := StringTable.index?_eq_none_iff.1 (by simpa [share] using found)
      simp only [share, if_true] at last
      split at last
      · rename_i room
        cases last
        exact .inr ⟨behind, nofun, fun _ => ⟨new, room, same ▸ w₃.texts_push s⟩⟩
      · cases last

private theorem Knows.of_same {texts : List String} {w w' : Writer} (knows : Knows limits texts w)
    (same : w'.texts = w.texts) : Knows limits texts w' :=
  ⟨fun share => same ▸ knows.same share, same ▸ knows.few⟩

theorem bytes_emits (bs : List UInt8) :
    Emits limits (bytes bs) fun texts p texts' => p = bs ∧ texts' = texts := by
  constructor
  intro texts w _ w' knows run
  obtain ⟨behind, same⟩ := bytes_eq_ok run
  exact ⟨bs, texts, behind, ⟨rfl, rfl⟩, knows.of_same same⟩

theorem fixed_emits (width n : Nat) : Emits limits (fixed width n)
    fun texts p texts' => p = Bytes.littleEndian width n ∧ texts' = texts :=
  bytes_emits _

theorem flag_emits (b : Bool) :
    Emits limits (flag b) fun texts p texts' => p = [b.toUInt8] ∧ texts' = texts :=
  (fixed_emits 1 b.toNat).mono fun _ _ _ => by cases b <;> exact id

theorem length_emits (n : Nat) : Emits limits (length n) fun texts p texts' =>
    n < Bytes.capacity 4 ∧ p = Bytes.littleEndian 4 n ∧ texts' = texts := by
  constructor
  intro texts w _ w' knows run
  obtain ⟨small, behind, same⟩ := length_eq_ok run
  exact ⟨_, texts, behind, ⟨small, rfl, rfl⟩, knows.of_same same⟩

theorem block_emits (limits : Limits) (bs : List UInt8) : Emits limits (block limits bs)
    fun texts p texts' => p = bs ∧ bs.length ≤ limits.maxOverlayBytes.toNat ∧
    texts' = texts := by
  constructor
  intro texts w _ w' knows run
  obtain ⟨within, behind, same⟩ := block_eq_ok run
  exact ⟨bs, texts, behind, ⟨rfl, within, rfl⟩, knows.of_same same⟩

def learn (limits : Limits) (texts : List String) (s : String) : List String :=
  if limits.shareStrings = true ∧ s ∈ texts then texts else texts ++ [s]

theorem text_learns (limits : Limits) (s : String) :
    Emits limits (text limits s) fun texts p texts' =>
      Text limits texts p s texts' ∧ texts' = learn limits texts s := by
  constructor
  intro texts w _ w' knows run
  obtain ⟨short, ⟨index, share, there, behind, same⟩ | ⟨behind, unshared, shared⟩⟩ :=
    text_eq_ok run
  · have bound : index < w.texts.length := (List.getElem?_eq_some_iff.1 there).1
    rw [knows.same share] at there
    have old : learn limits texts s = texts := if_pos ⟨share, List.mem_of_getElem? there⟩
    exact ⟨_, texts, behind,
      ⟨.reference (Nat.lt_of_lt_of_le bound knows.few) there, old.symm⟩, knows.of_same same⟩
  · cases share : limits.shareStrings with
    | false =>
      have spelled : learn limits texts s = texts ++ [s] := if_neg fun h => by
        rw [share] at h; cases h.1
      refine ⟨_, texts ++ [s], behind, ⟨.inline short, spelled.symm⟩, fun h => ?_,
        (knows.of_same (unshared share)).few⟩
      rw [share] at h
      cases h
    | true =>
      obtain ⟨new, room, grown⟩ := shared share
      have spelled : learn limits texts s = texts ++ [s] :=
        if_neg fun h => new (knows.same share ▸ h.2)
      refine ⟨_, texts ++ [s], behind, ⟨.inline short, spelled.symm⟩,
        fun _ => by rw [grown, knows.same share], ?_⟩
      rw [grown, List.length_append, List.length_singleton]
      exact room

theorem text_emits (limits : Limits) (s : String) :
    Emits limits (text limits s) fun texts p texts' => Text limits texts p s texts' :=
  (text_learns limits s).mono fun _ _ _ => And.left

def attached (limits : Limits) (absent : Bool) (bs : List UInt8) : Write Unit := do
  flag !absent
  if !absent then block limits bs

theorem head_eq (limits : Limits) (h : Head) : head limits h = (do
    fixed 2 h.kind.tag
    fixed 2 h.summary.bits
    attached limits h.overlay.diagnostics.isEmpty
      (OverlayBlock.encodeDiagnostics h.overlay.diagnostics)
    attached limits h.overlay.annotations.isEmpty
      (OverlayBlock.encodeAnnotations h.overlay.annotations)) := by
  unfold head attached diagnostics annotations
  cases h.overlay.diagnostics.isEmpty <;> cases h.overlay.annotations.isEmpty <;>
    simp [bind_assoc]

private theorem attached_emits {members : List α} {member : α → List UInt8 → Prop}
    {bs : List UInt8}
    (spelled : bs.length < Bytes.capacity 8 → OverlayBlock.ListSpelling member members bs) :
    Emits limits
        (attached limits members.isEmpty bs)
        fun texts p texts' => Attached limits member members p ∧ texts' = texts := by
  cases members with
  | nil =>
    exact ((flag_emits false).bind fun _ => .pure ()).mono fun texts p texts' => by
      rintro ⟨_, _, _, ⟨rfl, rfl⟩, ⟨rfl, rfl⟩, rfl⟩
      exact ⟨.absent, rfl⟩
  | cons a as =>
    exact ((flag_emits true).bind fun _ => block_emits limits bs).mono fun texts p texts' => by
      rintro ⟨_, _, _, ⟨rfl, rfl⟩, ⟨rfl, within, rfl⟩, rfl⟩
      have small := Nat.lt_of_le_of_lt within limits.maxOverlayBytes.toNat_lt
      exact ⟨.present (spelled small) within, rfl⟩

theorem head_emits (limits : Limits) {h : Head} (small : h.overlay.Addressable) :
    Emits limits (head limits h) fun texts p texts' =>
      Header limits h.kind h.summary.missing h.overlay p ∧ texts' = texts := by
  obtain ⟨diagnostics, annotations⟩ := Overlay.addressable_iff.1 small
  rw [head_eq]
  refine ((fixed_emits 2 _).bind fun _ => (fixed_emits 2 _).bind fun _ =>
    (attached_emits (OverlayBlock.encodeDiagnostics_spelling diagnostics)).bind fun _ =>
      attached_emits (OverlayBlock.encodeAnnotations_spelling annotations)).mono
        fun texts p texts' => ?_
  rintro ⟨_, _, _, ⟨rfl, rfl⟩,
    ⟨_, _, _, ⟨rfl, rfl⟩, ⟨q, r, _, ⟨first, rfl⟩, ⟨second, rfl⟩, rfl⟩,
    rfl⟩, rfl⟩
  have word : h.summary.bits < Bytes.capacity 2 := Nat.lt_trans h.summary.bits_lt (by decide)
  exact ⟨h.summary.testBit_bits_zero ▸ .mk word first second, rfl⟩

theorem begin_emits (limits : Limits) (kind : Kind) :
    Emits limits (begin kind) fun texts p texts' => p = [] ∧ texts' = texts := by
  constructor
  intro texts w _ w' knows run
  cases run
  exact ⟨[], texts, (List.append_nil _).symm, ⟨rfl, rfl⟩, ⟨knows.same, knows.few⟩⟩

/-- Whether a step that succeeds has written a phrase with some texts in it. -/
abbrev Learns (limits : Limits) (step : Write α) (told : List String)
    (phrase : List String → List UInt8 → List String → Prop) : Prop :=
  Emits limits step fun texts p texts' => phrase texts p texts' ∧
    texts' = told.foldl (learn limits) texts

theorem trivia_learns (limits : Limits) {t : Trivia} (sound : t.Sound) :
    Learns limits (trivia limits t) [t.text] fun texts p texts' =>
      TriviaRecord limits texts p t.blueprint texts' := by
  refine ((begin_emits limits _).bind fun _ => (head_emits limits sound.overlay).bind fun _ =>
    text_learns limits t.text).mono fun texts p texts' => ?_
  rintro ⟨_, _, _, ⟨rfl, rfl⟩,
    ⟨q, r, _, ⟨header, rfl⟩, ⟨spelled, rfl⟩, rfl⟩, rfl⟩
  rw [List.nil_append]
  exact ⟨.mk sound.kind header spelled (Trivia.Realizes.width_le ⟨sound, rfl⟩), rfl⟩

private theorem forM_learns {item : α → Write Unit} {phrase : Phrase β} {view : α → β}
    {told : α → List String} {as : List α}
    (each : ∀ a ∈ as, Learns limits (item a) (told a) fun texts p texts' =>
      phrase texts p (view a) texts') :
    Learns limits (as.forM item) (as.flatMap told) fun texts p texts' =>
      Many phrase texts p (as.map view) texts' := by
  induction as with
  | nil =>
    refine (Emits.pure ()).mono fun texts p texts' => ?_
    rintro ⟨rfl, rfl⟩
    exact ⟨.nil, rfl⟩
  | cons a as ih =>
    obtain ⟨first, others⟩ := List.forall_mem_cons.1 each
    refine (first.bind fun _ => ih others).mono fun texts p texts' => ?_
    rintro ⟨q, r, _, ⟨head, rfl⟩, ⟨tail, rfl⟩, rfl⟩
    exact ⟨.cons head tail, by rw [List.flatMap_cons, List.foldl_append]⟩

theorem triviaList_learns (limits : Limits) {ts : List Trivia} (sound : ∀ t ∈ ts, t.Sound) :
    Learns limits (triviaList limits ts) (ts.map Trivia.text) fun texts p texts' =>
      Counted (TriviaRecord limits) texts p (ts.map Trivia.blueprint) texts' := by
  have each : ∀ t ∈ ts, Learns limits (trivia limits t) [t.text] fun texts p texts' =>
      TriviaRecord limits texts p t.blueprint texts' := fun t h => trivia_learns limits (sound t h)
  rw [triviaList, List.map_eq_flatMap]
  refine ((length_emits _).bind fun _ => forM_learns each).mono fun texts p texts' => ?_
  rintro ⟨_, r, _, ⟨small, rfl, rfl⟩, ⟨many, rfl⟩, rfl⟩
  have counted := Counted.mk (by rwa [List.length_map]) many
  rw [List.length_map] at counted
  exact ⟨counted, rfl⟩

theorem elements_eq (limits : Limits) (cs : List Element) :
    elements limits cs = cs.forM (element limits) := by
  induction cs with
  | nil => rfl
  | cons c cs ih =>
    rw [elements, ih]
    rfl

/-- What is written for a sound element is a record of what it was made from, with the texts of the
element in it. -/
theorem element_learns (limits : Limits) {e : Element} (sound : e.Sound) :
    Learns limits (element limits e) e.texts fun texts p texts' =>
      Record limits texts p e.blueprint texts' := by
  have width := Element.Realizes.width_le ⟨sound, rfl⟩
  induction sound with
  | @node n own parts ih =>
    have each : ∀ c ∈ n.children, Learns limits (element limits c) c.texts fun texts p texts' =>
        Record limits texts p c.blueprint texts' :=
      fun c h => ih c h (Element.Realizes.width_le ⟨parts c h, rfl⟩)
    rw [element, elements_eq, Element.texts_node]
    refine ((begin_emits limits _).bind fun _ => (head_emits limits own.overlay).bind fun _ =>
      (length_emits _).bind fun _ => forM_learns each).mono fun texts p texts' => ?_
    rintro ⟨_, _, _, ⟨rfl, rfl⟩,
      ⟨q, _, _, ⟨header, rfl⟩, ⟨_, r, _, ⟨small, rfl, rfl⟩, ⟨many, rfl⟩, rfl⟩,
      rfl⟩, rfl⟩
    rw [List.nil_append]
    have shape : ∀ d ∈ n.children.map Element.blueprint, d.isTrivia = false := by
      simpa using own.shape
    have record := Record.node own.kind header shape (by rwa [List.length_map]) many
      (by simpa [Element.blueprint] using width)
    exact ⟨by simpa [Element.blueprint] using record, rfl⟩
  | @token t own =>
    rw [element, token, Element.texts_token]
    refine ((begin_emits limits _).bind fun _ => (head_emits limits own.overlay).bind fun _ =>
      (text_learns limits _).bind fun _ => (triviaList_learns limits own.leading).bind fun _ =>
        triviaList_learns limits own.trailing).mono fun texts p texts' => ?_
    rintro ⟨_, _, _, ⟨rfl, rfl⟩,
      ⟨q, _, _, ⟨header, rfl⟩, ⟨_, _, _, ⟨spelled, rfl⟩, ⟨_, _, _, ⟨leading, rfl⟩,
      ⟨trailing, rfl⟩, rfl⟩, rfl⟩, rfl⟩, rfl⟩
    rw [List.nil_append]
    exact ⟨.token own.kind header spelled leading trailing width,
      by rw [List.foldl_cons, List.foldl_append]⟩
  | trivia own => exact (trivia_learns limits own).mono fun _ _ _ h => ⟨.trivia h.1, h.2⟩

theorem element_emits (limits : Limits) {e : Element} (sound : e.Sound) :
    Emits limits (element limits e) fun texts p texts' =>
      Record limits texts p e.blueprint texts' :=
  (element_learns limits sound).mono fun _ _ _ => And.left

theorem stream_of_tree {w r : Limits} {room : Option Nat} {e : Element} (sound : e.Sound)
    {out : Writer} (run : tree w e { sink := { room } } = .ok () out)
    (strings : w.maxStringLength ≤ r.maxStringLength)
    (blocks : w.maxOverlayBytes ≤ r.maxOverlayBytes)
    (depth : e.recordHeight ≤ r.maxDepth.toNat) : Stream r out.written e.blueprint := by
  have start : Knows w [] { sink := { room } } := ⟨fun _ => rfl, Nat.zero_le _⟩
  obtain ⟨_, _, behind,
    ⟨_, _, _, ⟨rfl, rfl⟩, ⟨_, p, _, ⟨rfl, rfl⟩, record, rfl⟩, rfl⟩, -⟩ :=
    ((bytes_emits streamMagic).bind fun _ => (fixed_emits 1 streamVersion).bind fun _ =>
      element_emits w sound).of_ok start run
  have all : out.written = streamMagic ++ (UInt8.ofNat streamVersion :: p) := behind
  rw [all]
  exact .mk (record.widen strings blocks) depth

end Writer

/-- A tree that is written is read back as it was, and what stands behind it is left. -/
theorem Element.Obtained.read_written {e : Element} (obtained : e.Obtained) {w r : Limits}
    {room : Option Nat} {out : Writer}
    (written : Writer.tree w e { sink := { room } } = .ok () out)
    (strings : w.maxStringLength ≤ r.maxStringLength)
    (blocks : w.maxOverlayBytes ≤ r.maxOverlayBytes)
    (depth : e.recordHeight ≤ r.maxDepth.toNat) (suffix : List UInt8) (cell : Nat) :
    ∃ e' session, Reader.tree .standard r
      { rest := out.sink.written.toList ++ suffix, nextCell := cell } = .ok e' session ∧
        session.rest = suffix ∧ e'.Verbatim e := by
  have stream := Writer.stream_of_tree obtained.sound written strings blocks depth
  obtain ⟨e', session, read, rest, sound, same⟩ :=
    Reader.exists_tree_of_stream stream suffix cell
  exact ⟨e', session, read, rest, sound.verbatim obtained.sound same⟩

/-- A comma with a mark on it, between two blanks that share their text. -/
def Element.markedComma : Element :=
  let blank : Trivia := ⟨0, ⟨.whitespaceTrivia, {}, 1, .empty⟩, " "⟩
  .token ⟨2,
  ⟨.comma, { annotations := true }, 3, { annotations := [⟨7, some "mark", none⟩] }⟩,
    ",", [blank], [blank], 1, 1⟩

theorem Element.obtained_markedComma : markedComma.Obtained := by
  have madeBlank : Trivia.make 0 .whitespaceTrivia " " .empty =
      .ok ⟨0, ⟨.whitespaceTrivia, {}, 1, .empty⟩, " "⟩ := rfl
  have blank := Obtained.trivia Overlay.addressable_empty madeBlank
  have madeComma : Token.make 1 .comma false ","
      [⟨0, ⟨.whitespaceTrivia, {}, 1, .empty⟩, " "⟩]
      [⟨0, ⟨.whitespaceTrivia, {}, 1, .empty⟩, " "⟩] .empty =
        .ok ⟨1, ⟨.comma, {}, 3, .empty⟩, ",",
          [⟨0, ⟨.whitespaceTrivia, {}, 1, .empty⟩, " "⟩],
          [⟨0, ⟨.whitespaceTrivia, {}, 1, .empty⟩, " "⟩], 1, 1⟩ := rfl
  have comma := Obtained.token (by simpa using blank) (by simpa using blank) madeComma
  have small : Overlay.Addressable { annotations := [⟨7, some "mark", none⟩] } := by
    rw [Overlay.addressable_iff]
    decide
  exact .withAnnotations comma small
    (show Element.withAnnotations 2 _ [⟨7, some "mark", none⟩] = .ok markedComma from rfl)

theorem Element.read_written_markedComma : ∃ out,
    Writer.tree .standard markedComma { sink := { room := some 57 } } = .ok () out ∧
      ∃ e' session, Reader.tree .standard { maxDepth := 2 }
        { rest := out.sink.written.toList ++ [255], nextCell := 9 } = .ok e' session ∧
          session.rest = [255] ∧ e'.Verbatim markedComma := by
  have fits : (Writer.tree .standard markedComma).run' { sink := { room := some 57 } } =
      some () := by decide +kernel
  unfold EStateM.run' at fits
  split at fits
  · rename_i out run
    exact ⟨out, run, obtained_markedComma.read_written run (by decide) (by decide) (by decide)
      [255] 9⟩
  · cases fits

end GreenTree
