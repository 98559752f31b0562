import GreenTree.Proofs.Stream.Writable

/-!
The writer against every stream that is accepted. Whatever mixture of spelled texts and references,
of empty blocks and wide numbers a stream is made of, a writer that shares texts writes the same
tree in no more bytes, within the same limits. It is compared with the stream record by record: its
table always has every text that the stream has spelled out so far.
-/

namespace GreenTree

namespace Writer

open Grammar

variable {limits : Limits}

/-- What holds of a session that is compared with a stream: it has no end, its table has no text
twice, all texts in it are within the limit, and it has every text that the stream refers to by
number. -/
structure Ahead (limits : Limits) (texts : List String) (w : Writer) : Prop where
  endless : w.sink.room = none
  distinct : w.texts.Nodup
  short : ∀ text ∈ w.texts, text.utf8ByteSize ≤ limits.maxStringLength.toNat
  known : ∀ text ∈ texts, text ∈ w.texts

theorem Ahead.opened {texts : List String} {w : Writer} (ahead : Ahead limits texts w) : w.Open :=
  ⟨ahead.endless, ahead.distinct⟩

/-- Whether a step succeeds in a number of bytes wherever there is room for texts of a number of
bytes. -/
structure Affords (limits : Limits) (step : Write Unit) (texts : List String) (cost width : Nat)
    (texts' : List String) : Prop where
  exists_ok : ∀ {w}, Ahead limits texts w → bytesIn w.texts + width ≤ maxSize → ∃ w',
    step w = .ok () w' ∧ Ahead limits texts' w' ∧
      bytesIn w'.texts ≤ bytesIn w.texts + width ∧
      w'.written.length ≤ w.written.length + cost

namespace Affords

theorem bind {step next : Write Unit} {texts texts' texts'' : List String}
    {cost cost' width width' : Nat} (head : Affords limits step texts cost width texts')
    (tail : Affords limits next texts' cost' width' texts'') :
    Affords limits (do step; next) texts (cost + cost') (width + width') texts'' := by
  constructor
  intro w ahead fits
  obtain ⟨w', run, ahead', grown, length⟩ := head.exists_ok ahead (by omega)
  obtain ⟨w'', run', ahead'', grown', length'⟩ := tail.exists_ok ahead' (by omega)
  exact ⟨w'', EStateM.bind_eq_ok_iff.2 ⟨(), w', run, run'⟩, ahead'', by omega, by omega⟩

theorem weaken {step : Write Unit} {texts texts' : List String} {cost cost' width width' : Nat}
    (affords : Affords limits step texts cost width texts') (low : cost ≤ cost')
    (narrow : width ≤ width') : Affords limits step texts cost' width' texts' := by
  constructor
  intro w ahead fits
  obtain ⟨w', run, ahead', grown, length⟩ := affords.exists_ok ahead (by omega)
  exact ⟨w', run, ahead', by omega, by omega⟩

theorem pure (texts : List String) : Affords limits (pure ()) texts 0 0 texts := by
  constructor
  intro w ahead _
  exact ⟨w, rfl, ahead, Nat.le_refl _, Nat.le_refl _⟩

end Affords

theorem bytes_affords (texts : List String) (bs : List UInt8) :
    Affords limits (bytes bs) texts bs.length 0 texts := by
  constructor
  intro w ahead _
  obtain ⟨w', run, endless, same, behind⟩ := bytes_endless ahead.endless bs
  exact ⟨w', run,
    ⟨endless, same ▸ ahead.distinct, same ▸ ahead.short, same ▸ ahead.known⟩,
    Nat.le_of_eq (congrArg bytesIn same), Nat.le_of_eq (by rw [behind, List.length_append])⟩

theorem fixed_affords (texts : List String) (width n : Nat) :
    Affords limits (fixed width n) texts width 0 texts := by
  have length : (Bytes.littleEndian width n).length = width := Bytes.length_littleEndian width n
  exact (bytes_affords texts (Bytes.littleEndian width n)).weaken (Nat.le_of_eq length)
    (Nat.le_refl 0)

theorem length_affords (texts : List String) {n : Nat} (small : n < Bytes.capacity 4) :
    Affords limits (length n) texts 4 0 texts := by
  rw [length, if_pos small]
  exact fixed_affords texts 4 n

theorem flag_affords (texts : List String) (b : Bool) :
    Affords limits (flag b) texts 1 0 texts :=
  fixed_affords texts 1 b.toNat

theorem begin_affords (texts : List String) (kind : Kind) :
    Affords limits (begin kind) texts 0 0 texts := by
  constructor
  intro w ahead _
  exact ⟨{ w with records := w.records.push kind }, rfl,
    ⟨ahead.endless, ahead.distinct, ahead.short, ahead.known⟩, Nat.le_refl _, Nat.le_refl _⟩

theorem block_affords (texts : List String) {bs : List UInt8}
    (within : bs.length ≤ limits.maxOverlayBytes.toNat) :
    Affords limits (block limits bs) texts bs.length 0 texts := by
  constructor
  intro w ahead fits
  obtain ⟨w', run, rest⟩ := (bytes_affords texts bs).exists_ok ahead fits
  refine ⟨w', ?_, rest⟩
  simp only [block, Nat.not_lt.2 within, if_false, run]

theorem text_affords (share : limits.shareStrings = true) {texts texts' : List String}
    {p : List UInt8} {s : String} (spelled : Text limits texts p s texts') :
    Affords limits (text limits s) texts p.length s.utf8ByteSize texts' := by
  constructor
  intro w ahead fits
  have five : 5 ≤ p.length := by cases spelled <;> simp
  cases found : w.strings.index? s with
  | some index =>
    have short := ahead.short s (List.mem_of_getElem? (StringTable.getElem?_of_index? found))
    obtain ⟨w', run, endless, same, length⟩ := reference_endless ahead.endless short share found
    have mem : s ∈ w.texts := List.mem_of_getElem? (StringTable.getElem?_of_index? found)
    have known : ∀ text ∈ texts', text ∈ w.texts := by
      cases spelled with
      | inline _ =>
        intro text h
        rcases List.mem_append.1 h with h | h
        · exact ahead.known text h
        · exact List.mem_singleton.1 h ▸ mem
      | reference _ _ => exact ahead.known
    refine ⟨w', run, ⟨endless, same ▸ ahead.distinct, same ▸ ahead.short, same ▸ known⟩,
      ?_, ?_⟩
    · rw [same]
      omega
    · omega
  | none =>
    have new : s ∉ w.texts := StringTable.index?_eq_none_iff.1 found
    cases spelled with
    | inline short =>
      obtain ⟨w', run, endless, same, length⟩ :=
        inline_endless ahead.opened short (by rw [share, if_pos rfl, found]) fits
      rw [share, if_pos rfl] at same
      refine ⟨w', run, ⟨endless, ?_, ?_, ?_⟩, ?_, ?_⟩
      · rw [same]
        simpa using List.Nodup.concat new ahead.distinct
      · rw [same]
        exact List.forall_mem_append.2 ⟨ahead.short, by simpa using short⟩
      · rw [same]
        exact fun text h => List.mem_append.2 ((List.mem_append.1 h).imp_left (ahead.known text))
      · simp [same, bytesIn]
      · simp only [length, List.length_cons, List.length_append, Bytes.length_littleEndian,
          Utf8.length_encode]
        omega
    | reference _ there => exact absurd (ahead.known s (List.mem_of_getElem? there)) new

private theorem attached_affords {α : Type} {member : α → List UInt8 → Prop}
    {members : List α} {encode : α → List UInt8} {p : List UInt8}
    (shortest : OverlayBlock.Shortest encode member)
    (given : Attached limits member members p) (texts : List String) :
    Affords limits (attached limits members.isEmpty (OverlayBlock.encodeList encode members)) texts
      p.length 0 texts := by
  have flagged : 1 ≤ p.length := by cases given <;> simp
  cases members with
  | nil => exact ((flag_affords texts false).bind (.pure texts)).weaken flagged (Nat.le_refl _)
  | cons a as =>
    cases given with
    | @present _ block spelled within =>
      have low := shortest.list _ _ spelled
      have affords := (flag_affords texts true).bind
        (block_affords texts (Nat.le_trans low within))
      exact affords.weaken (by simp only [List.length_cons]; omega) (Nat.le_refl _)

theorem head_affords {h : Head} {missing : Bool} {p : List UInt8}
    (given : Header limits h.kind missing h.overlay p) (texts : List String) :
    Affords limits (head limits h) texts p.length 0 texts := by
  obtain ⟨-, diagnostics, annotations⟩ := given
  rw [head_eq]
  have affords :=
    (fixed_affords texts 2 h.kind.tag).bind ((fixed_affords texts 2 h.summary.bits).bind
      ((attached_affords OverlayBlock.encodeDiagnostic_shortest diagnostics texts).bind
        (attached_affords OverlayBlock.encodeAnnotation_shortest annotations texts)))
  refine affords.weaken ?_ (Nat.le_refl _)
  simp only [List.length_append, Bytes.length_littleEndian]
  omega

theorem trivia_affords (share : limits.shareStrings = true) {t : Trivia}
    {texts texts' : List String} {p : List UInt8}
    (given : TriviaRecord limits texts p t.blueprint texts') :
    Affords limits (trivia limits t) texts p.length t.blueprint.width texts' := by
  obtain ⟨-, header, spelled, -⟩ := given
  have affords := (begin_affords texts t.head.kind).bind ((head_affords header texts).bind
    (text_affords share spelled))
  refine affords.weaken ?_ ?_
  · simp only [List.length_append]
    omega
  · simp [TriviaBlueprint.width, Trivia.blueprint]

private theorem forM_affords {α β : Type} {item : α → Write Unit} {phrase : Phrase β}
    {view : α → β} {width : β → Nat} {texts texts' : List String}
    {p : List UInt8} {as : List α} (many : Many phrase texts p (as.map view) texts')
    (each : ∀ a ∈ as, ∀ {texts p texts'}, phrase texts p (view a) texts' →
      Affords limits (item a) texts p.length (width (view a)) texts') :
    Affords limits (as.forM item) texts p.length ((as.map view).map width).sum texts' := by
  induction as generalizing texts p with
  | nil =>
    cases many
    exact .pure _
  | cons a as ih =>
    obtain ⟨first, others⟩ := List.forall_mem_cons.1 each
    cases many with
    | cons head tail =>
      simp only [List.length_append, List.map_cons, List.sum_cons]
      exact (first head).bind (ih tail others)

theorem triviaList_affords (share : limits.shareStrings = true) {ts : List Trivia}
    {texts texts' : List String} {p : List UInt8}
    (given : Counted (TriviaRecord limits) texts p (ts.map Trivia.blueprint) texts') :
    Affords limits (triviaList limits ts) texts p.length
      ((ts.map Trivia.blueprint).map TriviaBlueprint.width).sum texts' := by
  obtain ⟨small, many⟩ := given
  rw [List.length_map] at small
  have affords := (length_affords texts small).bind
    (forM_affords many fun t _ => trivia_affords share)
  refine affords.weaken ?_ ?_
  · simp
  · simp

/-- Whatever way a stream gives a record, the writer gives it in no more bytes. -/
theorem element_affords (share : limits.shareStrings = true) {e : Element} :
    ∀ {texts texts' p}, Record limits texts p e.blueprint texts' →
      Affords limits (element limits e) texts p.length e.blueprint.width texts' := by
  induction e using Element.induction with
  | node n parts =>
    intro texts texts' p given
    rw [Element.blueprint, Element.blueprints_eq] at given
    cases given with
    | node isNode header shape small many fits =>
      rw [List.length_map] at small
      rw [element, elements_eq]
      have affords := (begin_affords texts n.head.kind).bind ((head_affords header texts).bind
        ((length_affords texts small).bind (forM_affords many fun c h => parts c h)))
      refine affords.weaken ?_ ?_
      · simp only [List.length_append, List.length_map, Bytes.length_littleEndian]
        omega
      · simp [Element.blueprint, Blueprint.width]
  | token t =>
    intro texts texts' p given
    cases given with
    | token isToken header spelled leading trailing fits =>
      rw [element, token]
      have affords := (begin_affords texts t.head.kind).bind ((head_affords header texts).bind
        ((text_affords share spelled).bind ((triviaList_affords share leading).bind
          (triviaList_affords share trailing))))
      refine affords.weaken ?_ ?_
      · simp only [List.length_append]
        omega
      · simp only [Element.blueprint, Blueprint.width]
        omega
  | trivia t =>
    intro texts texts' p given
    cases given with
    | trivia record => exact trivia_affords share record

end Writer

theorem Grammar.Record.width_le {limits : Limits} {texts texts' : List String} {p : List UInt8}
    {d : Blueprint} (record : Grammar.Record limits texts p d texts') : d.width ≤ maxSize := by
  cases record with
  | trivia record =>
    obtain ⟨-, -, -, fits⟩ := record
    exact fits
  | token _ _ _ _ _ fits => exact fits
  | node _ _ _ _ _ fits => exact fits

namespace Writer

/-- A tree that a stream stands for is written in no more bytes than the stream has. Its texts are
part of its width, so there is room for all of them in the table. -/
theorem tree_affords {limits : Limits} (share : limits.shareStrings = true) {e : Element}
    {p : List UInt8} (stream : Grammar.Stream limits p e.blueprint) :
    ∃ out, tree limits e {} = .ok () out ∧ out.written.length ≤ p.length := by
  obtain ⟨record, -⟩ := stream
  have bare : ({} : Writer).texts = [] := rfl
  have start : Ahead limits [] {} :=
    ⟨rfl, by rw [bare]; exact List.nodup_nil, by simp [bare], by simp⟩
  have fits : bytesIn ({} : Writer).texts + (0 + (0 + e.blueprint.width)) ≤ maxSize := by
    have := record.width_le
    simp only [bare, bytesIn, List.map_nil, List.sum_nil]
    omega
  obtain ⟨out, run, -, -, length⟩ := ((bytes_affords [] streamMagic).bind
    ((fixed_affords [] 1 streamVersion).bind (element_affords share record))).exists_ok start fits
  refine ⟨out, run, Nat.le_trans length ?_⟩
  simp [written]
  omega

private theorem forM_map_congr {α : Type} {item : α → Write Unit}
    {view : α → α} {as : List α} (same : ∀ a ∈ as, item (view a) = item a) :
    (as.map view).forM item = as.forM item := by
  induction as with
  | nil => rfl
  | cons a as ih =>
    obtain ⟨first, others⟩ := List.forall_mem_cons.1 same
    change (do item (view a); (as.map view).forM item) = do item a; as.forM item
    rw [first, ih others]

theorem element_content (limits : Limits) (e : Element) :
    element limits e.content = element limits e := by
  have list (ts : List Trivia) :
      triviaList limits (ts.map Trivia.content) = triviaList limits ts := by
    have same : ∀ t ∈ ts, trivia limits t.content = trivia limits t := fun _ _ => rfl
    rw [triviaList, triviaList, List.length_map, forM_map_congr same]
  induction e using Element.induction with
  | node n parts =>
    rw [Element.content, Element.contents_eq, element, element, elements_eq, elements_eq,
      List.length_map, forM_map_congr parts]
  | token t => simp only [Element.content, Token.content, element, token, list]
  | trivia t => rfl

end Writer

namespace Element

theorem Verbatim.toBytes_eq {a b : Element} (same : a.Verbatim b) : a.toBytes = b.toBytes := by
  unfold toBytes Writer.tree
  rw [← Writer.element_content .standard a, same, Writer.element_content]

theorem exists_stream_of_ofBytes {cell : Nat} {bytes : List UInt8} {e : Element}
    (read : ofBytes cell bytes = .ok e) :
    ∃ d, Grammar.Stream .standard bytes d ∧ e.Realizes d := by
  unfold ofBytes at read
  split at read
  · rename_i root r run
    split at read
    · rename_i nothing
      obtain rfl := Except.ok.inj read
      obtain ⟨p, d, split, stream, means⟩ := Reader.exists_stream_of_tree run
      rw [List.isEmpty_iff.1 nothing, List.append_nil] at split
      exact ⟨d, split ▸ stream, means⟩
    · cases read
  · cases read

theorem exists_ofBytes_of_stream {p : List UInt8} {d : Blueprint}
    (stream : Grammar.Stream .standard p d) (cell : Nat) :
    ∃ e, ofBytes cell p = .ok e ∧ e.Realizes d := by
  obtain ⟨e, session, read, rest, means⟩ := Reader.exists_tree_of_stream stream [] cell
  rw [List.append_nil] at read
  refine ⟨e, ?_, means⟩
  simp only [ofBytes, read, rest, List.isEmpty_nil, if_true]

private theorem stream_of_toBytes {e : Element} (sound : e.Sound)
    (depth : e.recordHeight ≤ Limits.standard.maxDepth.toNat) {bytes : List UInt8}
    (run : e.toBytes = .ok bytes) : Grammar.Stream .standard bytes e.blueprint := by
  unfold toBytes at run
  split at run
  · rename_i out written
    obtain rfl := Except.ok.inj run
    exact Writer.stream_of_tree sound written (Nat.le_refl _) (Nat.le_refl _) depth
  · cases run

private theorem exists_toBytes_of_stream {e : Element} {p : List UInt8}
    (stream : Grammar.Stream .standard p e.blueprint) :
    ∃ bytes, e.toBytes = .ok bytes ∧ bytes.length ≤ p.length := by
  obtain ⟨out, run, short⟩ := Writer.tree_affords rfl stream
  refine ⟨out.written, ?_, short⟩
  simp only [toBytes, run]
  rfl

/-- What is written for a tree that was read is a normal form: it is read as that tree again, which
has the same bytes, and no stream that is read as the tree is shorter. -/
theorem toBytes_shortest {cell : Nat} {bytes : List UInt8} {e : Element}
    (read : ofBytes cell bytes = .ok e) : ∃ normal, e.toBytes = .ok normal ∧
      normal.length ≤ bytes.length ∧
      (∀ cell', ∃ e', ofBytes cell' normal = .ok e' ∧ e'.Verbatim e ∧
        e'.toBytes = .ok normal) ∧
      ∀ cell' other e', ofBytes cell' other = .ok e' → e'.Verbatim e →
        normal.length ≤ other.length := by
  obtain ⟨d, stream, sound, rfl⟩ := exists_stream_of_ofBytes read
  obtain ⟨normal, written, short⟩ := exists_toBytes_of_stream stream
  refine ⟨normal, written, short, fun cell' => ?_, fun cell' other e' read' same => ?_⟩
  · have depth : e.recordHeight ≤ Limits.standard.maxDepth.toNat := by
      obtain ⟨-, depth⟩ := stream
      exact depth
    obtain ⟨e', read', sound', same⟩ :=
      exists_ofBytes_of_stream (stream_of_toBytes sound depth written) cell'
    have verbatim := sound'.verbatim sound same
    exact ⟨e', read', verbatim, verbatim.toBytes_eq.trans written⟩
  · obtain ⟨d', stream', sound', rfl⟩ := exists_stream_of_ofBytes read'
    obtain ⟨normal', written', short'⟩ := exists_toBytes_of_stream stream'
    rw [same.toBytes_eq, written] at written'
    obtain rfl := Except.ok.inj written'
    exact short'

/-- A comma between two blanks as no writer puts it: an empty block whose length takes three bytes,
words with all bits set, and one text spelled out twice. -/
def redundantComma : List UInt8 :=
  streamMagic ++ [1, 12, 0, 255, 255, 1, 251, 0, 0, 0, 0, 1, 0, 0, 0, 44,
    1, 0, 0, 0, 0, 0, 255, 255, 0, 0, 0, 1, 0, 0, 0, 32,
    1, 0, 0, 0, 0, 0, 255, 255, 0, 0, 0, 1, 0, 0, 0, 32]

theorem toBytes_shortest_redundantComma : ∃ e, ofBytes 0 redundantComma = .ok e ∧
    ∃ normal, e.toBytes = .ok normal ∧ normal.length ≤ redundantComma.length ∧
      (∀ cell, ∃ e', ofBytes cell normal = .ok e' ∧ e'.Verbatim e ∧
        e'.toBytes = .ok normal) ∧
      ∀ cell other e', ofBytes cell other = .ok e' → e'.Verbatim e →
        normal.length ≤ other.length := by
  have accepted : (ofBytes 0 redundantComma).isOk = true := by decide +kernel
  cases read : ofBytes 0 redundantComma with
  | error fault =>
    rw [read] at accepted
    cases accepted
  | ok e => exact ⟨e, rfl, toBytes_shortest read⟩

end Element

end GreenTree
