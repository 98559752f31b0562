import GreenTree.Proofs.Stream.Refusals
import GreenTree.Proofs.Stream.Written
import Mathlib.Data.List.Nodup

/-!
When a writer succeeds. With a sink that has no end it is stopped only by a text or a block past its
limit, or by a list that is too long to be counted: the table of texts has room for all the texts of
an element, since together they are no longer than a size.
-/

namespace GreenTree

private theorem length_le_bytesIn_add_count (texts : List String) :
    texts.length ≤ bytesIn texts + texts.count "" := by
  induction texts with
  | nil => exact Nat.le_refl _
  | cons s texts ih =>
    have grown : bytesIn (s :: texts) = s.utf8ByteSize + bytesIn texts := rfl
    rw [grown, List.length_cons, List.count_cons]
    by_cases empty : s = ""
    · simp only [empty, BEq.rfl, if_true]
      omega
    · have pos : s.utf8ByteSize ≠ 0 := fun h => empty (String.utf8ByteSize_eq_zero_iff.1 h)
      omega

/-- Texts without repetition are at most one more than their bytes: only one of them is empty. -/
theorem length_le_of_nodup {texts : List String} (distinct : texts.Nodup) :
    texts.length ≤ bytesIn texts + 1 := by
  have once := List.nodup_iff_count_le_one.1 distinct ""
  have := length_le_bytesIn_add_count texts
  omega

namespace Writer

variable {limits : Limits}

/-- What holds of a session that writes to a sink without an end: no text is twice in its table. -/
structure Open (w : Writer) : Prop where
  endless : w.sink.room = none
  distinct : w.texts.Nodup

theorem bytes_endless {w : Writer} (endless : w.sink.room = none) (bs : List UInt8) :
    ∃ w', bytes bs w = .ok () w' ∧ w'.sink.room = none ∧ w'.texts = w.texts ∧
      w'.written = w.written ++ bs := by
  refine ⟨{ w with sink := { w.sink with written := w.sink.written ++ bs } }, ?_,
    endless, rfl, ?_⟩
  · simp [bytes, ByteSink.write, endless]
  · simp [written]

theorem reference_endless {w : Writer} {index : Nat} {s : String} (endless : w.sink.room = none)
    (short : s.utf8ByteSize ≤ limits.maxStringLength.toNat) (share : limits.shareStrings = true)
    (found : w.strings.index? s = some index) : ∃ w', text limits s w = .ok () w' ∧
      w'.sink.room = none ∧ w'.texts = w.texts ∧ w'.written.length = w.written.length + 5 := by
  obtain ⟨w₁, run₁, endless₁, same₁, behind₁⟩ := bytes_endless endless [referenceTag]
  obtain ⟨w₂, run₂, endless₂, same₂, behind₂⟩ :=
    bytes_endless endless₁ (Bytes.littleEndian 4 index)
  refine ⟨w₂, ?_, endless₂, same₂.trans same₁, ?_⟩
  · unfold text
    dsimp only
    rw [if_neg (Nat.not_lt.2 short)]
    refine EStateM.bind_eq_ok_iff.2 ⟨w, w, rfl, ?_⟩
    simp only [share, if_true, found]
    exact EStateM.bind_eq_ok_iff.2 ⟨(), w₁, run₁, run₂⟩
  · rw [behind₂, behind₁]
    simp

theorem Open.room {w : Writer} (ready : w.Open) {s : String} (new : s ∉ w.texts)
    (fits : bytesIn w.texts + s.utf8ByteSize ≤ maxSize) : w.strings.size < Bytes.capacity 4 := by
  have distinct : (w.texts ++ [s]).Nodup := by
    simpa using List.Nodup.concat new ready.distinct
  have count := length_le_of_nodup distinct
  simp only [bytesIn, List.length_append, List.length_singleton, List.map_append, List.sum_append,
    List.map_singleton, List.sum_singleton] at count fits
  have limit : maxSize + 1 = Bytes.capacity 4 := by decide
  have size : w.strings.size = w.texts.length := rfl
  omega

theorem inline_endless {w : Writer} {s : String} (ready : w.Open)
    (short : s.utf8ByteSize ≤ limits.maxStringLength.toNat)
    (new : (if limits.shareStrings then w.strings.index? s else none) = none)
    (fits : bytesIn w.texts + s.utf8ByteSize ≤ maxSize) : ∃ w', text limits s w = .ok () w' ∧
      w'.sink.room = none ∧ w'.texts = w.texts ++ (if limits.shareStrings then [s] else []) ∧
        w'.written.length = w.written.length + 5 + s.utf8ByteSize := by
  have small : s.utf8ByteSize < Bytes.capacity 4 :=
    Nat.lt_of_le_of_lt short limits.maxStringLength.toNat_lt
  obtain ⟨w₁, run₁, endless₁, same₁, behind₁⟩ :=
    bytes_endless ready.endless [inlineTag]
  obtain ⟨w₂, run₂, endless₂, same₂, behind₂⟩ :=
    bytes_endless endless₁ (Bytes.littleEndian 4 s.utf8ByteSize)
  obtain ⟨w₃, run₃, endless₃, same₃, behind₃⟩ :=
    bytes_endless endless₂ (Utf8.encode s)
  have same : w₃.texts = w.texts := same₃.trans (same₂.trans same₁)
  have behind : w₃.written.length = w.written.length + 5 + s.utf8ByteSize := by
    simp only [behind₃, behind₂, behind₁, List.length_append, List.length_singleton,
      Bytes.length_littleEndian, Utf8.length_encode]
  have run (last : Write Unit) (w' : Writer) (ok : last w₃ = .ok () w') : (do
      bytes [inlineTag]
      length s.utf8ByteSize
      bytes (Utf8.encode s)
      last : Write Unit) w = .ok () w' := by
    rw [length, if_pos small]
    exact EStateM.bind_eq_ok_iff.2 ⟨(), w₁, run₁,
      EStateM.bind_eq_ok_iff.2 ⟨(), w₂, run₂,
      EStateM.bind_eq_ok_iff.2 ⟨(), w₃, run₃, ok⟩⟩⟩
  unfold text
  dsimp only
  rw [if_neg (Nat.not_lt.2 short)]
  cases share : limits.shareStrings with
  | false =>
    refine ⟨w₃, EStateM.bind_eq_ok_iff.2 ⟨w, w, rfl, ?_⟩, endless₃, ?_, behind⟩
    · simp only [Bool.false_eq_true, if_false]
      exact run _ w₃ rfl
    · simp [same]
  | true =>
    rw [share, if_pos rfl] at new
    have room := ready.room (StringTable.index?_eq_none_iff.1 new) fits
    refine ⟨{ w₃ with strings := w₃.strings.push s },
      EStateM.bind_eq_ok_iff.2 ⟨w, w, rfl, ?_⟩, endless₃, ?_, behind⟩
    · simp only [if_true, new, room]
      exact run _ _ rfl
    · rw [w₃.texts_push, same, if_pos rfl]

/-- Whether a step succeeds exactly if something fits, wherever there is room for texts of a number
of bytes. -/
structure Decides (step : Write Unit) (fits : Prop) (width : Nat) : Prop where
  exists_ok : ∀ {w}, w.Open → bytesIn w.texts + width ≤ maxSize → fits →
    ∃ w', step w = .ok () w' ∧ w'.Open ∧ bytesIn w'.texts ≤ bytesIn w.texts + width
  fits_of_ok : ∀ {w w'}, w.Open → bytesIn w.texts + width ≤ maxSize →
    step w = .ok () w' → fits

namespace Decides

variable {step next : Write Unit} {fits fits' : Prop} {width width' : Nat}

theorem bind (head : Decides step fits width) (tail : Decides next fits' width') :
    Decides (do step; next) (fits ∧ fits') (width + width') where
  exists_ok := by
    intro w ready room both
    obtain ⟨w', run, ready', grown⟩ := head.exists_ok ready (by omega) both.1
    obtain ⟨w'', run', ready'', grown'⟩ := tail.exists_ok ready' (by omega) both.2
    exact ⟨w'', EStateM.bind_eq_ok_iff.2 ⟨(), w', run, run'⟩, ready'', by omega⟩
  fits_of_ok := by
    intro w w'' ready room run
    obtain ⟨_, t, run, run'⟩ := EStateM.bind_eq_ok_iff.1 run
    have first := head.fits_of_ok ready (by omega) run
    obtain ⟨w', same, ready', grown⟩ := head.exists_ok ready (by omega) first
    cases run.symm.trans same
    exact ⟨first, tail.fits_of_ok ready' (by omega) run'⟩

theorem congr (decides : Decides step fits width) (same : fits ↔ fits') (wide : width = width') :
    Decides step fits' width' := by
  have same : fits = fits' := propext same
  exact wide ▸ same ▸ decides

theorem pure : Decides (Pure.pure ()) True 0 where
  exists_ok := by
    intro w ready room _
    exact ⟨w, rfl, ready, Nat.le_refl _⟩
  fits_of_ok := by
    intro w w' ready room run
    trivial

theorem throw (e : WriteError) (width : Nat) : Decides (throw e) False width where
  exists_ok := by
    intro w ready room impossible
    exact impossible.elim
  fits_of_ok := by
    intro w w' ready room run
    cases run

theorem of_endless (run : ∀ w : Writer, w.sink.room = none → ∃ w',
      step w = .ok () w' ∧ w'.sink.room = none ∧ w'.texts = w.texts) :
    Decides step True 0 where
  exists_ok := by
    intro w ready room _
    obtain ⟨w', ok, endless, same⟩ := run w ready.endless
    exact ⟨w', ok, ⟨endless, same ▸ ready.distinct⟩, Nat.le_of_eq (congrArg bytesIn same)⟩
  fits_of_ok := by
    intro w w' ready room ok
    trivial

end Decides

theorem bytes_decides (bs : List UInt8) : Decides (bytes bs) True 0 := by
  apply Decides.of_endless
  intro w endless
  obtain ⟨w', run, endless', same, -⟩ := bytes_endless endless bs
  exact ⟨w', run, endless', same⟩

theorem fixed_decides (width n : Nat) : Decides (fixed width n) True 0 := bytes_decides _

theorem begin_decides (kind : Kind) : Decides (begin kind) True 0 := by
  apply Decides.of_endless
  intro w endless
  exact ⟨{ w with records := w.records.push kind }, rfl, endless, rfl⟩

theorem length_decides (n : Nat) : Decides (length n) (n < Bytes.capacity 4) 0 := by
  unfold length
  split
  · rename_i small
    exact (fixed_decides 4 n).congr (by simp [small]) rfl
  · rename_i large
    exact (Decides.throw _ 0).congr (by simp [large]) rfl

theorem block_decides (limits : Limits) (bs : List UInt8) :
    Decides (block limits bs) (bs.length ≤ limits.maxOverlayBytes.toNat) 0 := by
  by_cases within : limits.maxOverlayBytes.toNat < bs.length
  · have refused (w : Writer) : block limits bs w = .error (.overlay .sizeLimit) w := if_pos within
    constructor
    · intro w ready room fits
      omega
    · intro w w' ready room run
      rw [refused] at run
      cases run
  · have always : Decides (block limits bs) True 0 := by
      apply Decides.of_endless
      intro w endless
      obtain ⟨w', run, endless', same, -⟩ := bytes_endless endless bs
      refine ⟨w', ?_, endless', same⟩
      rw [block, if_neg within, run]
    exact always.congr (by simp [Nat.le_of_not_lt within]) rfl

theorem attached_decides {α : Type} (limits : Limits) (encode : List α → List UInt8)
    (members : List α) : Decides (attached limits members.isEmpty (encode members))
      (members ≠ [] → (encode members).length ≤ limits.maxOverlayBytes.toNat) 0 := by
  cases members with
  | nil =>
    apply ((fixed_decides 1 _).bind Decides.pure).congr _ rfl
    simp
  | cons a as =>
    apply ((fixed_decides 1 _).bind (block_decides limits (encode (a :: as)))).congr _ rfl
    simp

theorem head_decides (limits : Limits) (h : Head) : Decides (head limits h)
    ((h.overlay.diagnostics ≠ [] →
      (OverlayBlock.encodeDiagnostics h.overlay.diagnostics).length ≤
        limits.maxOverlayBytes.toNat) ∧
    (h.overlay.annotations ≠ [] →
      (OverlayBlock.encodeAnnotations h.overlay.annotations).length ≤
        limits.maxOverlayBytes.toNat)) 0 := by
  rw [head_eq]
  apply ((fixed_decides 2 _).bind ((fixed_decides 2 _).bind
    ((attached_decides limits OverlayBlock.encodeDiagnostics h.overlay.diagnostics).bind
      (attached_decides limits OverlayBlock.encodeAnnotations h.overlay.annotations)))).congr _ rfl
  simp only [true_and]

theorem text_decides (limits : Limits) (s : String) : Decides (text limits s)
    (s.utf8ByteSize ≤ limits.maxStringLength.toNat) s.utf8ByteSize where
  exists_ok := by
    intro w ready room short
    cases found : (if limits.shareStrings then w.strings.index? s else none) with
    | some index =>
      obtain ⟨share, there⟩ : limits.shareStrings = true ∧ w.strings.index? s =
          some index := by
        simpa using found
      obtain ⟨w', run, endless, same, -⟩ := reference_endless ready.endless short share there
      refine ⟨w', run, ⟨endless, same ▸ ready.distinct⟩, ?_⟩
      rw [same]
      omega
    | none =>
      obtain ⟨w', run, endless, same, -⟩ := inline_endless ready short found room
      cases share : limits.shareStrings with
      | false =>
        rw [share] at same
        have same : w'.texts = w.texts := by simpa using same
        refine ⟨w', run, ⟨endless, same ▸ ready.distinct⟩, ?_⟩
        rw [same]
        omega
      | true =>
        rw [share, if_pos rfl] at found same
        have new : s ∉ w.texts := StringTable.index?_eq_none_iff.1 found
        refine ⟨w', run, ⟨endless, ?_⟩, ?_⟩
        · rw [same]
          simpa using List.Nodup.concat new ready.distinct
        · simp [same, bytesIn]
  fits_of_ok := by
    intro w w' ready room run
    exact (text_eq_ok run).1

theorem trivia_decides (limits : Limits) (t : Trivia) :
    Decides (trivia limits t) ((Element.trivia t).Within limits) t.blueprint.width := by
  have decides := (begin_decides t.head.kind).bind ((head_decides limits t.head).bind
    (text_decides limits t.text))
  apply decides.congr
  · constructor
    · intro h
      obtain ⟨-, ⟨diagnostics, annotations⟩, text⟩ := h
      exact ⟨diagnostics, annotations, fun s own => Option.some.inj own ▸ text⟩
    · intro within
      exact ⟨trivial, ⟨within.diagnostics, within.annotations⟩, within.text t.text rfl⟩
  · simp [TriviaBlueprint.width, Trivia.blueprint]

theorem forM_decides {α : Type} {item : α → Write Unit} {fits : α → Prop}
    {width : α → Nat} {as : List α} (each : ∀ a ∈ as, Decides (item a) (fits a) (width a)) :
    Decides (as.forM item) (∀ a ∈ as, fits a) (as.map width).sum := by
  induction as with
  | nil => exact Decides.pure.congr (by simp) rfl
  | cons a as ih =>
    obtain ⟨first, others⟩ := List.forall_mem_cons.1 each
    exact (first.bind (ih others)).congr List.forall_mem_cons.symm (by simp)

theorem triviaList_decides (limits : Limits) (ts : List Trivia) : Decides (triviaList limits ts)
    (ts.length < Bytes.capacity 4 ∧ ∀ t ∈ ts, (Element.trivia t).Within limits)
    ((ts.map Trivia.blueprint).map TriviaBlueprint.width).sum := by
  have decides := (length_decides ts.length).bind
    (forM_decides fun t (_ : t ∈ ts) => trivia_decides limits t)
  apply decides.congr Iff.rfl
  rw [List.map_map, Nat.zero_add]
  rfl

theorem element_decides (limits : Limits) (e : Element) : Decides (element limits e)
    (∀ d : Element, d.Part e → d.Within limits ∧ d.Countable) e.blueprint.width := by
  induction e using Element.induction with
  | node n ih =>
    rw [element, elements_eq]
    have decides := (begin_decides n.head.kind).bind ((head_decides limits n.head).bind
      ((length_decides n.children.length).bind (forM_decides ih)))
    apply decides.congr
    · rw [Element.forall_part_node_iff]
      constructor
      · intro h
        obtain ⟨-, ⟨diagnostics, annotations⟩, small, below⟩ := h
        have count : (Element.node n).Countable := by simpa [Element.Countable, Element.ownCounts]
        have text : ∀ s, (Element.node n).ownText = some s →
            s.utf8ByteSize ≤ limits.maxStringLength.toNat := by
          intro s own
          cases own
        exact ⟨⟨⟨diagnostics, annotations, text⟩, count⟩, below⟩
      · intro h
        obtain ⟨⟨within, count⟩, below⟩ := h
        exact ⟨trivial, ⟨within.diagnostics, within.annotations⟩,
          count _ List.mem_cons_self, below⟩
    · simp [Element.blueprint, Blueprint.width, Function.comp_def]
  | token t =>
    rw [element, token]
    have decides := (begin_decides t.head.kind).bind ((head_decides limits t.head).bind
      ((text_decides limits t.text).bind ((triviaList_decides limits t.leading).bind
        (triviaList_decides limits t.trailing))))
    apply decides.congr
    · rw [Element.forall_part_token_iff]
      constructor
      · rintro ⟨-, ⟨diagnostics, annotations⟩, text, ⟨few, leading⟩, few', trailing⟩
        have count : (Element.token t).Countable := by
          simpa [Element.Countable, Element.ownCounts] using ⟨few, few'⟩
        refine ⟨⟨⟨diagnostics, annotations, fun s own => Option.some.inj own ▸ text⟩,
          count⟩, ?_⟩
        intro s h
        rcases List.mem_append.1 h with h | h
        · exact ⟨leading s h, s.countable⟩
        · exact ⟨trailing s h, s.countable⟩
      · intro h
        obtain ⟨⟨within, count⟩, below⟩ := h
        refine ⟨trivial, ⟨within.diagnostics, within.annotations⟩, within.text t.text rfl,
          ⟨?_, ?_⟩, ?_, ?_⟩
        · exact count _ List.mem_cons_self
        · exact fun s h => (below s (List.mem_append_left _ h)).1
        · exact count _ (List.mem_cons_of_mem _ List.mem_cons_self)
        · exact fun s h => (below s (List.mem_append_right _ h)).1
    · simp only [Element.blueprint, Blueprint.width]
      omega
  | trivia t =>
    apply (trivia_decides limits t).congr _ rfl
    rw [Element.forall_part_trivia_iff]
    constructor
    · intro within
      exact ⟨within, t.countable⟩
    · intro h
      exact h.1

/-- To a sink without an end an element is written exactly if each part of it is within the limits
and has lists short enough to be counted. -/
theorem exists_tree_iff (limits : Limits) {e : Element} (sound : e.Sound) :
    (∃ out, tree limits e {} = .ok () out) ↔
      ∀ d : Element, d.Part e → d.Within limits ∧ d.Countable := by
  have decides := (bytes_decides streamMagic).bind ((fixed_decides 1 streamVersion).bind
    (element_decides limits e))
  have ready : Open {} := ⟨rfl, List.nodup_nil⟩
  have room : bytesIn ({} : Writer).texts + (0 + (0 + e.blueprint.width)) ≤ maxSize := by
    have fits := Element.Realizes.width_le ⟨sound, rfl⟩
    have none : bytesIn ({} : Writer).texts = 0 := rfl
    omega
  constructor
  · intro h
    obtain ⟨out, run⟩ := h
    exact (decides.fits_of_ok ready room run).2.2
  · intro h
    obtain ⟨out, run, -⟩ := decides.exists_ok ready room ⟨trivial, trivial, h⟩
    exact ⟨out, run⟩

end Writer

end GreenTree
