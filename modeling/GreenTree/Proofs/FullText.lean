import GreenTree.Element.Text
import GreenTree.Proofs.Making

/-!
The text of an element as a list of pieces: whatever the sink, the pieces of an element are offered
to it in source order. Nothing is left out of the full text, so a sound element is as wide as its
full text is long.
-/

namespace GreenTree

namespace TextSink

variable {σ : Type}

theorem putAll_append (sink : TextSink σ) (ps qs : List String) :
    sink.putAll (ps ++ qs) = (do
      sink.putAll ps
      sink.putAll qs) := by
  induction ps with
  | nil => rfl
  | cons p ps ih => simp only [List.cons_append, putAll, ih, bind_assoc]

theorem putAll_unlimited (ps : List String) (s : String) :
    unlimited.putAll ps s = .ok () (ps.foldl String.append s) := by
  induction ps generalizing s with
  | nil => rfl
  | cons p ps ih => exact ih (s.append p)

end TextSink

def bytesIn (ps : List String) : Nat := (ps.map String.utf8ByteSize).sum

namespace Element

variable {σ : Type}

mutual

/-- The pieces of the text of an element, without the outermost trivia on the sides not asked
for. -/
def pieces (leading trailing : Bool) : Element → List String
  | .node n => piecesOf leading trailing false n.children
  | .token t =>
    (if leading then t.leading.map Trivia.text else []) ++
      (t.text :: if trailing then t.trailing.map Trivia.text else [])
  | .trivia t => [t.text]

def piecesOf (leading trailing before : Bool) : List Element → List String
  | [] => []
  | c :: cs =>
    let isFirst := c.spansText && !before
    let isLast := c.spansText && !cs.any spansText
    pieces (leading || !isFirst) (trailing || !isLast) c ++
      piecesOf leading trailing (before || c.spansText) cs

end

private theorem writeTexts_eq {sink : TextSink σ} {cs : List Element}
    (parts : ∀ c ∈ cs, ∀ l t, c.writeText sink l t = sink.putAll (c.pieces l t))
    (l t before : Bool) :
    writeTexts sink l t before cs = sink.putAll (piecesOf l t before cs) := by
  induction cs generalizing before with
  | nil => rfl
  | cons c cs ih =>
    obtain ⟨first, others⟩ := List.forall_mem_cons.1 parts
    simp only [writeTexts, piecesOf, first, ih others, TextSink.putAll_append]

theorem writeText_eq (sink : TextSink σ) (e : Element) (l t : Bool) :
    e.writeText sink l t = sink.putAll (e.pieces l t) := by
  induction e using Element.induction generalizing l t with
  | node n parts => exact writeTexts_eq parts l t false
  | token s =>
    simp only [writeText, Token.writeText, pieces, TextSink.putAll_append, TextSink.putAll]
    cases l <;> cases t <;> rfl
  | trivia s =>
    simp only [writeText, pieces, TextSink.putAll]
    exact (bind_pure (sink.put s.text)).symm

/-- The text of an element is its pieces one behind the other. -/
theorem text_eq (e : Element) (l t : Bool) : e.text l t = String.join (e.pieces l t) := by
  simp only [text, textInto, writeText_eq, TextSink.putAll_unlimited]
  rfl

private theorem utf8ByteSize_foldl (ps : List String) (s : String) :
    (ps.foldl (· ++ ·) s).utf8ByteSize = s.utf8ByteSize + bytesIn ps := by
  induction ps generalizing s with
  | nil => simp [bytesIn]
  | cons p ps ih =>
    rw [List.foldl_cons, ih, String.utf8ByteSize_append]
    simp only [bytesIn, List.map_cons, List.sum_cons]
    omega

theorem size_join (ps : List String) : (String.join ps).utf8ByteSize = bytesIn ps := by
  rw [String.join, utf8ByteSize_foldl]
  simp

private theorem bytesIn_triviaTexts {ts : List Trivia} (sound : ∀ t ∈ ts, t.Sound) :
    bytesIn (ts.map Trivia.text) = (ts.map fun t => t.head.fullWidth).sum := by
  have same : ts.map (String.utf8ByteSize ∘ Trivia.text) = ts.map fun t => t.head.fullWidth :=
    List.map_congr_left fun t h => (sound t h).fullWidth.symm
  rw [bytesIn, List.map_map, same]

theorem piecesOf_both (before : Bool) (cs : List Element) :
    piecesOf true true before cs = cs.flatMap (pieces true true) := by
  induction cs generalizing before with
  | nil => rfl
  | cons c cs ih => rw [piecesOf, ih, List.flatMap_cons, Bool.true_or, Bool.true_or]

private theorem bytesIn_flatMap {cs : List Element}
    (parts : ∀ c ∈ cs, bytesIn (c.pieces true true) = c.fullWidth) :
    bytesIn (cs.flatMap (pieces true true)) = (cs.map fullWidth).sum := by
  induction cs with
  | nil => rfl
  | cons c cs ih =>
    obtain ⟨first, others⟩ := List.forall_mem_cons.1 parts
    have rest := ih others
    simp only [bytesIn, List.flatMap_cons, List.map_append, List.sum_append, List.map_cons,
      List.sum_cons] at *
    rw [first, rest]

/-- The pieces of a sound element have as many bytes as it is wide. -/
theorem Sound.bytesIn_pieces {e : Element} (sound : e.Sound) :
    bytesIn (e.pieces true true) = e.fullWidth := by
  induction sound with
  | @node n own parts ih =>
    rw [pieces, piecesOf_both, bytesIn_flatMap ih, fullWidth, head, own.fullWidth]
  | @token t own =>
    have leading := bytesIn_triviaTexts own.leading
    have trailing := bytesIn_triviaTexts own.trailing
    simp only [pieces, if_true, bytesIn, List.map_append, List.map_cons, List.sum_append,
      List.sum_cons] at *
    rw [leading, trailing, fullWidth, head, own.fullWidth, own.leadingWidth, own.trailingWidth]
    omega
  | @trivia t own => simp [pieces, bytesIn, fullWidth, head, own.fullWidth]

theorem Sound.fullWidth_eq {e : Element} (sound : e.Sound) :
    e.fullWidth = e.fullText.utf8ByteSize := by
  rw [fullText, text_eq, size_join, sound.bytesIn_pieces]

theorem Sound.size_fullText_le {e : Element} (sound : e.Sound) :
    e.fullText.utf8ByteSize ≤ maxSize :=
  sound.fullWidth_eq ▸ sound.fits

end Element

end GreenTree
