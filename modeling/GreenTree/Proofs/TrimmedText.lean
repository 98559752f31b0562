import GreenTree.Element.Terminal
import GreenTree.Proofs.Obtained

/-!
Text without the outermost trivia. What is left out on a side is the trivia of the outermost
terminal there and nothing else, so it has as many bytes as the trivia of that terminal are wide,
and the full text is what is left out, what is written, and what is left out, one behind the other.
-/

namespace GreenTree

def Token.leadingText (t : Token) : String := String.join (t.leading.map Trivia.text)

def Token.trailingText (t : Token) : String := String.join (t.trailing.map Trivia.text)

namespace Element

def leadingText (e : Element) : String := (e.firstTerminal?.map Token.leadingText).getD ""

def trailingText (e : Element) : String := (e.lastTerminal?.map Token.trailingText).getD ""

private def leadingTextIn (cs : List Element) : String :=
  ((firstTerminalIn cs).map Token.leadingText).getD ""

private def trailingTextIn (cs : List Element) : String :=
  ((lastTerminalIn (fun _ => none) cs).map Token.trailingText).getD ""

private theorem leadingTextIn_cons (c : Element) (cs : List Element) :
    leadingTextIn (c :: cs) = if c.spansText then c.leadingText else leadingTextIn cs := by
  cases spans : c.spansText <;> simp [leadingTextIn, leadingText, firstTerminalIn, spans]

theorem lastTerminalIn_eq (found : Unit → Option Token) (cs : List Element) :
    lastTerminalIn found cs =
      if cs.any spansText then lastTerminalIn (fun _ => none) cs else found () := by
  induction cs generalizing found with
  | nil => rfl
  | cons c cs ih =>
    cases spans : c.spansText with
    | true => simp [lastTerminalIn, spans]
    | false =>
      simp only [lastTerminalIn, spans, List.any_cons, Bool.false_or, Bool.false_eq_true, if_false]
      exact ih found

private theorem trailingTextIn_cons (c : Element) (cs : List Element) :
    trailingTextIn (c :: cs) =
      if cs.any spansText then trailingTextIn cs
      else if c.spansText then c.trailingText else "" := by
  unfold trailingTextIn
  rw [lastTerminalIn]
  by_cases behind : cs.any spansText
  · have same (found : Unit → Option Token) :
        lastTerminalIn found cs = lastTerminalIn (fun _ => none) cs := by
      rw [lastTerminalIn_eq found, if_pos behind]
    rw [same, ite_self, if_pos behind]
  · rw [lastTerminalIn_eq (fun _ => c.lastTerminal?), lastTerminalIn_eq (fun _ => none)]
    rw [if_neg behind, if_neg behind, if_neg behind]
    cases c.spansText <;> rfl

private theorem trailingTextIn_eq_empty {cs : List Element} (none : cs.any spansText = false) :
    trailingTextIn cs = "" := by
  rw [trailingTextIn, lastTerminalIn_eq, none]
  rfl

private theorem join_piecesOf_cons (l t before : Bool) (c : Element) (cs : List Element) :
    String.join (piecesOf l t before (c :: cs)) =
      c.text (l || !(c.spansText && !before)) (t || !(c.spansText && !cs.any spansText)) ++
        String.join (piecesOf l t (before || c.spansText) cs) := by
  rw [piecesOf, String.join_append, text_eq]

private theorem join_flatMap_pieces (cs : List Element) :
    String.join (cs.flatMap (pieces true true)) = String.join (cs.map fullText) := by
  induction cs with
  | nil => rfl
  | cons c cs ih =>
    rw [List.flatMap_cons, String.join_append, ih, List.map_cons, String.join_cons,
      fullText, text_eq]

theorem fullText_node (n : Node Element) :
    (Element.node n).fullText = String.join (n.children.map fullText) := by
  rw [fullText, text_eq, pieces, piecesOf_both, join_flatMap_pieces]

theorem fullText_token (t : Token) :
    (Element.token t).fullText = t.leadingText ++ t.text ++ t.trailingText := by
  rw [fullText, text_eq, pieces, if_pos rfl, if_pos rfl, String.join_append, String.join_cons,
    String.append_assoc]
  rfl

theorem fullText_trivia (t : Trivia) : (Element.trivia t).fullText = t.text := by
  rw [fullText, text_eq, pieces, String.join_cons, String.join_nil, String.append_empty]

theorem Sound.fullText_eq_empty {e : Element} (sound : e.Sound) (bare : e.spansText = false) :
    e.fullText = "" := by
  have wide := sound.fullWidth_eq
  have none : e.fullWidth = 0 := by simpa [spansText] using bare
  exact String.utf8ByteSize_eq_zero_iff.1 (by omega)

private theorem join_fullTexts_eq_empty {cs : List Element} (sound : ∀ c ∈ cs, c.Sound)
    (bare : cs.any spansText = false) : String.join (cs.map fullText) = "" := by
  induction cs with
  | nil => rfl
  | cons c cs ih =>
    obtain ⟨first, others⟩ := List.forall_mem_cons.1 sound
    rw [List.any_cons, Bool.or_eq_false_iff] at bare
    rw [List.map_cons, String.join_cons, first.fullText_eq_empty bare.1, ih others bare.2]
    rfl

/-- Whether the full text of an element is what it loses on either side around what is written. -/
private def Splits (e : Element) : Prop := ∀ l t, e.fullText =
  (if l then "" else e.leadingText) ++ e.text l t ++ (if t then "" else e.trailingText)

private theorem join_fullTexts_split {cs : List Element} (sound : ∀ c ∈ cs, c.Sound)
    (parts : ∀ c ∈ cs, c.Splits) (l t before : Bool) : String.join (cs.map fullText) =
      (if l || before then "" else leadingTextIn cs) ++ String.join (piecesOf l t before cs) ++
        (if t then "" else trailingTextIn cs) := by
  induction cs generalizing before with
  | nil => cases l <;> cases t <;> cases before <;> rfl
  | cons c cs ih =>
    obtain ⟨soundC, soundCs⟩ := List.forall_mem_cons.1 sound
    obtain ⟨splitC, splitCs⟩ := List.forall_mem_cons.1 parts
    have first := splitC (l || !(c.spansText && !before)) (t || !(c.spansText && !cs.any spansText))
    have rest := ih soundCs splitCs (before || c.spansText)
    rw [List.map_cons, String.join_cons, join_piecesOf_cons, leadingTextIn_cons,
      trailingTextIn_cons]
    cases spans : c.spansText with
    | false =>
      have bare : c.fullText = "" := soundC.fullText_eq_empty spans
      have behind : (if cs.any spansText = true then trailingTextIn cs else "") =
          trailingTextIn cs := by
        cases none : cs.any spansText
        · exact (trailingTextIn_eq_empty none).symm
        · rfl
      simp only [spans, Bool.or_false] at rest
      simp only [Bool.false_and, Bool.not_false, Bool.or_true, Bool.or_false, Bool.false_eq_true,
        if_false, behind]
      change c.fullText ++ _ = _ ++ (c.fullText ++ _) ++ _
      rw [bare, String.empty_append, String.empty_append, rest]
    | true =>
      have outer : (l || !!before) = (l || before) := by rw [Bool.not_not]
      simp only [spans, Bool.true_and, Bool.or_true, if_true, String.empty_append, outer]
        at first rest
      simp only [Bool.true_and, Bool.or_true, if_true, outer]
      cases behind : cs.any spansText with
      | true =>
        simp only [behind, Bool.not_true, Bool.not_false, Bool.or_true, if_true,
          String.append_empty] at first ⊢
        rw [first, rest]
        simp only [String.append_assoc]
      | false =>
        have none := join_fullTexts_eq_empty soundCs behind
        have written : String.join (piecesOf l t true cs) = "" := by
          rw [none] at rest
          exact (String.append_eq_empty_iff.1 rest.symm).1
        simp only [behind, Bool.not_false, Bool.not_true, Bool.or_false, Bool.false_eq_true,
          if_false] at first ⊢
        rw [none, written, String.append_empty, String.append_empty]
        exact first

/-- The full text of a sound element is what is lost on one side, what is written, and what is lost
on the other. -/
theorem Sound.fullText_split {e : Element} (sound : e.Sound) (l t : Bool) : e.fullText =
    (if l then "" else e.leadingText) ++ e.text l t ++ (if t then "" else e.trailingText) := by
  have splits : e.Splits := by
    induction sound with
    | @node n own parts ih =>
      intro l t
      have inside := join_fullTexts_split parts ih l t false
      rw [Bool.or_false] at inside
      rw [fullText_node, inside, text_eq, pieces]
      rfl
    | @token s own =>
      intro l t
      rw [fullText_token, text_eq, pieces, String.join_append, String.join_cons]
      cases l <;> cases t <;> simp [leadingText, trailingText, firstTerminal?, lastTerminal?,
        Token.leadingText, Token.trailingText, String.append_assoc]
    | @trivia s own =>
      intro l t
      rw [fullText_trivia, text_eq, pieces]
      cases l <;> cases t <;> simp [leadingText, trailingText, firstTerminal?, lastTerminal?]
  exact splits l t

private theorem exists_of_firstTerminalIn {cs : List Element} {t : Token}
    (found : firstTerminalIn cs = some t) : ∃ c ∈ cs, c.firstTerminal? = some t := by
  induction cs with
  | nil => cases found
  | cons c cs ih =>
    rw [firstTerminalIn] at found
    split at found
    · exact ⟨c, List.mem_cons_self, found⟩
    · obtain ⟨d, mem, first⟩ := ih found
      exact ⟨d, List.mem_cons_of_mem c mem, first⟩

private theorem exists_of_lastTerminalIn {cs : List Element} {t : Token}
    (found : lastTerminalIn (fun _ => none) cs = some t) :
    ∃ c ∈ cs, c.lastTerminal? = some t := by
  induction cs with
  | nil => cases found
  | cons c cs ih =>
    rw [lastTerminalIn] at found
    split at found
    · rw [lastTerminalIn_eq] at found
      split at found
      · obtain ⟨d, mem, last⟩ := ih found
        exact ⟨d, List.mem_cons_of_mem c mem, last⟩
      · exact ⟨c, List.mem_cons_self, found⟩
    · obtain ⟨d, mem, last⟩ := ih found
      exact ⟨d, List.mem_cons_of_mem c mem, last⟩

theorem part_of_firstTerminal? {e : Element} {t : Token} (found : e.firstTerminal? = some t) :
    (Element.token t).Part e := by
  induction e using Element.induction with
  | node n parts =>
    rw [firstTerminal?] at found
    obtain ⟨c, mem, first⟩ := exists_of_firstTerminalIn found
    exact .child mem (parts c mem first)
  | token s =>
    obtain rfl := Option.some.inj found
    exact .self _
  | trivia s => cases found

theorem part_of_lastTerminal? {e : Element} {t : Token} (found : e.lastTerminal? = some t) :
    (Element.token t).Part e := by
  induction e using Element.induction with
  | node n parts =>
    rw [lastTerminal?] at found
    obtain ⟨c, mem, last⟩ := exists_of_lastTerminalIn found
    exact .child mem (parts c mem last)
  | token s =>
    obtain rfl := Option.some.inj found
    exact .self _
  | trivia s => cases found

end Element

theorem Trivia.Sound.size_texts {ts : List Trivia} (sound : ∀ t ∈ ts, t.Sound) :
    (String.join (ts.map Trivia.text)).utf8ByteSize = (ts.map fun t => t.head.fullWidth).sum := by
  induction ts with
  | nil => rfl
  | cons t ts ih =>
    obtain ⟨first, others⟩ := List.forall_mem_cons.1 sound
    rw [List.map_cons, String.join_cons, String.utf8ByteSize_append, ih others, List.map_cons,
      List.sum_cons, first.fullWidth]

theorem Token.Sound.size_leadingText {t : Token} (sound : t.Sound) :
    t.leadingText.utf8ByteSize = t.leadingWidth := by
  rw [leadingText, Trivia.Sound.size_texts sound.leading, sound.leadingWidth]

theorem Token.Sound.size_trailingText {t : Token} (sound : t.Sound) :
    t.trailingText.utf8ByteSize = t.trailingWidth := by
  rw [trailingText, Trivia.Sound.size_texts sound.trailing, sound.trailingWidth]

namespace Element

theorem leadingWidth_eq (e : Element) :
    e.leadingWidth = (e.firstTerminal?.map Token.leadingWidth).getD 0 := by
  cases e <;> simp [leadingWidth, firstTerminal?]

theorem trailingWidth_eq (e : Element) :
    e.trailingWidth = (e.lastTerminal?.map Token.trailingWidth).getD 0 := by
  cases e <;> simp [trailingWidth, lastTerminal?]

theorem Sound.size_leadingText {e : Element} (sound : e.Sound) :
    e.leadingText.utf8ByteSize = e.leadingWidth := by
  rw [leadingWidth_eq, leadingText]
  cases found : e.firstTerminal? with
  | none => rfl
  | some t =>
    have own := sound_token_iff.1 (sound.part (part_of_firstTerminal? found))
    exact own.size_leadingText

theorem Sound.size_trailingText {e : Element} (sound : e.Sound) :
    e.trailingText.utf8ByteSize = e.trailingWidth := by
  rw [trailingWidth_eq, trailingText]
  cases found : e.lastTerminal? with
  | none => rfl
  | some t =>
    have own := sound_token_iff.1 (sound.part (part_of_lastTerminal? found))
    exact own.size_trailingText

theorem Sound.fullText_eq_display {e : Element} (sound : e.Sound) :
    e.fullText = e.leadingText ++ e.display ++ e.trailingText ∧
      e.display.utf8ByteSize = e.width := by
  have split := sound.fullText_split false false
  simp only [Bool.false_eq_true, if_false] at split
  refine ⟨split, ?_⟩
  have whole := sound.fullWidth_eq
  have before := sound.size_leadingText
  have behind := sound.size_trailingText
  rw [split, String.utf8ByteSize_append, String.utf8ByteSize_append] at whole
  rw [width, display]
  omega

theorem Sound.widths_add_up {e : Element} (sound : e.Sound) :
    e.leadingWidth + e.width + e.trailingWidth = e.fullWidth := by
  obtain ⟨split, shown⟩ := sound.fullText_eq_display
  have before := sound.size_leadingText
  have behind := sound.size_trailingText
  have whole := sound.fullWidth_eq
  rw [split, String.utf8ByteSize_append, String.utf8ByteSize_append] at whole
  omega

theorem Sound.checkedWidth_eq {e : Element} (sound : e.Sound) : e.checkedWidth = .ok e.width :=
  checkedWidth_eq_ok_iff.2 sound.widths_add_up

end Element

end GreenTree
