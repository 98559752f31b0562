import GreenTree.Proofs.Equivalence
import GreenTree.Proofs.TrimmedText

/-!
The text of what is left when everything attached is erased. Texts and widths depend on nothing that
is erased, so elements of which the same is left read the same.
-/

namespace GreenTree

@[simp] theorem Trivia.map_text_erased (ts : List Trivia) :
    (ts.map Trivia.erased).map Trivia.text = ts.map Trivia.text := by
  rw [List.map_map]
  rfl

namespace Element

@[simp] theorem erased_spansText (e : Element) : e.erased.spansText = e.spansText := by
  rw [spansText, erased_fullWidth, spansText]

@[simp] theorem any_spansText_erased (cs : List Element) :
    (cs.map erased).any spansText = cs.any spansText := by
  rw [List.any_map]
  exact congrArg cs.any (funext erased_spansText)

private theorem piecesOf_erased {cs : List Element}
    (parts : ∀ c ∈ cs, ∀ l t, c.erased.pieces l t = c.pieces l t) (l t before : Bool) :
    piecesOf l t before (cs.map erased) = piecesOf l t before cs := by
  induction cs generalizing before with
  | nil => rfl
  | cons c cs ih =>
    obtain ⟨first, others⟩ := List.forall_mem_cons.1 parts
    simp only [List.map_cons, piecesOf, erased_spansText, any_spansText_erased, first, ih others]

/-- The text of an element comes in the same pieces without what is attached. -/
theorem erased_pieces (e : Element) (l t : Bool) : e.erased.pieces l t = e.pieces l t := by
  induction e using Element.induction generalizing l t with
  | node n parts => simp only [erased, allErased_eq, pieces, piecesOf_erased parts]
  | token s => simp only [erased, Token.erased, pieces, Trivia.map_text_erased]
  | trivia s => rfl

private theorem firstTerminalIn_erased {cs : List Element}
    (parts : ∀ c ∈ cs, c.erased.firstTerminal? = c.firstTerminal?.map Token.erased) :
    firstTerminalIn (cs.map erased) = (firstTerminalIn cs).map Token.erased := by
  induction cs with
  | nil => rfl
  | cons c cs ih =>
    obtain ⟨first, others⟩ := List.forall_mem_cons.1 parts
    simp only [List.map_cons, firstTerminalIn, erased_spansText, first, ih others]
    split <;> rfl

theorem erased_firstTerminal? (e : Element) :
    e.erased.firstTerminal? = e.firstTerminal?.map Token.erased := by
  induction e using Element.induction with
  | node n parts => simp only [erased, allErased_eq, firstTerminal?, firstTerminalIn_erased parts]
  | token t => rfl
  | trivia t => rfl

private theorem lastTerminalIn_erased {cs : List Element}
    (parts : ∀ c ∈ cs, c.erased.lastTerminal? = c.lastTerminal?.map Token.erased) :
    ∀ found : Option Token, lastTerminalIn (fun _ => found.map Token.erased) (cs.map erased) =
      (lastTerminalIn (fun _ => found) cs).map Token.erased := by
  induction cs with
  | nil => exact fun _ => rfl
  | cons c cs ih =>
    obtain ⟨last, others⟩ := List.forall_mem_cons.1 parts
    intro found
    simp only [List.map_cons, lastTerminalIn, erased_spansText, last, ih others]
    split <;> rfl

theorem erased_lastTerminal? (e : Element) :
    e.erased.lastTerminal? = e.lastTerminal?.map Token.erased := by
  induction e using Element.induction with
  | node n parts =>
    simp only [erased, allErased_eq, lastTerminal?]
    exact lastTerminalIn_erased parts none
  | token t => rfl
  | trivia t => rfl

theorem erased_leadingWidth (e : Element) : e.erased.leadingWidth = e.leadingWidth := by
  rw [leadingWidth_eq, leadingWidth_eq, erased_firstTerminal?, Option.map_map]
  rfl

theorem erased_trailingWidth (e : Element) : e.erased.trailingWidth = e.trailingWidth := by
  rw [trailingWidth_eq, trailingWidth_eq, erased_lastTerminal?, Option.map_map]
  rfl

theorem erased_text (e : Element) (l t : Bool) : e.erased.text l t = e.text l t := by
  rw [text_eq, text_eq, erased_pieces]

theorem erased_width (e : Element) : e.erased.width = e.width := by
  rw [width, width, erased_fullWidth, erased_leadingWidth, erased_trailingWidth]

/-- Whether two elements have the same texts, with and without the outermost trivia, and the same
widths. -/
structure ReadsAs (a b : Element) : Prop where
  text : ∀ leading trailing, a.text leading trailing = b.text leading trailing
  fullWidth : a.fullWidth = b.fullWidth
  leadingWidth : a.leadingWidth = b.leadingWidth
  trailingWidth : a.trailingWidth = b.trailingWidth
  width : a.width = b.width

theorem readsAs_of_erased {a b : Element} (same : a.erased = b.erased) : a.ReadsAs b where
  text l t := by rw [← a.erased_text, same, b.erased_text]
  fullWidth := by rw [← a.erased_fullWidth, same, b.erased_fullWidth]
  leadingWidth := by rw [← a.erased_leadingWidth, same, b.erased_leadingWidth]
  trailingWidth := by rw [← a.erased_trailingWidth, same, b.erased_trailingWidth]
  width := by rw [← a.erased_width, same, b.erased_width]

end Element

end GreenTree
