import GreenTree.Proofs.Equality

/-!
The lists that are attached to an element can be exchanged like fields of a record. Attaching makes
the element anew: the maker checks the kind and counts the widths again, and adds up the bits from
the old mark of what is missing and from the parts. Since all of this was right before, the new
element is the old one but for its cell, for what is attached, and for the bits that report this;
the laws of the two lists are then those of the fields of an overlay.
-/

namespace GreenTree

namespace Element

def ownBits : Element → Summary
  | .node n => ({ missing := n.head.summary.missing } : Summary).union (Node.inherited n.children)
  | .token t =>
    ({ missing := t.head.summary.missing } : Summary).union
      (Trivia.inherited (t.leading ++ t.trailing))
  | .trivia t => Trivia.kindSummary t.head.kind

def withHead (cell : Nat) (head : Head) : Element → Element
  | .node n => .node { n with cell, head }
  | .token t => .token { t with cell, head }
  | .trivia t => .trivia { t with cell, head }

def attached (cell : Nat) (e : Element) (overlay : Overlay) : Element :=
  e.withHead cell (.make e.kind e.ownBits e.fullWidth overlay)

/-- What an element says and holds besides what is attached to it: its parts stay the objects that
they are. -/
def bare (e : Element) : Element := e.withHead 0 e.head.erased

@[simp] theorem withHead_head (cell : Nat) (head : Head) (e : Element) :
    (e.withHead cell head).head = head := by
  cases e <;> rfl

@[simp] theorem withHead_withHead (cell cell' : Nat) (head head' : Head) (e : Element) :
    (e.withHead cell head).withHead cell' head' = e.withHead cell' head' := by
  cases e <;> rfl

theorem withHead_self (e : Element) : e.withHead e.cell e.head = e := by
  cases e <;> rfl

theorem withHead_verbatim (cell cell' : Nat) (head : Head) (e : Element) :
    (e.withHead cell head).Verbatim (e.withHead cell' head) := by
  cases e <;> rfl

theorem withHead_erased (cell cell' : Nat) (head : Head) (e : Element) :
    (e.withHead cell head).erased = (e.withHead cell' head.erased).erased := by
  have twice (h : Head) : h.erased.erased = h.erased := by
    simp [Head.erased, Summary.structural, Summary.difference, Summary.metadata]
  cases e <;> simp [withHead, erased, Token.erased, Trivia.erased, twice]

theorem bare_erased (e : Element) : e.bare.erased = e.erased := by
  rw [bare, ← withHead_erased e.cell, withHead_self]

@[simp] theorem attached_overlay (cell : Nat) (e : Element) (overlay : Overlay) :
    (e.attached cell overlay).overlay = overlay := by
  simp [attached, Element.overlay, Head.make]

theorem attached_verbatim (cell cell' : Nat) (e : Element) (overlay : Overlay) :
    (e.attached cell overlay).Verbatim (e.attached cell' overlay) :=
  withHead_verbatim cell cell' _ e

namespace Sound

variable {e : Element}

theorem summary_eq (sound : e.Sound) : e.summary = e.ownBits.union e.overlay.summary := by
  cases sound with
  | node own _ => exact own.summary
  | token own => exact own.summary
  | trivia own => exact own.summary

theorem attached_self (sound : e.Sound) : e.attached e.cell e.overlay = e := by
  have head : Head.make e.kind e.ownBits e.fullWidth e.overlay = e.head := by
    rw [Head.make, ← sound.summary_eq]
    rfl
  rw [attached, head, withHead_self]

theorem bare_attached (sound : e.Sound) (cell : Nat) (overlay : Overlay) :
    (e.attached cell overlay).bare = e.bare := by
  have head : (Head.make e.kind e.ownBits e.fullWidth overlay).erased = e.head.erased := by
    have blank (o : Overlay) : o.summary.structural = .empty := by
      simp [Overlay.summary, Summary.structural, Summary.difference, Summary.metadata,
        Summary.empty]
    have bits : e.head.summary = e.ownBits.union e.overlay.summary := sound.summary_eq
    simp only [Head.make, Head.erased, bits, Summary.structural_union, blank]
    rfl
  rw [bare, attached, withHead_head, withHead_withHead, head, ← bare]

theorem withOverlay_eq (sound : e.Sound) (cell : Nat) (overlay : Overlay) :
    e.withOverlay cell overlay = .ok (e.attached cell overlay) := by
  cases sound with
  | @node n own parts =>
    have made :=
      Node.make_eq_ok cell n.head.summary.missing overlay own.kind own.shape own.fullWidth own.fits
    rw [Element.withOverlay, Node.withOverlay_eq_make, made]
    rfl
  | @token t own =>
    have made := Token.make_eq_ok cell t.head.summary.missing overlay own.kind own.leadingWidth
      own.trailingWidth own.fullWidth own.fits
    rw [Element.withOverlay, Token.withOverlay_eq_make, made]
    rfl
  | @trivia t own =>
    have made := Trivia.make_eq_ok cell overlay own.kind (own.fullWidth ▸ own.fits)
    rw [Element.withOverlay, Trivia.withOverlay, made, ← own.fullWidth]
    rfl

end Sound

theorem withOverlay_attached (cell cell' : Nat) (e : Element) (overlay overlay' : Overlay) :
    (e.attached cell overlay).withOverlay cell' overlay' = e.withOverlay cell' overlay' := by
  cases e <;> simp [attached, withHead, ownBits, withOverlay, Node.withOverlay_eq_make,
    Token.withOverlay_eq_make, Trivia.withOverlay, Head.make, Element.kind, Element.head]

end Element

/-- One of the lists of an overlay, as a field that can be exchanged. -/
structure Overlay.Field (α : Type) where
  get : Overlay → List α
  set : Overlay → List α → Overlay
  get_set (o : Overlay) (xs : List α) : get (set o xs) = xs
  set_get (o : Overlay) : set o (get o) = o
  set_set (o : Overlay) (xs ys : List α) : set (set o xs) ys = set o ys

namespace Overlay

def diagnosticsField : Field Diagnostic where
  get := diagnostics
  set o diagnostics := { o with diagnostics }
  get_set _ _ := rfl
  set_get _ := rfl
  set_set _ _ _ := rfl

def annotationsField : Field Annotation where
  get := annotations
  set o annotations := { o with annotations }
  get_set _ _ := rfl
  set_get _ := rfl
  set_set _ _ _ := rfl

end Overlay

namespace Element

/-- The laws of a list that can be exchanged on an element. Exchanging it never fails, not even
twice: the new list is then there, only the last one counts, and the old one can be put back.
Elements made in different cells are verbatim the same. -/
structure LensLaws {α : Type} (get : Element → List α)
    (put : Nat → Element → List α → Except Fault Element) (e : Element) : Prop where
  put_get (cell : Nat) (xs : List α) : ∃ e', put cell e xs = .ok e' ∧ get e' = xs
  put_put (cell cell' cell'' : Nat) (xs ys : List α) : ∃ first second once,
    put cell e xs = .ok first ∧ put cell' first ys = .ok second ∧ put cell'' e ys = .ok once ∧
      second.Verbatim once
  get_put (cell : Nat) : ∃ e', put cell e (get e) = .ok e' ∧ e'.Verbatim e

/-- A list of the overlay is exchanged on an element as it is in the overlay. -/
theorem Sound.lensLaws {α : Type} {e : Element} (sound : e.Sound) (field : Overlay.Field α) :
    LensLaws (fun e => field.get e.overlay)
      (fun cell e xs => e.withOverlay cell (field.set e.overlay xs)) e where
  put_get cell xs := by
    refine ⟨_, sound.withOverlay_eq cell _, ?_⟩
    rw [attached_overlay, field.get_set]
  put_put cell cell' cell'' xs ys := by
    refine ⟨_, _, _, sound.withOverlay_eq cell _, ?_, sound.withOverlay_eq cell'' _,
      attached_verbatim cell' cell'' e _⟩
    rw [attached_overlay, field.set_set, withOverlay_attached, sound.withOverlay_eq]
  get_put cell := by
    refine ⟨_, sound.withOverlay_eq cell _, ?_⟩
    have back := attached_verbatim cell e.cell e e.overlay
    rwa [sound.attached_self, ← field.set_get e.overlay] at back

/-- Whether an element is another one but for its cell, what is attached to it, and the bits that
report this. -/
structure Keeps (e e' : Element) : Prop extends e'.LooksAs e where
  bare : e'.bare = e.bare
  equivalent : e.isEquivalent e' = true
  equivalent' : e'.isEquivalent e = true

theorem keeps_of_bare {e e' : Element} (same : e'.bare = e.bare) : e.Keeps e' := by
  have erased : e'.erased = e.erased := by rw [← bare_erased, same, bare_erased]
  exact {
    toLooksAs := looksAs_of_erased erased
    bare := same
    equivalent := isEquivalent_of_comparesEqual (comparesEqual_of_erased erased.symm)
    equivalent' := isEquivalent_of_comparesEqual (comparesEqual_of_erased erased) }

theorem Sound.withOverlay_keeps {e e' : Element} (sound : e.Sound) {cell : Nat} {overlay : Overlay}
    (made : e.withOverlay cell overlay = .ok e') : e'.overlay = overlay ∧ e.Keeps e' := by
  obtain rfl : e.attached cell overlay = e' :=
    Except.ok.inj ((sound.withOverlay_eq cell overlay).symm.trans made)
  exact ⟨attached_overlay cell e overlay, keeps_of_bare (sound.bare_attached cell overlay)⟩

/-- Exchanging the diagnostics and exchanging the annotations of an element never fails and obeys
the laws of fields; in whichever order both are exchanged, the outcome is verbatim the same. The
other list stays, and so does all that the element says and holds otherwise. -/
theorem Obtained.overlay_lens {e : Element} (obtained : e.Obtained) :
    LensLaws (fun e => e.overlay.diagnostics) Element.withDiagnostics e ∧
      LensLaws (fun e => e.overlay.annotations) Element.withAnnotations e ∧
      (∀ cell cell' other other' diagnostics annotations, ∃ d da a ad,
        e.withDiagnostics cell diagnostics = .ok d ∧
        d.withAnnotations cell' annotations = .ok da ∧
        e.withAnnotations other annotations = .ok a ∧
        a.withDiagnostics other' diagnostics = .ok ad ∧
          da.Verbatim ad) ∧
      (∀ cell diagnostics e', e.withDiagnostics cell diagnostics = .ok e' →
        e'.overlay.annotations = e.overlay.annotations ∧ e.Keeps e') ∧
      ∀ cell annotations e', e.withAnnotations cell annotations = .ok e' →
        e'.overlay.diagnostics = e.overlay.diagnostics ∧ e.Keeps e' := by
  have sound := obtained.sound
  refine ⟨sound.lensLaws Overlay.diagnosticsField,
    sound.lensLaws Overlay.annotationsField, ?_, ?_, ?_⟩
  · intro cell cell' other other' diagnostics annotations
    refine ⟨_, _, _, _, sound.withOverlay_eq cell _, ?_, sound.withOverlay_eq other _, ?_,
      attached_verbatim cell' other' e ⟨diagnostics, annotations⟩⟩
    · rw [Element.withAnnotations, attached_overlay, withOverlay_attached, sound.withOverlay_eq]
    · rw [Element.withDiagnostics, attached_overlay, withOverlay_attached, sound.withOverlay_eq]
  · intro cell diagnostics e' made
    obtain ⟨overlay, keeps⟩ := sound.withOverlay_keeps made
    exact ⟨by rw [overlay], keeps⟩
  · intro cell annotations e' made
    obtain ⟨overlay, keeps⟩ := sound.withOverlay_keeps made
    exact ⟨by rw [overlay], keeps⟩

theorem overlay_lens_twiceReported :
    let mark : Annotation := ⟨1, some "rename", none⟩
    let trouble : Diagnostic := ⟨⟨7⟩, .warning, 0, 1, []⟩
    let blank : Trivia := ⟨0, ⟨.whitespaceTrivia, {}, 1, .empty⟩, " "⟩
    let marked : Token := ⟨2, ⟨.ident, { annotations := true }, 3, ⟨[], [mark]⟩⟩, "é",
      [blank], [], 1, 0⟩
    let e := Element.token marked
    e.Obtained ∧ ∃ e', e.withDiagnostics 3 [trouble, trouble] = .ok e' ∧
      e'.overlay.diagnostics = [trouble, trouble] ∧ e'.overlay.annotations = [mark] ∧
      e.Keeps e' := by
  intro mark trouble blank marked e
  let name : Token := ⟨1, ⟨.ident, {}, 3, .empty⟩, "é", [blank], [], 1, 0⟩
  have madeBlank : Trivia.make 0 .whitespaceTrivia " " .empty = .ok blank := rfl
  have madeName : Token.make 1 .ident false "é" [blank] [] .empty = .ok name := rfl
  have madeMarked : (Element.token name).withAnnotations 2 [mark] = .ok e := by
    simp only [e, name, marked, blank]
    rfl
  have obtainedBlank : (Element.trivia blank).Obtained := .trivia (by simp) madeBlank
  have obtainedName : (Element.token name).Obtained :=
    .token (by simpa using obtainedBlank) (by simp) madeName
  have obtained : e.Obtained :=
    .withAnnotations obtainedName (by rw [Overlay.addressable_iff]; decide) madeMarked
  obtain ⟨diagnostics, -, -, reported, -⟩ := obtained.overlay_lens
  obtain ⟨e', made, got⟩ := diagnostics.put_get 3 [trouble, trouble]
  obtain ⟨other, keeps⟩ := reported 3 _ e' made
  exact ⟨obtained, e', made, got, other, keeps⟩

end Element

end GreenTree
