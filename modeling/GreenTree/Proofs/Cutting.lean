import GreenTree.Proofs.Placed.Positions

/-!
Texts that are cut. The text that is written of an element is cut out of its full text at the widths
of its outermost trivia. Which terminals the writing trims and which terminals the widths count are
found by two different searches, and both have to end at the same ones.
-/

namespace GreenTree

namespace StandsAt

theorem cut?_front (before behind : String) :
    (Span.mk 0 before.utf8ByteSize).cut? (before ++ behind) = some before := by
  have stands : StandsAt (before ++ behind) 0 before := (self (before ++ behind)).left
  have cut := stands.cut?
  rw [Nat.zero_add] at cut
  exact cut

theorem cut?_back (before behind : String) :
    (Span.mk before.utf8ByteSize (before ++ behind).utf8ByteSize).cut? (before ++ behind) =
      some behind := by
  have stands : StandsAt (before ++ behind) (0 + before.utf8ByteSize) behind :=
    (self (before ++ behind)).right
  have cut := stands.cut?
  rw [Nat.zero_add, ← String.utf8ByteSize_append] at cut
  exact cut

end StandsAt

namespace Element

/-- Whatever sides are asked for, the text of an element stands in its full text behind what is lost
in front, and what is lost at the end stands behind it. -/
theorem Sound.text_stands {e : Element} (sound : e.Sound) (l t : Bool) :
    StandsAt e.fullText (if l then 0 else e.leadingWidth) (e.text l t) ∧
      (if l then 0 else e.leadingWidth) + (e.text l t).utf8ByteSize +
        (if t then 0 else e.trailingWidth) = e.fullText.utf8ByteSize := by
  have split := sound.fullText_split l t
  have front : (if l then "" else e.leadingText).utf8ByteSize =
      if l then 0 else e.leadingWidth := by
    cases l with
    | true => rfl
    | false => exact sound.size_leadingText
  have back : (if t then "" else e.trailingText).utf8ByteSize =
      if t then 0 else e.trailingWidth := by
    cases t with
    | true => rfl
    | false => exact sound.size_trailingText
  have size := congrArg String.utf8ByteSize split
  rw [String.utf8ByteSize_append, String.utf8ByteSize_append, front, back] at size
  exact ⟨⟨_, _, split, front⟩, size.symm⟩

/-- The text that is written of an element is its full text without as many bytes as its outermost
trivia are wide, on each side that is not asked for; so the widths of these trivia never take more
than the full width, and what is left of it is the length of what is shown. -/
theorem Obtained.text_trimmed {e : Element} (obtained : e.Obtained) :
    (∀ l t, e.textInto .unlimited "" l t = (e.text l t, true) ∧
      (Span.mk (if l then 0 else e.leadingWidth)
        (e.fullText.utf8ByteSize - if t then 0 else e.trailingWidth)).cut? e.fullText =
          some (e.text l t)) ∧
    e.leadingWidth + e.trailingWidth ≤ e.fullWidth ∧
    e.leadingWidth + e.width + e.trailingWidth = e.fullWidth ∧
    e.display.utf8ByteSize = e.width := by
  have sound := obtained.sound
  have total := sound.widths_add_up
  refine ⟨?_, by omega, total, sound.fullText_eq_display.2⟩
  intro l t
  constructor
  · simp only [text, textInto, writeText_eq, TextSink.putAll_unlimited]
  · obtain ⟨stands, size⟩ := sound.text_stands l t
    have cut := stands.cut?
    have stop : (if l then 0 else e.leadingWidth) + (e.text l t).utf8ByteSize =
        e.fullText.utf8ByteSize - if t then 0 else e.trailingWidth := by
      omega
    rw [stop] at cut
    exact cut

theorem text_trimmed_endOfFile :
    let blank : Trivia := ⟨0, ⟨.whitespaceTrivia, {}, 2, .empty⟩, "\u00a0"⟩
    let comment : Trivia := ⟨1, ⟨.singleLineCommentTrivia, {}, 2, .empty⟩, "//"⟩
    let empty : Node Element := ⟨2, ⟨.listNode, {}, 0, .empty⟩, []⟩
    let hole : Token := ⟨3, ⟨.semicolon, { missing := true }, 0, .empty⟩, "", [], [], 0, 0⟩
    let last : Token := ⟨4, ⟨.eof, {}, 4, .empty⟩, "", [blank], [comment], 2, 2⟩
    let root : Node Element :=
      ⟨5, ⟨.listNode, {}, 4, .empty⟩, [.node empty, .token hole, .token last]⟩
    let e : Element := .node root
    e.Obtained ∧ e.leadingWidth = 2 ∧ e.trailingWidth = 2 ∧
      (Span.mk 2 4).cut? e.fullText = some (e.text false true) ∧
      (Span.mk 0 2).cut? e.fullText = some (e.text true false) ∧
      e.display.utf8ByteSize = 0 := by
  intro blank comment empty hole last root e
  have madeBlank : Trivia.make 0 .whitespaceTrivia "\u00a0" .empty = .ok blank := rfl
  have madeComment : Trivia.make 1 .singleLineCommentTrivia "//" .empty = .ok comment := rfl
  have madeEmpty : Node.plain 2 .listNode [] = .ok empty := rfl
  have madeHole : Token.missing 3 .semicolon = .ok hole := rfl
  have madeLast : Token.make 4 .eof false "" [blank] [comment] .empty = .ok last := rfl
  have madeRoot : Node.plain 5 .listNode [.node empty, .token hole, .token last] = .ok root := rfl
  have obtainedBlank : (Element.trivia blank).Obtained :=
    .trivia Overlay.addressable_empty madeBlank
  have obtainedComment : (Element.trivia comment).Obtained :=
    .trivia Overlay.addressable_empty madeComment
  have obtainedEmpty : (Element.node empty).Obtained := .node (by simp) madeEmpty
  have obtainedLast : (Element.token last).Obtained :=
    .token (by simpa using obtainedBlank) (by simpa using obtainedComment) madeLast
  have obtained : e.Obtained :=
    .node (by simpa using ⟨obtainedEmpty, .missing madeHole, obtainedLast⟩) madeRoot
  obtain ⟨cuts, -, -, shown⟩ := obtained.text_trimmed
  have leading : e.leadingWidth = 2 := rfl
  have trailing : e.trailingWidth = 2 := rfl
  have size : e.fullText.utf8ByteSize = 4 := (obtained.sound.fullWidth_eq).symm
  have withoutLeading := (cuts false true).2
  have withoutTrailing := (cuts true false).2
  rw [size, leading] at withoutLeading
  rw [size, trailing] at withoutTrailing
  exact ⟨obtained, leading, trailing, withoutLeading, withoutTrailing, shown⟩

end Element

end GreenTree
