import Mathlib.Data.String.Basic
import GreenTree.Element.Path
import GreenTree.Placed
import GreenTree.Proofs.TrimmedText

/-!
Positions of handles. A handle that is reached from the root of a tree stands where its text stands
in the full text of the root: no position on the way is past the largest one, the ranges of a handle
cut its texts out of the full text, and the ranges of what it holds follow one another without gaps
from its start to its end.
-/

namespace GreenTree

def Span.cut? (s : Span) (source : String) : Option String :=
  if String.Pos.Raw.isValid source ⟨s.start⟩ && String.Pos.Raw.isValid source ⟨s.stop⟩ &&
      decide (s.start ≤ s.stop) then
    some (String.Pos.Raw.extract source ⟨s.start⟩ ⟨s.stop⟩)
  else none

/-- Whether spans follow one another without gaps from a position to another. -/
def Tiles : Nat → List Span → Nat → Prop
  | start, [], stop => start = stop
  | start, s :: spans, stop => s.start = start ∧ Tiles s.stop spans stop

/-- Whether a text stands in another one behind a number of bytes. -/
def StandsAt (source : String) (position : Nat) (piece : String) : Prop :=
  ∃ before behind, source = before ++ piece ++ behind ∧ before.utf8ByteSize = position

namespace StandsAt

variable {source a b : String} {position : Nat}

theorem self (source : String) : StandsAt source 0 source :=
  ⟨"", "", by simp, rfl⟩

theorem left (stands : StandsAt source position (a ++ b)) : StandsAt source position a := by
  obtain ⟨before, behind, rfl, rfl⟩ := stands
  exact ⟨before, b ++ behind, by simp only [String.append_assoc], rfl⟩

theorem right (stands : StandsAt source position (a ++ b)) :
    StandsAt source (position + a.utf8ByteSize) b := by
  obtain ⟨before, behind, rfl, rfl⟩ := stands
  exact ⟨before ++ a, behind, by simp only [String.append_assoc], String.utf8ByteSize_append⟩

theorem le (stands : StandsAt source position a) :
    position + a.utf8ByteSize ≤ source.utf8ByteSize := by
  obtain ⟨before, behind, rfl, rfl⟩ := stands
  rw [String.utf8ByteSize_append, String.utf8ByteSize_append]
  omega

theorem getElem {pieces : List String} (stands : StandsAt source position (String.join pieces))
    {i : Nat} {piece : String} (found : pieces[i]? = some piece) :
    StandsAt source (position + ((pieces.take i).map String.utf8ByteSize).sum) piece := by
  induction pieces generalizing position i with
  | nil => cases found
  | cons p pieces ih =>
    rw [String.join_cons] at stands
    cases i with
    | zero =>
      obtain rfl : p = piece := by simpa using found
      exact stands.left
    | succ i =>
      have below := ih stands.right (by simpa using found)
      rw [List.take_succ_cons, List.map_cons, List.sum_cons, ← Nat.add_assoc]
      exact below

theorem cut? (stands : StandsAt source position a) :
    (Span.mk position (position + a.utf8ByteSize)).cut? source = some a := by
  obtain ⟨before, behind, rfl, rfl⟩ := stands
  have first : String.Pos.Raw.isValid (before ++ a ++ behind) ⟨before.utf8ByteSize⟩ = true := by
    rw [String.Pos.Raw.isValid_eq_true_iff, String.Pos.Raw.isValid_iff_exists_append]
    exact ⟨before, a ++ behind, by rw [String.append_assoc], rfl⟩
  have last : String.Pos.Raw.isValid (before ++ a ++ behind)
      ⟨before.utf8ByteSize + a.utf8ByteSize⟩ = true := by
    rw [String.Pos.Raw.isValid_eq_true_iff, String.Pos.Raw.isValid_iff_exists_append]
    exact ⟨before ++ a, behind, rfl, by rw [← String.utf8ByteSize_append]; rfl⟩
  have extract := String.extract_of_valid before.toList a.toList behind.toList
  simp only [String.utf8Len_toList, String.ofList_append, String.ofList_toList] at extract
  rw [Span.cut?, first, last, extract, Bool.true_and, Bool.true_and,
    if_pos (decide_eq_true (Nat.le_add_right _ _))]

end StandsAt

theorem addSize_eq_ok {a b : Nat} (fits : a + b ≤ maxSize) : addSize a b = .ok (a + b) := by
  rw [addSize, addSize?, if_pos fits]

theorem addSize_eq_error {a b : Nat} (large : maxSize < a + b) :
    addSize a b = .error .sumOverflow := by
  rw [addSize, addSize?, if_neg (by omega)]

theorem Span.ofLength_eq_ok {start length : Nat} (fits : start + length ≤ maxSize) :
    ofLength start length = .ok ⟨start, start + length⟩ := by
  rw [ofLength, addSize_eq_ok fits]
  rfl

theorem Span.ofLength_eq_error {start length : Nat} (large : maxSize < start + length) :
    ofLength start length = .error .sumOverflow := by
  rw [ofLength, addSize_eq_error large]
  rfl

/-- Whether a range can be computed and cuts a text out of another one. -/
def Covers (source : String) (span : Except Fault Span) (piece : String) : Prop :=
  ∃ s, span = .ok s ∧ s.cut? source = some piece

theorem StandsAt.covers {source piece : String} {position width : Nat}
    (stands : StandsAt source position piece) (exact : piece.utf8ByteSize = width)
    (small : source.utf8ByteSize ≤ maxSize) :
    Covers source (Span.ofLength position width) piece := by
  have inside := stands.le
  rw [← exact]
  exact ⟨_, Span.ofLength_eq_ok (by omega), stands.cut?⟩

def starts (position : Nat) : List Nat → List Nat
  | [] => []
  | width :: widths => position :: starts (position + width) widths

theorem getElem?_starts (position : Nat) (widths : List Nat) (i : Nat)
    (inside : i < widths.length) :
    (starts position widths)[i]? = some (position + (widths.take i).sum) := by
  induction widths generalizing position i with
  | nil => cases inside
  | cons width widths ih =>
    cases i with
    | zero => simp [starts]
    | succ i =>
      have below : i < widths.length := by simpa using inside
      simp only [starts, List.getElem?_cons_succ, ih _ i below, List.take_succ_cons, List.sum_cons]
      congr 1
      omega

theorem exists_tiles {α : Type} {position width : α → Nat} {span : α → Except Fault Span}
    (measured : ∀ a, span a = Span.ofLength (position a) (width a)) {as : List α} {start : Nat}
    (inOrder : as.map position = starts start (as.map width))
    (fits : start + (as.map width).sum ≤ maxSize) :
    ∃ spans, as.mapM span = .ok spans ∧ Tiles start spans (start + (as.map width).sum) := by
  induction as generalizing start with
  | nil => exact ⟨[], rfl, rfl⟩
  | cons a as ih =>
    simp only [List.map_cons, starts, List.cons.injEq] at inOrder
    obtain ⟨here, behind⟩ := inOrder
    rw [List.map_cons, List.sum_cons] at fits
    obtain ⟨spans, computed, tiles⟩ := ih behind (by omega)
    have first : span a = .ok ⟨start, start + width a⟩ := by
      rw [measured, here, Span.ofLength_eq_ok (by omega)]
    refine ⟨⟨start, start + width a⟩ :: spans, ?_, rfl, ?_⟩
    · rw [List.mapM_cons, first, computed]
      rfl
    · rw [List.map_cons, List.sum_cons, ← Nat.add_assoc]
      exact tiles

theorem Tiles.append {first last : List Span} {start middle stop : Nat}
    (before : Tiles start first middle) (behind : Tiles middle last stop) :
    Tiles start (first ++ last) stop := by
  induction first generalizing start with
  | nil =>
    obtain rfl : start = middle := before
    exact behind
  | cons s first ih =>
    obtain ⟨here, rest⟩ := before
    exact ⟨here, ih rest⟩

namespace PlacedElement

def offset (h : PlacedElement) : Nat := h.elim PlacedNode.offset PlacedToken.offset

def above (h : PlacedElement) : List Place := h.elim PlacedNode.above PlacedToken.above

theorem parent?_eq (h : PlacedElement) : h.parent? = PlacedNode.ofPlaces? h.above := by
  cases h <;> rfl

theorem span_eq (h : PlacedElement) : h.span = Span.ofLength h.offset h.element.fullWidth := by
  cases h <;> rfl

theorem trimmedSpan_eq (h : PlacedElement) : h.trimmedSpan = (do
    let start ← addSize h.offset h.element.leadingWidth
    Span.ofLength start (← h.element.checkedWidth)) := by
  cases h <;> rfl

end PlacedElement

namespace PlacedNode

variable {n : PlacedNode} {cs : List Element} {position index : Nat} {placed : List PlacedElement}

theorem placeFrom_cons_eq_ok_iff {c : Element} :
    n.placeFrom position index (c :: cs) = .ok placed ↔
      ∃ next h rest, addSize position c.fullWidth = .ok next ∧
      c.placeAt (some n) position index = .ok h ∧
      n.placeFrom next (index + 1) cs = .ok rest ∧ placed = h :: rest := by
  simp only [placeFrom, bind_eq_ok_iff, pure, Except.pure, Except.ok.injEq, eq_comm (a := placed)]
  grind

theorem exists_placeFrom (n : PlacedNode) (position index : Nat)
    (shape : ∀ c ∈ cs, c.isTrivia = false)
    (fits : position + (cs.map Element.fullWidth).sum ≤ maxSize) :
    ∃ placed, n.placeFrom position index cs = .ok placed ∧
      placed.map PlacedElement.element = cs ∧
      placed.map PlacedElement.offset = starts position (cs.map Element.fullWidth) := by
  induction cs generalizing position index with
  | nil => exact ⟨[], rfl, rfl, rfl⟩
  | cons c cs ih =>
    obtain ⟨shapeC, shapeCs⟩ := List.forall_mem_cons.1 shape
    rw [List.map_cons, List.sum_cons] at fits
    obtain ⟨rest, behind, elements, offsets⟩ :=
      ih (position + c.fullWidth) (index + 1) shapeCs (by omega)
    have next : addSize position c.fullWidth = .ok (position + c.fullWidth) :=
      addSize_eq_ok (by omega)
    have first : ∃ h, c.placeAt (some n) position index = .ok h ∧ h.element = c ∧
        h.offset = position := by
      cases c with
      | node m => exact ⟨_, rfl, rfl, rfl⟩
      | token t => exact ⟨_, rfl, rfl, rfl⟩
      | trivia t => cases shapeC
    obtain ⟨h, made, element, offset⟩ := first
    refine ⟨h :: rest, placeFrom_cons_eq_ok_iff.2 ⟨_, h, rest, next, made, behind, rfl⟩,
      ?_, ?_⟩
    · rw [List.map_cons, element, elements]
    · rw [List.map_cons, offset, offsets, List.map_cons, starts]

theorem index_of_placeAt {c : Element} {h : PlacedElement}
    (made : c.placeAt (some n) position index = .ok h) :
    h.index = index ∧ h.above = n.places := by
  cases c with
  | node m =>
    obtain rfl := Except.ok.inj made
    exact ⟨rfl, rfl⟩
  | token t =>
    obtain rfl := Except.ok.inj made
    exact ⟨rfl, rfl⟩
  | trivia t => cases made

theorem index_of_placeFrom (all : n.placeFrom position index cs = .ok placed) {i : Nat}
    {h : PlacedElement} (found : placed[i]? = some h) :
    h.index = index + i ∧ h.above = n.places := by
  induction cs generalizing position index placed i with
  | nil =>
    obtain rfl : [] = placed := Except.ok.inj all
    cases found
  | cons c cs ih =>
    obtain ⟨next, first, rest, -, made, behind, rfl⟩ := placeFrom_cons_eq_ok_iff.1 all
    cases i with
    | zero =>
      obtain rfl : first = h := Option.some.inj found
      exact index_of_placeAt made
    | succ i =>
      obtain ⟨own, above⟩ := ih behind found
      exact ⟨by omega, above⟩

theorem index_of_childrenWithTokens (all : n.childrenWithTokens = .ok placed) {i : Nat}
    {h : PlacedElement} (found : placed[i]? = some h) : h.index = i ∧ h.above = n.places := by
  rw [← Nat.zero_add i]
  exact index_of_placeFrom all found

theorem exists_childrenWithTokens_of_children {m : PlacedNode} {nodes : List PlacedNode}
    (found : n.children = .ok nodes) (mem : m ∈ nodes) :
    ∃ placed, n.childrenWithTokens = .ok placed ∧ placed[m.index]? = some (.node m) := by
  obtain ⟨placed, all, rest⟩ := bind_eq_ok_iff.1 found
  obtain rfl : placed.filterMap NodeOrToken.node? = nodes := Except.ok.inj rest
  have inPlaced : NodeOrToken.node m ∈ placed := by
    obtain ⟨h, inPlaced, isNode⟩ := List.mem_filterMap.1 mem
    cases h with
    | node k =>
      obtain rfl : k = m := Option.some.inj isNode
      exact inPlaced
    | token t => cases isNode
  obtain ⟨i, there⟩ := List.mem_iff_getElem?.1 inPlaced
  obtain ⟨own, -⟩ := index_of_childrenWithTokens all there
  obtain rfl : m.index = i := own
  exact ⟨placed, all, there⟩

end PlacedNode

theorem PlacedToken.exists_placeFrom (t : PlacedToken) {runs : List Trivia} (position index : Nat)
    (fits : position + (runs.map fun s => s.head.fullWidth).sum ≤ maxSize) :
    ∃ placed, t.placeFrom position index runs = .ok placed ∧
      placed.map PlacedTrivia.trivia = runs ∧
      placed.map PlacedTrivia.position = starts position (runs.map fun s => s.head.fullWidth) ∧
      placed.map PlacedTrivia.index = List.range' index runs.length ∧
      ∀ s ∈ placed, s.owner = some t := by
  induction runs generalizing position index with
  | nil => exact ⟨[], rfl, rfl, rfl, rfl, by simp⟩
  | cons run runs ih =>
    rw [List.map_cons, List.sum_cons] at fits
    obtain ⟨rest, behind, trivia, positions, indices, owners⟩ :=
      ih (position + run.head.fullWidth) (index + 1) (by omega)
    have next : addSize position run.head.fullWidth = .ok (position + run.head.fullWidth) :=
      addSize_eq_ok (by omega)
    refine ⟨⟨run, position, index, some t⟩ :: rest, ?_, ?_, ?_, ?_,
      List.forall_mem_cons.2 ⟨rfl, owners⟩⟩
    · rw [placeFrom, next]
      change (placeFrom t _ _ runs >>= _) = _
      rw [behind]
      rfl
    · rw [List.map_cons, trivia]
    · rw [List.map_cons, positions, List.map_cons, starts]
    · rw [List.map_cons, indices, List.length_cons, List.range'_succ]

namespace Element

theorem childAt_eq_ok_iff {e c : Element} {i : Nat} :
    e.childAt i = .ok c ↔ e.children[i]? = some c := by
  cases e with
  | node n =>
    rw [childAt, slot, onPath, children, bind_eq_ok_iff]
    cases n.children[i]? with
    | none => simp [throw, throwThe, MonadExceptOf.throw]
    | some child => simp [pure, Except.pure]
  | token t =>
    change Except.error _ = _ ↔ _
    simp [children]
  | trivia t =>
    change Except.error _ = _ ↔ _
    simp [children]

theorem follow_cons_eq_ok_iff {e d : Element} {i : Nat} {path : List Nat} :
    e.follow (i :: path) = .ok d ↔ ∃ c, e.children[i]? = some c ∧ c.follow path = .ok d := by
  rw [follow, bind_eq_ok_iff]
  simp only [childAt_eq_ok_iff]

def bytesBefore (e : Element) : List Nat → Nat
  | [] => 0
  | i :: path =>
    ((e.children.take i).map fun c => c.fullText.utf8ByteSize).sum +
      ((e.children[i]?).map fun c => c.bytesBefore path).getD 0

theorem follow_concat {e c d : Element} {path : List Nat} {i : Nat} (way : e.follow path = .ok d)
    (child : d.children[i]? = some c) : e.follow (path ++ [i]) = .ok c ∧
      e.bytesBefore (path ++ [i]) = e.bytesBefore path +
        ((d.children.take i).map fun c => c.fullText.utf8ByteSize).sum := by
  induction path generalizing e with
  | nil =>
    obtain rfl : e = d := Except.ok.inj way
    rw [List.nil_append, follow_cons_eq_ok_iff]
    refine ⟨⟨c, child, rfl⟩, ?_⟩
    simp only [bytesBefore, child, Option.map_some, Option.getD_some]
    omega
  | cons j path ih =>
    obtain ⟨b, first, rest⟩ := follow_cons_eq_ok_iff.1 way
    obtain ⟨below, passed⟩ := ih rest
    rw [List.cons_append, follow_cons_eq_ok_iff]
    refine ⟨⟨b, first, below⟩, ?_⟩
    simp only [bytesBefore, first, Option.map_some, Option.getD_some, passed]
    omega

end Element

namespace PlacedElement

/-- The handles on and below a root, each with the indices of the children that lead to it. -/
inductive Reached (root : Node Element) : List Nat → PlacedElement → Prop
  | root : Reached root [] (.node (.root root))
  | childWithTokens {path : List Nat} {n : PlacedNode} {placed : List PlacedElement} {i : Nat}
      {h : PlacedElement} : Reached root path (.node n) → n.childrenWithTokens = .ok placed →
      placed[i]? = some h → Reached root (path ++ [i]) h
  | child {path : List Nat} {n m : PlacedNode} {nodes : List PlacedNode} :
      Reached root path (.node n) → n.children = .ok nodes → m ∈ nodes →
      Reached root (path ++ [m.index]) (.node m)

/-- What holds of the handle on a root, and of a handle on a child if it holds of the handle above
it, holds of all handles that are reached. -/
@[elab_as_elim]
theorem Reached.induction {root : Node Element}
    {P : (path : List Nat) → (h : PlacedElement) → Reached root path h → Prop}
    (start : P [] _ .root) (step : ∀ {path n placed i h} (above : Reached root path (.node n))
      (all : n.childrenWithTokens = .ok placed) (found : placed[i]? = some h), P path _ above →
      P (path ++ [i]) h (.childWithTokens above all found))
    {path : List Nat} {h : PlacedElement} (reached : Reached root path h) : P path h reached := by
  induction reached with
  | root => exact start
  | childWithTokens above all found ih => exact step above all found ih
  | child above found mem ih =>
    obtain ⟨placed, all, there⟩ := PlacedNode.exists_childrenWithTokens_of_children found mem
    exact step above all there ih

def HeldByParent (root : Node Element) (path : List Nat) (h : PlacedElement) : Prop :=
  path = [] ∧ h.parent? = none ∨
    ∃ front p, path = front ++ [h.index] ∧ Reached root front (.node p) ∧
      h.parent? = some p ∧ p.node.children[h.index]? = some h.element

/-- What holds of a handle where it is reached: it stands behind all text to its left. -/
structure Placing (root : Node Element) (path : List Nat) (h : PlacedElement) : Prop where
  sound : h.element.Sound
  way : (Element.node root).follow path = .ok h.element
  offset : h.offset = (Element.node root).bytesBefore path
  stands : StandsAt (Element.node root).fullText h.offset h.element.fullText
  parent : HeldByParent root path h

end PlacedElement

theorem PlacedNode.exists_childrenWithTokens {n : PlacedNode} (sound : n.element.Sound)
    (fits : n.offset + n.node.head.fullWidth ≤ maxSize) :
    ∃ placed, n.childrenWithTokens = .ok placed ∧
      placed.map PlacedElement.element = n.node.children ∧
      placed.map PlacedElement.offset =
        starts n.offset (n.node.children.map Element.fullWidth) := by
  have own := (Element.sound_node_iff.1 sound).1
  rw [own.fullWidth] at fits
  exact n.exists_placeFrom n.offset 0 own.shape fits

theorem PlacedNode.childrenWithTokens_getElem {n : PlacedNode} (sound : n.element.Sound)
    (fits : n.offset + n.node.head.fullWidth ≤ maxSize) {placed : List PlacedElement}
    (all : n.childrenWithTokens = .ok placed) {i : Nat} {h : PlacedElement}
    (found : placed[i]? = some h) : n.node.children[i]? = some h.element ∧
      h.offset = n.offset + ((n.node.children.take i).map Element.fullWidth).sum := by
  obtain ⟨placed', all', elements, offsets⟩ := n.exists_childrenWithTokens sound fits
  obtain rfl : placed = placed' := Except.ok.inj (all.symm.trans all')
  have at_i {α : Type} (f : PlacedElement → α) : (placed.map f)[i]? = some (f h) := by
    rw [List.getElem?_map, found]
    rfl
  have element := at_i PlacedElement.element
  have offset := at_i PlacedElement.offset
  rw [elements] at element
  have inside : i < n.node.children.length := (List.getElem?_eq_some_iff.1 element).1
  rw [offsets, getElem?_starts _ _ _ (by simpa using inside), ← List.map_take] at offset
  exact ⟨element, (Option.some.inj offset).symm⟩

theorem Element.Sound.map_size_fullText {cs : List Element} (sound : ∀ c ∈ cs, c.Sound) :
    cs.map (fun c => c.fullText.utf8ByteSize) = cs.map fullWidth :=
  List.map_congr_left fun c mem => (sound c mem).fullWidth_eq.symm

namespace PlacedElement

variable {root : Node Element} {path : List Nat}

theorem Placing.le {h : PlacedElement} (placing : Placing root path h) :
    h.offset + h.element.fullWidth ≤ (Element.node root).fullText.utf8ByteSize := by
  rw [placing.sound.fullWidth_eq]
  exact placing.stands.le

theorem placing_root (sound : (Element.node root).Sound) : Placing root []
    (.node (.root root)) where
  sound := sound
  way := rfl
  offset := rfl
  stands := .self _
  parent := .inl ⟨rfl, rfl⟩

theorem Placing.child {n : PlacedNode} (reached : Reached root path (.node n))
    (placing : Placing root path (.node n))
    (small : (Element.node root).fullText.utf8ByteSize ≤ maxSize) {placed : List PlacedElement}
    (all : n.childrenWithTokens = .ok placed) {i : Nat} {h : PlacedElement}
    (found : placed[i]? = some h) : Placing root (path ++ [i]) h := by
  obtain ⟨element, offset⟩ :=
    n.childrenWithTokens_getElem placing.sound (placing.le.trans small) all found
  obtain ⟨index, above⟩ := PlacedNode.index_of_childrenWithTokens all found
  have parent : h.parent? = some n := by
    rw [h.parent?_eq, above]
    rfl
  obtain ⟨way, passed⟩ := Element.follow_concat placing.way element
  have whole : StandsAt (Element.node root).fullText n.offset (Element.node n.node).fullText :=
    placing.stands
  have start : n.offset = (Element.node root).bytesBefore path := placing.offset
  obtain ⟨-, parts⟩ := Element.sound_node_iff.1 placing.sound
  have widths := Element.Sound.map_size_fullText fun c mem =>
    parts c (List.mem_of_mem_take (i := i) mem)
  have piece : (n.node.children.map Element.fullText)[i]? = some h.element.fullText := by
    rw [List.getElem?_map, element]
    rfl
  rw [Element.fullText_node n.node] at whole
  have stands := whole.getElem piece
  rw [← List.map_take, List.map_map] at stands
  change StandsAt _ (_ + ((n.node.children.take i).map fun c => c.fullText.utf8ByteSize).sum) _
    at stands
  change _ = _ + ((n.node.children.take i).map fun c => c.fullText.utf8ByteSize).sum at passed
  rw [widths] at stands passed
  rw [← offset] at stands
  rw [← start, ← offset] at passed
  refine ⟨parts _ (List.mem_of_getElem? element), way, passed.symm, stands,
    .inr ⟨path, n, ?_, reached,
    parent, ?_⟩⟩
  · rw [index]
  · rw [index]
    exact element

theorem Reached.placing {h : PlacedElement} (reached : Reached root path h)
    (sound : (Element.node root).Sound) : Placing root path h := by
  induction reached using Reached.induction with
  | start => exact placing_root sound
  | step above all found ih => exact ih.child above sound.size_fullText_le all found

/-- The children of a handle that is reached in a sound tree can be placed. -/
theorem Reached.exists_childrenWithTokens {n : PlacedNode} (reached : Reached root path (.node n))
    (sound : (Element.node root).Sound) :
    ∃ placed, n.childrenWithTokens = .ok placed ∧
      placed.map PlacedElement.element = n.node.children := by
  have placing := reached.placing sound
  obtain ⟨placed, all, elements, -⟩ :=
    n.exists_childrenWithTokens placing.sound (placing.le.trans sound.size_fullText_le)
  exact ⟨placed, all, elements⟩

end PlacedElement

/-- Whether the ranges of a node cut its texts out of a text, and those of its children follow one
another from its start to its end. -/
structure PlacedNode.Slices (source : String) (n : PlacedNode) : Prop where
  whole : Covers source n.span n.element.fullText
  trimmed : Covers source n.trimmedSpan n.element.display
  children : ∃ placed, n.childrenWithTokens = .ok placed ∧
    n.children = .ok (placed.filterMap NodeOrToken.node?) ∧
    placed.map PlacedElement.element = n.node.children ∧
    ∃ whole spans, n.span = .ok whole ∧ placed.mapM PlacedElement.span = .ok spans ∧
      Tiles whole.start spans whole.stop

/-- Whether handles are on runs of trivia of a token, one on each in order, and their ranges cut the
runs out of a text. -/
structure PlacedToken.TriviaSlices (source : String) (t : PlacedToken) (runs : List Trivia)
    (placed : List PlacedTrivia) : Prop where
  trivia : placed.map PlacedTrivia.trivia = runs
  index : placed.map PlacedTrivia.index = List.range runs.length
  owner : ∀ s ∈ placed, s.owner = some t
  whole : ∀ s ∈ placed, Covers source s.span (Element.trivia s.trivia).fullText

/-- Whether the ranges of a token cut its texts out of a text, and those of its trivia follow one
another before and behind its trimmed range, from its start to its end. -/
structure PlacedToken.Slices (source : String) (t : PlacedToken) : Prop where
  whole : Covers source t.span (Element.token t.token).fullText
  trimmed : Covers source t.trimmedSpan (Element.token t.token).display
  trivia : ∃ before behind, t.leadingTrivia = .ok before ∧ t.trailingTrivia = .ok behind ∧
    t.TriviaSlices source t.token.leading before ∧
      t.TriviaSlices source t.token.trailing behind ∧
    ∃ whole own first last, t.span = .ok whole ∧ t.trimmedSpan = .ok own ∧
      before.mapM PlacedTrivia.span = .ok first ∧ behind.mapM PlacedTrivia.span = .ok last ∧
      Tiles whole.start (first ++ own :: last) whole.stop

def PlacedElement.Slices (source : String) : PlacedElement → Prop
  | .node n => n.Slices source
  | .token t => t.Slices source

namespace PlacedElement

variable {source : String} {h : PlacedElement}

theorem covers_whole (sound : h.element.Sound)
    (stands : StandsAt source h.offset h.element.fullText)
    (small : source.utf8ByteSize ≤ maxSize) : Covers source h.span h.element.fullText := by
  rw [span_eq]
  exact stands.covers sound.fullWidth_eq.symm small

theorem covers_trimmed (sound : h.element.Sound)
    (stands : StandsAt source h.offset h.element.fullText)
    (small : source.utf8ByteSize ≤ maxSize) : Covers source h.trimmedSpan h.element.display ∧
      h.trimmedSpan = .ok ⟨h.offset + h.element.leadingWidth,
        h.offset + h.element.leadingWidth + h.element.width⟩ := by
  obtain ⟨split, exact⟩ := sound.fullText_eq_display
  rw [split] at stands
  have inner := stands.left.right
  rw [sound.size_leadingText] at inner
  have inside := inner.le
  rw [trimmedSpan_eq, addSize_eq_ok (by omega), sound.checkedWidth_eq]
  have computed : Span.ofLength (h.offset + h.element.leadingWidth) h.element.width = .ok _ :=
    Span.ofLength_eq_ok (by omega)
  exact ⟨inner.covers exact small, computed⟩

end PlacedElement

theorem PlacedNode.slices {source : String} {n : PlacedNode} (sound : n.element.Sound)
    (stands : StandsAt source n.offset n.element.fullText)
    (small : source.utf8ByteSize ≤ maxSize) :
    n.Slices source where
  whole := PlacedElement.covers_whole (h := .node n) sound stands small
  trimmed := (PlacedElement.covers_trimmed (h := .node n) sound stands small).1
  children := by
    have inside := stands.le
    rw [← sound.fullWidth_eq] at inside
    have fits : n.offset + n.node.head.fullWidth ≤ maxSize := inside.trans small
    obtain ⟨placed, all, elements, offsets⟩ := n.exists_childrenWithTokens sound fits
    have widths : placed.map (fun h => h.element.fullWidth) =
        n.node.children.map Element.fullWidth := by
      rw [← elements, List.map_map]
      rfl
    have total : n.node.head.fullWidth = (placed.map fun h => h.element.fullWidth).sum := by
      rw [widths]
      exact (Element.sound_node_iff.1 sound).1.fullWidth
    rw [← widths] at offsets
    obtain ⟨spans, computed, tiles⟩ :=
      exists_tiles PlacedElement.span_eq offsets (total ▸ fits)
    refine ⟨placed, all, ?_, elements, _, spans, Span.ofLength_eq_ok fits, computed, ?_⟩
    · rw [PlacedNode.children, all]
      rfl
    · rw [total]
      exact tiles

theorem Trivia.Sound.map_size_text {ts : List Trivia} (sound : ∀ t ∈ ts, t.Sound) :
    ts.map (fun t => t.text.utf8ByteSize) = ts.map fun t => t.head.fullWidth :=
  List.map_congr_left fun t mem => (sound t mem).fullWidth.symm

theorem PlacedToken.exists_triviaSlices {source : String} (t : PlacedToken) {runs : List Trivia}
    {position : Nat} (sound : ∀ s ∈ runs, s.Sound)
    (stands : StandsAt source position (String.join (runs.map Trivia.text)))
    (small : source.utf8ByteSize ≤ maxSize) :
    ∃ placed, t.placeFrom position 0 runs = .ok placed ∧ t.TriviaSlices source runs placed ∧
      ∃ spans, placed.mapM PlacedTrivia.span = .ok spans ∧
        Tiles position spans (position + (runs.map fun s => s.head.fullWidth).sum) := by
  have inside := stands.le
  rw [Trivia.Sound.size_texts sound] at inside
  have fits := inside.trans small
  obtain ⟨placed, made, trivia, positions, indices, owners⟩ :=
    t.exists_placeFrom position 0 fits
  have widths : placed.map (fun s => s.trivia.head.fullWidth) = runs.map fun s =>
      s.head.fullWidth := by
    rw [← trivia, List.map_map]
    rfl
  have covers (s : PlacedTrivia) (mem : s ∈ placed) :
      Covers source s.span (Element.trivia s.trivia).fullText := by
    obtain ⟨i, found⟩ := List.mem_iff_getElem?.1 mem
    have at_i {α : Type} (f : PlacedTrivia → α) : (placed.map f)[i]? = some (f s) := by
      rw [List.getElem?_map, found]
      rfl
    have run := at_i PlacedTrivia.trivia
    have start := at_i PlacedTrivia.position
    rw [trivia] at run
    have inRuns : i < runs.length := (List.getElem?_eq_some_iff.1 run).1
    rw [positions, getElem?_starts _ _ _ (by simpa using inRuns), ← List.map_take] at start
    have piece : (runs.map Trivia.text)[i]? = some s.trivia.text := by
      rw [List.getElem?_map, run]
      rfl
    have own := stands.getElem piece
    rw [← List.map_take, List.map_map] at own
    change StandsAt _ (_ + ((runs.take i).map fun t => t.text.utf8ByteSize).sum) _ at own
    rw [Trivia.Sound.map_size_text fun u mem => sound u (List.mem_of_mem_take mem),
      Option.some.inj start] at own
    rw [Element.fullText_trivia]
    exact own.covers (sound _ (List.mem_of_getElem? run)).fullWidth.symm small
  rw [← widths] at positions fits
  obtain ⟨spans, computed, tiles⟩ := exists_tiles (fun _ => rfl) positions fits
  rw [widths] at tiles
  refine ⟨placed, made, ⟨trivia, ?_, owners, covers⟩, spans, computed, tiles⟩
  rw [indices, List.range_eq_range']

theorem PlacedToken.slices {source : String} {t : PlacedToken} (sound : t.token.Sound)
    (stands : StandsAt source t.offset (Element.token t.token).fullText)
    (small : source.utf8ByteSize ≤ maxSize) : t.Slices source := by
  have whole := PlacedElement.covers_whole (h := .token t) (.token sound) stands small
  obtain ⟨trimmed, own⟩ :=
    PlacedElement.covers_trimmed (h := .token t) (.token sound) stands small
  have inside := stands.le
  rw [← Element.Sound.fullWidth_eq (.token sound)] at inside
  have computed : t.span = .ok ⟨t.offset, t.offset + t.token.head.fullWidth⟩ :=
    Span.ofLength_eq_ok (inside.trans small)
  have width : (Element.token t.token).width = t.token.text.utf8ByteSize := by
    have all := sound.fullWidth
    simp only [Element.width, Element.fullWidth, Element.head, Element.leadingWidth,
      Element.trailingWidth]
    omega
  rw [Element.fullText_token] at stands
  have behindText := stands.right
  rw [String.utf8ByteSize_append, sound.size_leadingText, ← Nat.add_assoc] at behindText
  obtain ⟨before, placedBefore, slicesBefore, first, spansBefore, tilesBefore⟩ :=
    t.exists_triviaSlices sound.leading stands.left.left small
  obtain ⟨behind, placedBehind, slicesBehind, last, spansBehind, tilesBehind⟩ :=
    t.exists_triviaSlices sound.trailing behindText small
  rw [← sound.leadingWidth] at tilesBefore
  rw [← sound.trailingWidth] at tilesBehind
  have middle : t.trimmedSpan = .ok ⟨t.offset + t.token.leadingWidth,
      t.offset + t.token.leadingWidth + t.token.text.utf8ByteSize⟩ := by
    rw [← width]
    exact own
  have end_ : t.offset + t.token.head.fullWidth = t.offset + t.token.leadingWidth +
      t.token.text.utf8ByteSize + t.token.trailingWidth := by
    rw [sound.fullWidth, Nat.add_assoc, Nat.add_assoc, Nat.add_assoc]
  refine ⟨whole, trimmed, before, behind, placedBefore, ?_, slicesBefore, slicesBehind, _, _,
    first, last, computed, middle, spansBefore, spansBehind, ?_⟩
  · rw [PlacedToken.trailingTrivia, middle]
    exact placedBehind
  · rw [end_]
    exact tilesBefore.append ⟨rfl, tilesBehind⟩

/-- Every handle that is reached from the root of a tree cuts its texts out of the full text of the
root, and what it holds lies in it without gaps. -/
theorem Element.Obtained.reached_slices {root : Node Element}
    (obtained : (Element.node root).Obtained) {path : List Nat} {h : PlacedElement}
    (reached : PlacedElement.Reached root path h) :
    h.Slices (Element.node root).fullText ∧ h.HeldByParent root path ∧
      (Element.node root).follow path = .ok h.element := by
  have sound := obtained.sound
  have small : (Element.node root).fullText.utf8ByteSize ≤ maxSize :=
    sound.fullWidth_eq ▸ sound.fits
  have placing := reached.placing sound
  refine ⟨?_, placing.parent, placing.way⟩
  cases h with
  | node n => exact PlacedNode.slices placing.sound placing.stands small
  | token t =>
    exact PlacedToken.slices (Element.sound_token_iff.1 placing.sound) placing.stands small

theorem Element.reached_slices_missingSemicolon :
    let blank : Trivia := ⟨0, ⟨.whitespaceTrivia, {}, 2, .empty⟩, "\u00a0"⟩
    let name : Token := ⟨1, ⟨.ident, {}, 4, .empty⟩, "é", [blank], [], 2, 0⟩
    let hole : Token := ⟨2, ⟨.semicolon, { missing := true }, 0, .empty⟩, "", [], [], 0, 0⟩
    let list : Node Element := ⟨3, ⟨.listNode, {}, 4, .empty⟩, [.token name, .token hole]⟩
    let root : Node Element := ⟨4, ⟨.listNode, {}, 8, .empty⟩, [.token name, .node list]⟩
    let h : PlacedElement := .token ⟨hole, 8, 1, [⟨list, 4, 1⟩, ⟨root, 0, 0⟩]⟩
    (Element.node root).Obtained ∧ PlacedElement.Reached root [1, 1] h ∧
      h.Slices (Element.node root).fullText ∧ h.HeldByParent root [1, 1] ∧
        (Element.node root).follow [1, 1] = .ok h.element := by
  intro blank name hole list root h
  have madeBlank : Trivia.make 0 .whitespaceTrivia "\u00a0" .empty = .ok blank := rfl
  have madeName : Token.make 1 .ident false "é" [blank] [] .empty = .ok name := rfl
  have madeHole : Token.missing 2 .semicolon = .ok hole := rfl
  have madeList : Node.plain 3 .listNode [.token name, .token hole] = .ok list := rfl
  have madeRoot : Node.plain 4 .listNode [.token name, .node list] = .ok root := rfl
  have obtainedBlank : (Element.trivia blank).Obtained :=
    .trivia Overlay.addressable_empty madeBlank
  have obtainedName : (Element.token name).Obtained :=
    .token (by simpa using obtainedBlank) (by simp) madeName
  have obtainedList : (Element.node list).Obtained :=
    .node (by simpa using ⟨obtainedName, .missing madeHole⟩) madeList
  have obtained : (Element.node root).Obtained :=
    .node (by simpa using ⟨obtainedName, obtainedList⟩) madeRoot
  have placedInRoot : (PlacedNode.root root).childrenWithTokens =
      .ok [.token ⟨name, 0, 0, [⟨root, 0, 0⟩]⟩,
      .node ⟨⟨list, 4, 1⟩, [⟨root, 0, 0⟩]⟩] := rfl
  have placedInList : (PlacedNode.mk ⟨list, 4, 1⟩ [⟨root, 0, 0⟩]).childrenWithTokens =
      .ok [.token ⟨name, 4, 0, [⟨list, 4, 1⟩, ⟨root, 0, 0⟩]⟩, h] := rfl
  have toList : PlacedElement.Reached root [1] (.node ⟨⟨list, 4, 1⟩, [⟨root, 0, 0⟩]⟩) :=
    .childWithTokens (i := 1) .root placedInRoot rfl
  have reached : PlacedElement.Reached root [1, 1] h :=
    .childWithTokens (i := 1) toList placedInList rfl
  exact ⟨obtained, reached, obtained.reached_slices reached⟩

end GreenTree
