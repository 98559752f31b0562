import GreenTree.Element.Outline
import GreenTree.Proofs.Equivalence
import GreenTree.Proofs.Quoting
import GreenTree.Proofs.Walking

/-!
Outlines can be read back. An outline is one line for each occurrence, in source order, and a line
shows how deep the occurrence stands, on which side of a token, and its kind, text and whether it is
missing, whatever its text is. From that much of each line in turn the tree is known, but for what
is attached to it.
-/

namespace GreenTree

namespace Outline

def sideWord : Option Side → String
  | none => ""
  | some .leading => "leading "
  | some .trailing => "trailing "

def notes (head : Head) : String :=
  (if head.summary.missing then " missing" else "") ++
    ((if head.summary.skippedText then " skipped" else "") ++
      ((if head.overlay.diagnostics.isEmpty then ""
        else " diagnostics=[" ++
          ", ".intercalate (head.overlay.diagnostics.map fun d => d.code.label) ++ "]") ++
        if head.overlay.annotations.isEmpty then ""
        else " annotations=" ++ toString head.overlay.annotations.length))

def shownText : Option String → String
  | none => ""
  | some s => " " ++ quoted s

theorem entry_eq (head : Head) (text : Option String) : entry head text =
    head.kind.name ++ ("@" ++ (toString head.fullWidth ++ (shownText text ++ notes head))) := by
  unfold entry notes
  cases text <;> simp only [shownText, String.append_assoc]

theorem toList_shownText_none : (shownText none).toList = [] := String.toList_ofList

theorem toList_shownText_some (s : String) :
    (shownText (some s)).toList = ' ' :: Quoted.encode s.toList := by
  have blank : " ".toList = [' '] := String.toList_ofList
  rw [shownText, String.toList_append, blank, quoted, String.toList_ofList, List.singleton_append]

theorem toList_entry (head : Head) (text : Option String) : (entry head text).toList =
    head.kind.name.toList ++
      '@' :: (Nat.toDigits 10 head.fullWidth ++
        ((shownText text).toList ++ (notes head).toList)) := by
  have at_ : "@".toList = ['@'] := String.toList_ofList
  have digits : (toString head.fullWidth).toList = Nat.toDigits 10 head.fullWidth := Nat.toList_repr
  rw [entry_eq, String.toList_append, String.toList_append, String.toList_append,
    String.toList_append, at_, digits, List.singleton_append]

end Outline

namespace Occurrence

/-- The line of an occurrence in an outline, without its end. -/
def line (o : Occurrence) : String :=
  String.ofList (List.replicate (2 * o.around.length) ' ') ++ Outline.sideWord o.side ++
    Outline.entry o.element.head o.element.text?

end Occurrence

namespace Outline

def lines (os : List Occurrence) : String := String.join (os.map fun o => o.line ++ "\n")

theorem lines_cons (o : Occurrence) (os : List Occurrence) :
    lines (o :: os) = o.line ++ "\n" ++ lines os := by
  rw [lines, List.map_cons, String.join_cons]
  rfl

theorem lines_append (os us : List Occurrence) : lines (os ++ us) = lines os ++ lines us := by
  rw [lines, List.map_append, String.join_append]
  rfl

private theorem run_nil (o : Outline) :
    (pure () : StateM Outline Unit).run o = ((), { o with text := o.text ++ lines [] }) := by
  rw [lines, List.map_nil, String.join_nil, String.append_empty]
  rfl

theorem line_eq (o : Occurrence) (text : String) :
    line o.element.head o.element.text? ⟨text, o.around.length, sideWord o.side⟩ =
      ⟨text ++ (o.line ++ "\n"), o.around.length, sideWord o.side⟩ := by
  simp only [line, Occurrence.line, String.append_assoc]

theorem walkTrivia_run (around : List Element) (side : Option Side) (ts : List Trivia)
    (text : String) :
    (walker.walkTrivia ts).run ⟨text, around.length, sideWord side⟩ =
      ((), ⟨text ++ lines (ts.map fun s => ⟨around, side, .trivia s⟩), around.length,
        sideWord side⟩) := by
  induction ts generalizing text with
  | nil => exact run_nil _
  | cons t ts ih =>
    have own := line_eq ⟨around, side, .trivia t⟩ text
    have step : (walker.walkTrivia (t :: ts)).run ⟨text, around.length, sideWord side⟩ =
        (walker.walkTrivia ts).run
        (line t.head (some t.text) ⟨text, around.length, sideWord side⟩) := rfl
    rw [step, show line t.head (some t.text) ⟨text, around.length, sideWord side⟩ = _ from own,
      ih, List.map_cons, lines_cons, String.append_assoc]

private theorem walkAll_run {around : List Element} {cs : List Element}
    (parts : ∀ c ∈ cs, ∀ text, (walker.walk c).run ⟨text, around.length, ""⟩ =
      ((), ⟨text ++ lines (c.occurrencesIn around), around.length, ""⟩)) (text : String) :
    (walker.walkAll cs).run ⟨text, around.length, ""⟩ =
      ((), ⟨text ++ lines (cs.flatMap (Element.occurrencesIn around)), around.length, ""⟩) := by
  induction cs generalizing text with
  | nil => exact run_nil _
  | cons c cs ih =>
    obtain ⟨first, others⟩ := List.forall_mem_cons.1 parts
    have step : (walker.walkAll (c :: cs)).run ⟨text, around.length, ""⟩ =
        (walker.walkAll cs).run ((walker.walk c).run ⟨text, around.length, ""⟩).2 := rfl
    rw [step, first, ih others, List.flatMap_cons, lines_append, String.append_assoc]

private theorem length_inside (around : List Element) (e : Element) :
    around.length + 1 = (around ++ [e]).length := by
  simp

theorem walk_run (e : Element) (around : List Element) (text : String) :
    (walker.walk e).run ⟨text, around.length, ""⟩ =
      ((), ⟨text ++ lines (e.occurrencesIn around), around.length, ""⟩) := by
  induction e using Element.induction generalizing around text with
  | node n parts =>
    have own := line_eq ⟨around, none, .node n⟩ text
    have inside (text : String) :=
      walkAll_run (fun c mem text => parts c mem (around ++ [.node n]) text) text
    calc (walker.walk (.node n)).run ⟨text, around.length, ""⟩
      _ = (do
          walker.walkAll n.children
          modify fun o => { o with depth := o.depth - 1 } : StateM Outline Unit).run
          { line n.head none ⟨text, around.length, sideWord none⟩ with
            depth := around.length + 1 } := rfl
      _ = (do
          walker.walkAll n.children
          modify fun o => { o with depth := o.depth - 1 } : StateM Outline Unit).run
          ⟨text ++ (Occurrence.line ⟨around, none, .node n⟩ ++ "\n"),
            (around ++ [Element.node n]).length, ""⟩ := by
        rw [← length_inside,
          show line n.head none ⟨text, around.length, sideWord none⟩ = _ from own]
        rfl
      _ = ((), ⟨text ++ lines ((Element.node n).occurrencesIn around), around.length, ""⟩) := by
        rw [StateT.run_bind, inside, Element.occurrencesIn, lines_cons,
          Element.occurrencesWithin_eq, String.append_assoc, ← length_inside]
        rfl
  | token t =>
    have own := line_eq ⟨around, none, .token t⟩ text
    calc (walker.walk (.token t)).run ⟨text, around.length, ""⟩
      _ = (do
          walker.walkTrivia t.leading
          modify fun o => { o with side := sideWord (some .trailing) }
          walker.walkTrivia t.trailing
          modify fun o => { o with depth := o.depth - 1, side := "" } : StateM Outline Unit).run
          { line t.head (some t.text) ⟨text, around.length, sideWord none⟩ with
            depth := around.length + 1
            side := sideWord (some .leading) } := rfl
      _ = (do
          walker.walkTrivia t.leading
          modify fun o => { o with side := sideWord (some .trailing) }
          walker.walkTrivia t.trailing
          modify fun o => { o with depth := o.depth - 1, side := "" } : StateM Outline Unit).run
          ⟨text ++ (Occurrence.line ⟨around, none, .token t⟩ ++ "\n"),
            (around ++ [Element.token t]).length, sideWord (some .leading)⟩ := by
        rw [← length_inside,
          show line t.head (some t.text) ⟨text, around.length, sideWord none⟩ = _ from own]
      _ = (do
          walker.walkTrivia t.trailing
          modify fun o => { o with depth := o.depth - 1, side := "" } : StateM Outline Unit).run
          ⟨text ++ (Occurrence.line ⟨around, none, .token t⟩ ++ "\n") ++
            lines (t.leading.map fun s => ⟨around ++ [.token t], some .leading, .trivia s⟩),
            (around ++ [Element.token t]).length, sideWord (some .trailing)⟩ := by
        rw [StateT.run_bind, walkTrivia_run]
        rfl
      _ = ((),
        ⟨text ++ lines ((Element.token t).occurrencesIn around), around.length, ""⟩) := by
        rw [StateT.run_bind, walkTrivia_run, Element.occurrencesIn, lines_cons, lines_append,
          String.append_assoc, String.append_assoc, ← length_inside]
        rfl
  | trivia t =>
    have own := line_eq ⟨around, none, .trivia t⟩ text
    calc (walker.walk (.trivia t)).run ⟨text, around.length, ""⟩
      _ = ((), line t.head (some t.text) ⟨text, around.length, sideWord none⟩) := rfl
      _ = ((),
        ⟨text ++ lines ((Element.trivia t).occurrencesIn around), around.length, ""⟩) := by
        rw [show line t.head (some t.text) ⟨text, around.length, sideWord none⟩ = _ from own,
          Element.occurrencesIn, lines_cons, lines, List.map_nil, String.join_nil,
          String.append_empty]
        rfl

end Outline

/-- An outline is the lines of all occurrences, one behind the other. -/
theorem Element.outline_eq (e : Element) : e.outline = Outline.lines (e.occurrencesIn []) := by
  have run := Outline.walk_run e [] ""
  rw [String.empty_append] at run
  exact congrArg (fun p => p.2.text) run

/-! ### What a line shows -/

def Outline.inSide (c : Char) : Bool := c.isLower || c == ' '

namespace Kind

theorem name_spelled (k : Kind) : k.name.toList ≠ [] ∧
    ∀ c ∈ k.name.toList, Outline.inSide c = false ∧ c ≠ '@' ∧ c ≠ '\n' := by
  have spelled : ∃ cs : List Char, k.name = String.ofList cs ∧ cs ≠ [] ∧
      cs.all (fun c => !Outline.inSide c && c != '@' && c != '\n') = true := by
    cases k <;> exact ⟨_, rfl, by decide, by decide⟩
  obtain ⟨cs, eq, some_, letters⟩ := spelled
  rw [eq, String.toList_ofList]
  exact ⟨some_, fun c mem => by simpa [and_assoc] using List.all_eq_true.1 letters c mem⟩

theorem name_injective {a b : Kind} (same : a.name = b.name) : a = b := by
  have distinct : (all.map name).Nodup := by decide +kernel
  exact List.inj_on_of_nodup_map distinct a.mem_all b.mem_all same

end Kind

namespace Outline

theorem inSide_of_mem_sideWord (side : Option Side) :
    ∀ c ∈ (sideWord side).toList, inSide c = true := by
  rcases side with _ | _ | _ <;> simp [sideWord, inSide]

theorem sideWord_injective {a b : Option Side} (same : sideWord a = sideWord b) : a = b := by
  rcases a with _ | _ | _ <;> rcases b with _ | _ | _ <;>
    first | rfl | exact absurd same (by decide)

theorem notes_begin (head : Head) : ∀ c ∈ (notes head).toList.head?, c = ' ' := by
  unfold notes
  cases head.summary.missing <;> cases head.summary.skippedText <;>
    cases head.overlay.diagnostics.isEmpty <;>
    cases head.overlay.annotations.isEmpty <;> simp [String.toList_append]

theorem missing_iff_notes (head : Head) :
    head.summary.missing = true ↔ (notes head).toList[1]? = some 'm' := by
  unfold notes
  cases head.summary.missing <;> cases head.summary.skippedText <;>
    cases head.overlay.diagnostics.isEmpty <;>
    cases head.overlay.annotations.isEmpty <;> simp [String.toList_append]

private theorem not_mem_intercalate {c : Char} {between : List Char} {parts : List (List Char)}
    (none : c ∉ between) (each : ∀ part ∈ parts, c ∉ part) :
    c ∉ between.intercalate parts := by
  induction parts with
  | nil => exact List.not_mem_nil
  | cons part parts ih =>
    obtain ⟨first, others⟩ := List.forall_mem_cons.1 each
    cases parts with
    | nil => rwa [List.intercalate_singleton]
    | cons next parts =>
      rw [List.intercalate_cons_cons, List.mem_append, List.mem_append, not_or, not_or]
      exact ⟨⟨first, none⟩, ih others⟩

private theorem newline_not_mem_toDigits (n : Nat) : '\n' ∉ Nat.toDigits 10 n := by
  intro mem
  have digit := Nat.isDigit_of_mem_toDigits (by decide) (by decide) mem
  cases digit

theorem newline_not_mem_notes (head : Head) : '\n' ∉ (notes head).toList := by
  have labels :
      '\n' ∉ (", ".intercalate (head.overlay.diagnostics.map fun d => d.code.label)).toList := by
    rw [String.toList_intercalate]
    refine not_mem_intercalate (by decide) fun part mem => ?_
    rw [List.map_map, List.mem_map] at mem
    obtain ⟨d, -, rfl⟩ := mem
    simp [Code.label, newline_not_mem_toDigits]
  unfold notes
  cases head.summary.missing <;> cases head.summary.skippedText <;>
    cases head.overlay.diagnostics.isEmpty <;>
    cases head.overlay.annotations.isEmpty <;>
    simp [String.toList_append, labels, newline_not_mem_toDigits, -String.toList_intercalate]

end Outline

/-- What a line shows of an occurrence, but for its notes. -/
structure Sight where
  depth : Nat
  side : Option Side
  kind : Kind
  text : Option String
  missing : Bool

namespace Occurrence

def sight (o : Occurrence) : Sight :=
  ⟨o.around.length, o.side, o.element.kind, o.element.text?, o.element.summary.missing⟩

def body (o : Occurrence) : List Char :=
  (Outline.sideWord o.side).toList ++ (o.element.kind.name.toList ++ '@' ::
    (Nat.toDigits 10 o.element.head.fullWidth ++
      ((Outline.shownText o.element.text?).toList ++ (Outline.notes o.element.head).toList)))

theorem toList_line (o : Occurrence) :
    o.line.toList = List.replicate (2 * o.around.length) ' ' ++ o.body := by
  rw [line, String.toList_append, String.toList_append, String.toList_ofList, Outline.toList_entry,
    List.append_assoc]
  rfl

private theorem name_begin (k : Kind) (cs : List Char) :
    ∀ c ∈ (k.name.toList ++ cs).head?, ¬Outline.inSide c = true := by
  obtain ⟨some_, spelled⟩ := k.name_spelled
  obtain ⟨c, name, eq⟩ := List.exists_cons_of_ne_nil some_
  rw [eq] at spelled ⊢
  rintro d ⟨⟩
  simp [(spelled c List.mem_cons_self).1]

theorem body_begin (o : Occurrence) : ∀ c ∈ o.body.head?, ¬c = ' ' := by
  unfold body
  rcases o.side with _ | _ | _
  · rintro c mem rfl
    exact name_begin _ _ _ mem rfl
  · rintro c ⟨⟩
    decide
  · rintro c ⟨⟩
    decide

theorem newline_not_mem_line (o : Occurrence) : '\n' ∉ o.line.toList := by
  have word : '\n' ∉ (Outline.sideWord o.side).toList :=
    fun mem => nomatch Outline.inSide_of_mem_sideWord _ _ mem
  have name : '\n' ∉ o.element.kind.name.toList :=
    fun mem => (o.element.kind.name_spelled.2 _ mem).2.2 rfl
  have text : '\n' ∉ (Outline.shownText o.element.text?).toList := by
    cases o.element.text? with
    | none => simp [Outline.toList_shownText_none]
    | some s => simpa [Outline.toList_shownText_some] using Quoted.newline_not_mem_encode s.toList
  have notes := Outline.newline_not_mem_notes o.element.head
  rw [toList_line, body]
  simp [word, name, text, notes, Outline.newline_not_mem_toDigits]

private theorem shown_inj {text text' : Option String} {head head' : Head}
    (shape : text = none ↔ text' = none)
    (same : (Outline.shownText text).toList ++ (Outline.notes head).toList =
      (Outline.shownText text').toList ++ (Outline.notes head').toList) :
    text = text' ∧ head.summary.missing = head'.summary.missing := by
  have missing (notes : (Outline.notes head).toList = (Outline.notes head').toList) :
      head.summary.missing = head'.summary.missing := by
    rw [Bool.eq_iff_iff, Outline.missing_iff_notes, Outline.missing_iff_notes, notes]
  cases text with
  | none =>
    obtain rfl := shape.1 rfl
    exact ⟨rfl, missing (List.append_cancel_left same)⟩
  | some s =>
    cases text' with
    | none => cases shape.2 rfl
    | some s' =>
      rw [Outline.toList_shownText_some, Outline.toList_shownText_some] at same
      obtain ⟨texts, notes⟩ := Quoted.encode_append_inj (List.cons.inj same).2
      exact ⟨congrArg some (String.toList_inj.1 texts), missing notes⟩

private theorem shown_begin (text : Option String) (head : Head) :
    ∀ c ∈ ((Outline.shownText text).toList ++ (Outline.notes head).toList).head?,
      ¬c.isDigit = true := by
  intro c mem
  have blank : c = ' ' := by
    cases text with
    | none =>
      rw [Outline.toList_shownText_none, List.nil_append] at mem
      exact Outline.notes_begin head c mem
    | some s =>
      rw [Outline.toList_shownText_some] at mem
      exact (Option.some.inj mem).symm
  rw [blank]
  decide

/-- What a line shows is read off it, from blanks to notes. -/
theorem sight_eq_of_line {o o' : Occurrence} (same : o.line = o'.line)
    (shape : o.element.kind = o'.element.kind →
      (o.element.text? = none ↔ o'.element.text? = none)) :
    o.sight = o'.sight := by
  have same := congrArg String.toList same
  rw [toList_line, toList_line] at same
  have blanks (n : Nat) : ∀ c ∈ List.replicate n ' ', c = ' ' :=
    fun c mem => List.eq_of_mem_replicate mem
  have names (k : Kind) : ∀ c ∈ k.name.toList, c ≠ '@' :=
    fun c mem => (k.name_spelled.2 c mem).2.1
  have stop (cs : List Char) : ∀ c ∈ ('@' :: cs).head?, ¬c ≠ '@' := by simp
  have digits (n : Nat) : ∀ c ∈ Nat.toDigits 10 n, c.isDigit = true := fun c mem =>
    Nat.isDigit_of_mem_toDigits (by decide) (by decide) mem
  obtain ⟨indents, same⟩ :=
    append_inj_of_span (blanks _) (blanks _) o.body_begin o'.body_begin same
  obtain ⟨words, same⟩ :=
    append_inj_of_span (Outline.inSide_of_mem_sideWord _) (Outline.inSide_of_mem_sideWord _)
    (name_begin _ _) (name_begin _ _) same
  obtain ⟨kinds, same⟩ := append_inj_of_span (names _) (names _) (stop _) (stop _) same
  obtain ⟨-, same⟩ :=
    append_inj_of_span (digits _) (digits _) (shown_begin _ _) (shown_begin _ _)
      (List.cons.inj same).2
  have depth : o.around.length = o'.around.length := by
    have := congrArg List.length indents
    simp only [List.length_replicate] at this
    omega
  have kind := Kind.name_injective (String.toList_inj.1 kinds)
  obtain ⟨text, missing⟩ := shown_inj (shape kind) same
  have side := Outline.sideWord_injective (String.toList_inj.1 words)
  rw [sight, sight, Sight.mk.injEq]
  exact ⟨depth, side, kind, text, missing⟩

end Occurrence

/-! ### From lines to trees -/

private theorem flatten_inj_of_begin {α : Type} {inner : α → Prop} {as bs : List (List α)}
    (left : ∀ a ∈ as, ∃ x xs, a = x :: xs ∧ ¬inner x ∧ ∀ y ∈ xs, inner y)
    (right : ∀ b ∈ bs, ∃ x xs, b = x :: xs ∧ ¬inner x ∧ ∀ y ∈ xs, inner y)
    (same : as.flatten = bs.flatten) :
    as = bs := by
  have ends {cs : List (List α)} (each : ∀ c ∈ cs, ∃ x xs, c = x :: xs ∧ ¬inner x ∧
    ∀ y ∈ xs, inner y) :
      ∀ x ∈ cs.flatten.head?, ¬inner x := by
    cases cs with
    | nil => exact nofun
    | cons c cs =>
      obtain ⟨x, xs, rfl, outer, -⟩ := each c List.mem_cons_self
      rintro y ⟨⟩
      exact outer
  induction as generalizing bs with
  | nil =>
    cases bs with
    | nil => rfl
    | cons b bs =>
      obtain ⟨x, xs, rfl, -⟩ := right b List.mem_cons_self
      cases same
  | cons a as ih =>
    cases bs with
    | nil =>
      obtain ⟨x, xs, rfl, -⟩ := left a List.mem_cons_self
      cases same
    | cons b bs =>
      obtain ⟨⟨x, xs, rfl, -, insideA⟩, leftRest⟩ := List.forall_mem_cons.1 left
      obtain ⟨⟨y, ys, rfl, -, insideB⟩, rightRest⟩ := List.forall_mem_cons.1 right
      obtain ⟨first, behind⟩ := List.cons.inj same
      obtain ⟨inside, rest⟩ :=
        append_inj_of_span insideA insideB (ends leftRest) (ends rightRest) behind
      rw [first, inside, ih leftRest rightRest rest]

theorem Outline.splitOn_lines (os : List Occurrence) :
    (lines os).toList.splitOn '\n' = os.map (fun o => o.line.toList) ++ [[]] := by
  induction os with
  | nil => exact List.splitOn_nil _
  | cons o os ih =>
    have opened : (lines (o :: os)).toList = o.line.toList ++ '\n' :: (lines os).toList := by
      rw [lines_cons, String.toList_append, String.toList_append, List.append_assoc]
      rfl
    rw [opened, List.splitOn_append_cons_self_of_not_mem o.newline_not_mem_line, ih]
    rfl

private theorem lines_injective {os us : List Occurrence}
    (same : Outline.lines os = Outline.lines us) :
    os.map Occurrence.line = us.map Occurrence.line := by
  have cut := Outline.splitOn_lines os
  rw [same, Outline.splitOn_lines us] at cut
  refine List.map_injective_iff.2 (fun _ _ => String.toList_injective) ?_
  rw [List.map_map, List.map_map]
  exact (List.append_cancel_right cut).symm

namespace Element

theorem part_of_mem_occurrencesIn {e : Element} {around : List Element} {o : Occurrence}
    (mem : o ∈ e.occurrencesIn around) : o.element.Part e := by
  induction e using Element.induction generalizing around with
  | node n parts =>
    rcases mem_occurrencesIn_node_iff.1 mem with rfl | ⟨c, child, inside⟩
    · exact .self _
    · exact .child child (parts c child inside)
  | token t =>
    rcases mem_occurrencesIn_token_iff.1 mem with rfl | ⟨s, here, rfl⟩ | ⟨s, here, rfl⟩
    · exact .self _
    · exact .leading here
    · exact .trailing here
  | trivia t =>
    rw [occurrencesIn, List.mem_singleton] at mem
    exact mem ▸ .self _

/-- What is seen of an element and of everything in it. -/
def sights (around : List Element) (e : Element) : List Sight :=
  (e.occurrencesIn around).map Occurrence.sight

def triviaSight (depth : Nat) (side : Side) (t : Trivia) : Sight :=
  ⟨depth, some side, t.head.kind, some t.text, t.head.summary.missing⟩

theorem sights_node (around : List Element) (n : Node Element) : (Element.node n).sights around =
    ⟨around.length, none, n.head.kind, none, n.head.summary.missing⟩ ::
      (n.children.map (sights (around ++ [.node n]))).flatten := by
  rw [sights, occurrencesIn, occurrencesWithin_eq, List.map_cons, List.map_flatMap,
    List.flatMap_def]
  rfl

theorem sights_token (around : List Element) (t : Token) : (Element.token t).sights around =
    ⟨around.length, none, t.head.kind, some t.text, t.head.summary.missing⟩ ::
      (t.leading.map (triviaSight (around ++ [Element.token t]).length .leading) ++
        t.trailing.map (triviaSight (around ++ [Element.token t]).length .trailing)) := by
  rw [sights, occurrencesIn, List.map_cons, List.map_append, List.map_map, List.map_map]
  rfl

theorem sights_trivia (around : List Element) (t : Trivia) : (Element.trivia t).sights around =
    [⟨around.length, none, t.head.kind, some t.text, t.head.summary.missing⟩] := rfl

theorem head?_sights (around : List Element) (e : Element) :
    (e.sights around).head? = some ⟨around.length, none, e.kind, e.text?,
      e.summary.missing⟩ := by
  cases e <;> rfl

theorem exists_sights_eq (around : List Element) (e : Element) :
    ∃ x xs, e.sights around = x :: xs ∧
    ¬around.length < x.depth ∧ ∀ y ∈ xs, around.length < y.depth := by
  have deeper : around.length < (around ++ [e]).length := by simp
  cases e with
  | node n =>
    refine ⟨_, _, sights_node around n, Nat.lt_irrefl _, fun y mem => ?_⟩
    obtain ⟨ys, here, mem⟩ := List.mem_flatten.1 mem
    obtain ⟨c, -, rfl⟩ := List.mem_map.1 here
    obtain ⟨o, inside, rfl⟩ := List.mem_map.1 mem
    exact Nat.lt_of_lt_of_le deeper (prefix_around inside).length_le
  | token t =>
    refine ⟨_, _, sights_token around t, Nat.lt_irrefl _, fun y mem => ?_⟩
    rcases List.mem_append.1 mem with mem | mem <;>
      obtain ⟨s, -, rfl⟩ := List.mem_map.1 mem <;> exact deeper
  | trivia t => exact ⟨_, _, sights_trivia around t, Nat.lt_irrefl _, List.forall_mem_nil _⟩

theorem Sound.text?_eq_none_iff {a b : Element} (soundA : a.Sound) (soundB : b.Sound)
    (same : a.kind = b.kind) :
    a.text? = none ↔ b.text? = none := by
  have shape {e : Element} (sound : e.Sound) : e.text? = none ↔ e.kind.isNode = true := by
    cases sound with
    | node own parts => exact iff_of_true rfl own.kind
    | @token t own =>
      have plain : t.head.kind.isNode = false := Kind.isNode_of_isToken own.kind
      exact iff_of_false (Option.some_ne_none t.text) (Bool.not_eq_true _ ▸ plain)
    | @trivia t own =>
      have plain : t.head.kind.isNode = false := Kind.isNode_of_isTrivia own.kind
      exact iff_of_false (Option.some_ne_none t.text) (Bool.not_eq_true _ ▸ plain)
  rw [shape soundA, shape soundB, same]

private theorem erased_eq_of_triviaSights {ls ls' ts ts' : List Trivia} {depth depth' : Nat}
    (same : ls.map (triviaSight depth .leading) ++ ts.map (triviaSight depth .trailing) =
      ls'.map (triviaSight depth' .leading) ++ ts'.map (triviaSight depth' .trailing)) :
    (ls.map Trivia.blueprint).map TriviaBlueprint.erased =
      (ls'.map Trivia.blueprint).map TriviaBlueprint.erased ∧
      (ts.map Trivia.blueprint).map TriviaBlueprint.erased =
        (ts'.map Trivia.blueprint).map TriviaBlueprint.erased := by
  have before (depth : Nat) (ls : List Trivia) :
      ∀ x ∈ ls.map (triviaSight depth .leading), x.side = some .leading := by
    intro x mem
    obtain ⟨s, -, rfl⟩ := List.mem_map.1 mem
    rfl
  have behind (depth : Nat) (ts : List Trivia) :
      ∀ x ∈ (ts.map (triviaSight depth .trailing)).head?, ¬x.side = some .leading := by
    intro x mem
    obtain ⟨s, -, rfl⟩ := List.mem_map.1 (List.mem_of_mem_head? mem)
    exact nofun
  obtain ⟨leading, trailing⟩ :=
    append_inj_of_span (before _ _) (before _ _) (behind _ _) (behind _ _) same
  have told (side : Side) {as bs : List Trivia}
      (seen : as.map (triviaSight depth side) = bs.map (triviaSight depth' side)) :
      (as.map Trivia.blueprint).map TriviaBlueprint.erased =
        (bs.map Trivia.blueprint).map TriviaBlueprint.erased := by
    have back (depth : Nat) (as : List Trivia) :
        (as.map Trivia.blueprint).map TriviaBlueprint.erased =
          (as.map (triviaSight depth side)).map fun x => ⟨x.kind, x.text.getD "", .empty⟩ := by
      rw [List.map_map, List.map_map]
      rfl
    rw [back depth, back depth', seen]
  exact ⟨told .leading leading, told .trailing trailing⟩

private theorem eq_of_sights {a b : Element} {around around' : List Element}
    (same : a.sights around = b.sights around') :
    a.kind = b.kind ∧ a.text? = b.text? ∧ a.summary.missing = b.summary.missing := by
  have first := congrArg List.head? same
  rw [head?_sights, head?_sights, Option.some.injEq, Sight.mk.injEq] at first
  exact first.2.2

/-- What sound elements are made from, but for what is attached, is known from what is seen of
them. -/
theorem Sound.blueprint_erased_of_sights {a b : Element} (soundA : a.Sound) (soundB : b.Sound)
    {around around' : List Element} (level : around.length = around'.length)
    (same : a.sights around = b.sights around') : a.blueprint.erased = b.blueprint.erased := by
  induction soundA generalizing b around around' with
  | @node n own parts ih =>
    obtain ⟨kinds, texts, missing⟩ := eq_of_sights same
    cases soundB with
    | @node m own' parts' =>
      have deeper : (around ++ [Element.node n]).length =
          (around' ++ [Element.node m]).length := by simp [level]
      have begins (around : List Element) (cs : List Element) :
          ∀ ys ∈ cs.map (sights around), ∃ x xs, ys = x :: xs ∧
          ¬around.length < x.depth ∧ ∀ y ∈ xs, around.length < y.depth := by
        intro ys mem
        obtain ⟨c, -, rfl⟩ := List.mem_map.1 mem
        exact exists_sights_eq around c
      rw [sights_node, sights_node] at same
      have children := flatten_inj_of_begin (begins _ n.children) (deeper ▸ begins _ m.children)
        (List.cons.inj same).2
      have pairs : List.Forall₂ (fun c d => c.blueprint.erased = d.blueprint.erased)
          n.children m.children :=
        forall₂_of_map_eq children fun c mem d mem' seen => ih c mem (parts' d mem') deeper seen
      have erased : (n.children.map blueprint).map Blueprint.erased =
          (m.children.map blueprint).map Blueprint.erased := by
        rw [List.map_map, List.map_map]
        exact map_eq_of_forall₂ pairs fun _ _ _ => id
      have kinds : n.head.kind = m.head.kind := kinds
      have missing : n.head.summary.missing = m.head.summary.missing := missing
      simp only [blueprint, Blueprint.erased, blueprints_eq, Blueprint.allErased_eq, kinds,
        missing, erased]
    | token own' => cases texts
    | trivia own' => cases texts
  | @token t own =>
    obtain ⟨kinds, texts, missing⟩ := eq_of_sights same
    cases soundB with
    | node own' parts' => cases texts
    | @token u own' =>
      rw [sights_token, sights_token] at same
      obtain ⟨leading, trailing⟩ := erased_eq_of_triviaSights (List.cons.inj same).2
      have kinds : t.head.kind = u.head.kind := kinds
      have missing : t.head.summary.missing = u.head.summary.missing := missing
      simp only [blueprint, Blueprint.erased, kinds, Option.some.inj texts, missing,
        leading, trailing]
    | @trivia u own' =>
      have kinds : t.head.kind = u.head.kind := kinds
      exact absurd own.kind (by rw [kinds, Kind.isToken_of_isTrivia own'.kind]; decide)
  | @trivia t own =>
    obtain ⟨kinds, texts, -⟩ := eq_of_sights same
    cases soundB with
    | node own' parts' => cases texts
    | @token u own' =>
      have kinds : t.head.kind = u.head.kind := kinds
      exact absurd own'.kind (by rw [← kinds, Kind.isToken_of_isTrivia own.kind]; decide)
    | @trivia u own' =>
      have kinds : t.head.kind = u.head.kind := kinds
      simp only [blueprint, Trivia.blueprint, Blueprint.erased, TriviaBlueprint.erased, kinds,
        Option.some.inj texts]

theorem Sound.blueprint_erased_of_outline {a b : Element} (soundA : a.Sound) (soundB : b.Sound)
    (same : a.outline = b.outline) : a.blueprint.erased = b.blueprint.erased := by
  rw [outline_eq, outline_eq] at same
  have pairs : List.Forall₂ (fun o u => o.sight = u.sight) (a.occurrencesIn [])
      (b.occurrencesIn []) :=
    forall₂_of_map_eq (lines_injective same) fun o mem u mem' line =>
      Occurrence.sight_eq_of_line line fun kinds =>
      (soundA.part (part_of_mem_occurrencesIn mem)).text?_eq_none_iff
        (soundB.part (part_of_mem_occurrencesIn mem'))
        kinds
  exact soundA.blueprint_erased_of_sights soundB rfl (map_eq_of_forall₂ pairs fun _ _ _ => id)

/-! ### What is attached -/

/-- Whether nothing is attached to an element or anywhere in it. -/
def Bare (e : Element) : Prop := ∀ d : Element, d.Part e → d.overlay.isEmpty = true

end Element

def Occurrence.erased (o : Occurrence) : Occurrence :=
  ⟨o.around.map Element.erased, o.side, o.element.erased⟩

namespace Occurrence

theorem line_erased {o : Occurrence} (bare : o.element.overlay.isEmpty = true) :
    o.erased.line = o.line := by
  obtain ⟨around, side, e⟩ := o
  have entry (head : Head) (text : Option String) (bare : head.overlay.isEmpty = true) :
      Outline.entry head.erased text = Outline.entry head text := by
    obtain ⟨kind, bits, width, overlay⟩ := head
    obtain ⟨diagnostics, annotations⟩ := Bool.and_eq_true_iff.1 bare
    have skipped : bits.structural.skippedText = bits.skippedText := Bool.and_true _
    simp [Outline.entry, Head.erased, Overlay.empty, diagnostics, annotations, skipped]
  have level : (around.map Element.erased).length = around.length := List.length_map _
  unfold line erased
  cases e <;> simp only [level] <;> exact congrArg _ (entry _ _ bare)

end Occurrence

namespace Element

theorem occurrencesIn_erased (e : Element) (around : List Element) :
    e.erased.occurrencesIn (around.map erased) =
      (e.occurrencesIn around).map Occurrence.erased := by
  induction e using Element.induction generalizing around with
  | node n parts =>
    calc (Element.node n).erased.occurrencesIn (around.map erased)
      _ = ⟨around.map erased, none, (Element.node n).erased⟩ :: n.children.flatMap fun c =>
          c.erased.occurrencesIn ((around ++ [Element.node n]).map erased) := by
        simp [erased, occurrencesIn, List.flatMap_map]
      _ = Occurrence.erased ⟨around, none, .node n⟩ :: n.children.flatMap fun c =>
          (c.occurrencesIn (around ++ [Element.node n])).map Occurrence.erased :=
        congrArg _ (List.flatMap_congr fun c mem => parts c mem _)
      _ = ((Element.node n).occurrencesIn around).map Occurrence.erased := by
        rw [occurrencesIn, occurrencesWithin_eq, List.map_cons, List.map_flatMap]
  | token t =>
    simp [erased, Token.erased, occurrencesIn, Occurrence.erased, Function.comp_def]
  | trivia t => rfl

theorem outline_erased {e : Element} (bare : e.Bare) : e.erased.outline = e.outline := by
  have there := occurrencesIn_erased e []
  rw [List.map_nil] at there
  rw [outline_eq, outline_eq, there, Outline.lines, Outline.lines, List.map_map]
  refine congrArg _ (List.map_congr_left fun o mem => ?_)
  rw [Function.comp_apply, Occurrence.line_erased (bare _ (part_of_mem_occurrencesIn mem))]

/-- How an outline is laid out: cut at its breaks it is one line for each occurrence, in source
order, each with two blanks in front for every element around the occurrence, and nothing behind the
last break. -/
structure LaidOut (e : Element) : Prop where
  lines : e.outline.toList.splitOn '\n' = (e.occurrencesIn []).map (fun o => o.line.toList) ++ [[]]
  order : (e.occurrencesIn []).map Occurrence.element = e.occurrences
  indented : ∀ o : Occurrence, o.line.toList.takeWhile (· = ' ') =
    List.replicate (2 * o.around.length) ' '

theorem laidOut (e : Element) : e.LaidOut where
  lines := by
    rw [outline_eq]
    exact Outline.splitOn_lines _
  order := e.map_element_occurrencesIn []
  indented o := by
    have blanks : ∀ c ∈ List.replicate (2 * o.around.length) ' ', decide (c = ' ') =
        true := fun c mem =>
      decide_eq_true (List.eq_of_mem_replicate mem)
    have behind : o.body.takeWhile (· = ' ') = [] := by
      cases eq : o.body with
      | nil => rfl
      | cons c cs => exact List.takeWhile_cons_of_neg (by simpa using o.body_begin c (eq ▸ rfl))
    rw [o.toList_line, List.takeWhile_append_of_pos blanks, behind, List.append_nil]

end Element

namespace Store

/-- What the outlines of two elements tell of them. -/
structure OutlinesTell (a b : Element) : Prop where
  equivalent : a.outline = b.outline → a.isEquivalent b = true
  exact : a.Bare → b.Bare → (a.outline = b.outline ↔ a.isEquivalent b = true)
  laidOut : a.LaidOut

/-- At any time of a run, elements with one outline are equivalent, and equivalent elements to which
nothing is attached have one outline. -/
theorem Reached.outlinesTell {s : Store} (reached : s.Reached) {a b : Element} (heldA : s.Holds a)
    (heldB : s.Holds b) : OutlinesTell a b := by
  have soundA := reached.tidy.sound_of_holds heldA
  have soundB := reached.tidy.sound_of_holds heldB
  have equivalent (same : a.outline = b.outline) : a.isEquivalent b = true := by
    rw [reached.isEquivalent_iff_erased heldA heldB, soundA.erased_eq, soundB.erased_eq,
      soundA.blueprint_erased_of_outline soundB same]
  refine ⟨equivalent, fun bareA bareB => ⟨equivalent, fun alike => ?_⟩, a.laidOut⟩
  rw [reached.isEquivalent_iff_erased heldA heldB] at alike
  rw [← Element.outline_erased bareA, alike, Element.outline_erased bareB]

theorem outlinesTell_quotedBreak :
    let break_ : Trivia := ⟨0, ⟨.endOfLineTrivia, {}, 1, .empty⟩, "\n"⟩
    let first : Token := ⟨1, ⟨.stringLit, {}, 8, .empty⟩, "\"\n  X@0", [break_], [], 1, 0⟩
    let second : Token := ⟨2, ⟨.stringLit, {}, 8, .empty⟩, "\"\n  X@0", [break_], [], 1, 0⟩
    let s : Store := ⟨3, [.token second, .token first, .trivia break_], [], []⟩
    s.Reached ∧ s.Holds (.token first) ∧ s.Holds (.token second) ∧
      OutlinesTell (.token first) (.token second) ∧ (Element.token first).Bare ∧
      (Element.token second).Bare ∧
        (Element.token first).outline =
          "STRING@8 \"\\\"\\n  X@0\"\n  leading END_OF_LINE_TRIVIA@1 \"\\n\"\n" ∧
        (Element.token second).outline = (Element.token first).outline := by
  intro break_ first second s
  have madeBreak : Trivia.make 0 .endOfLineTrivia "\n" .empty = .ok break_ := rfl
  have madeFirst : Token.make 1 .stringLit false "\"\n  X@0" [break_] [] .empty = .ok first := rfl
  have madeSecond : Token.make 2 .stringLit false "\"\n  X@0" [break_] [] .empty = .ok second := rfl
  have one : Reached ⟨1, [.trivia break_], [], []⟩ :=
    .trivia .start Overlay.addressable_empty madeBreak
  have two : Reached ⟨2, [.token first, .trivia break_], [], []⟩ :=
    .token one (by simpa using ⟨_, .head _, .self _⟩) madeFirst
  have reached : s.Reached :=
    .token two (by simpa using ⟨_, .tail _ (.head _), .self _⟩) madeSecond
  have held : s.Holds (.token first) := ⟨_, .tail _ (.head _), .self _⟩
  have held' : s.Holds (.token second) := ⟨_, .head _, .self _⟩
  have tell := reached.outlinesTell held held'
  have bare {t : Token} (own : t.head.overlay.isEmpty = true) (leading : t.leading = [break_])
      (trailing : t.trailing = []) : (Element.token t).Bare := by
    intro d part
    cases part with
    | self => exact own
    | leading mem =>
      rw [leading, List.mem_singleton] at mem
      rw [mem]
      rfl
    | trailing mem => exact absurd (trailing ▸ mem) List.not_mem_nil
  have bareFirst : (Element.token first).Bare := bare rfl rfl rfl
  have bareSecond : (Element.token second).Bare := bare rfl rfl rfl
  have outline : (Element.token first).outline =
      "STRING@8 \"\\\"\\n  X@0\"\n  leading END_OF_LINE_TRIVIA@1 \"\\n\"\n" := by decide +kernel
  exact ⟨reached, held, held', tell, bareFirst, bareSecond, outline,
    ((tell.exact bareFirst bareSecond).2 rfl).symm⟩

end Store

end GreenTree
