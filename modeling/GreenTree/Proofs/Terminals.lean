import GreenTree.Proofs.Writing

/-!
Outermost terminals. An element spans text exactly if one of its tokens does, so a search that
enters the outermost child that spans text finds a token there and has passed by none: what it finds
is the first, or the last, token of the element that spans text, and it finds nothing only where
nothing spans text.
-/

namespace GreenTree

namespace Element

/-- The tokens of an element that span text, from left to right. -/
def terminals (e : Element) : List Token := e.allTokens.filter Token.spansText

theorem terminals_node (n : Node Element) :
    (Element.node n).terminals = n.children.flatMap terminals := by
  rw [terminals, allTokens_node, List.filter_flatMap]
  rfl

theorem terminals_token {t : Token} (spans : t.spansText = true) :
    (Element.token t).terminals = [t] := by
  rw [terminals, allTokens_token, List.filter_cons_of_pos spans, List.filter_nil]

theorem Sound.terminals_eq_nil_iff {e : Element} (sound : e.Sound) (shape : e.isTrivia = false) :
    e.terminals = [] ↔ e.spansText = false := by
  rw [sound.spansText_eq shape, terminals, List.filter_eq_nil_iff, List.any_eq_false]

/-- Whether the searches in an element end at the first and at the last of its tokens that span
text. -/
structure Outermost (e : Element) : Prop where
  first : e.firstTerminal? = e.terminals.head?
  last : e.lastTerminal? = e.terminals.getLast?

section Children

variable {cs : List Element} (bare : ∀ c ∈ cs, c.terminals = [] ↔ c.spansText = false)
  (parts : ∀ c ∈ cs, c.spansText = true → c.Outermost)

include bare parts

private theorem firstTerminalIn_eq_head? : firstTerminalIn cs = (cs.flatMap terminals).head? := by
  induction cs with
  | nil => rfl
  | cons c cs ih =>
    obtain ⟨bareC, bareCs⟩ := List.forall_mem_cons.1 bare
    obtain ⟨partC, partCs⟩ := List.forall_mem_cons.1 parts
    have rest := ih bareCs partCs
    rw [firstTerminalIn, List.flatMap_cons, List.head?_append]
    cases spans : c.spansText with
    | true =>
      have filled : c.terminals ≠ [] := mt bareC.1 (by rw [spans]; decide)
      rw [if_pos rfl, (partC spans).first, List.head?_eq_some_head filled, Option.some_or]
    | false =>
      rw [if_neg Bool.false_ne_true, rest, bareC.2 spans, List.head?_nil, Option.none_or]

private theorem lastTerminalIn_eq_getLast? (found : Unit → Option Token) :
    lastTerminalIn found cs = (cs.flatMap terminals).getLast?.or (found ()) := by
  induction cs generalizing found with
  | nil => rfl
  | cons c cs ih =>
    obtain ⟨bareC, bareCs⟩ := List.forall_mem_cons.1 bare
    obtain ⟨partC, partCs⟩ := List.forall_mem_cons.1 parts
    have rest := ih bareCs partCs
    rw [lastTerminalIn, List.flatMap_cons, List.getLast?_append, Option.or_assoc]
    cases spans : c.spansText with
    | true =>
      have filled : c.terminals ≠ [] := mt bareC.1 (by rw [spans]; decide)
      rw [if_pos rfl, rest, (partC spans).last, List.getLast?_eq_some_getLast filled,
        Option.some_or]
    | false =>
      rw [if_neg Bool.false_ne_true, rest, bareC.2 spans, List.getLast?_nil, Option.none_or]

end Children

private theorem outermost_of_parts {n : Node Element} (own : n.Sound)
    (sound : ∀ c ∈ n.children, c.Sound)
    (parts : ∀ c ∈ n.children, c.spansText = true → c.Outermost) :
    (Element.node n).Outermost := by
  have bare (c : Element) (mem : c ∈ n.children) :=
    (sound c mem).terminals_eq_nil_iff (own.shape c mem)
  refine ⟨?_, ?_⟩
  · rw [firstTerminal?, terminals_node, firstTerminalIn_eq_head? bare parts]
  · rw [lastTerminal?, terminals_node, lastTerminalIn_eq_getLast? bare parts, Option.or_none]

/-- Where something spans text the searches end at tokens that do, and no such token is further
out. -/
theorem Sound.outermost {e : Element} (sound : e.Sound) (shape : e.isTrivia = false)
    (spans : e.spansText = true) :
    e.Outermost := by
  induction sound with
  | node own parts ih => exact outermost_of_parts own parts fun c mem => ih c mem (own.shape c mem)
  | token own =>
    have one := terminals_token spans
    exact ⟨by rw [one]; rfl, by rw [one]; rfl⟩
  | trivia own => cases shape

theorem Sound.outermost_node {n : Node Element} (sound : (Element.node n).Sound) :
    (Element.node n).Outermost := by
  obtain ⟨own, parts⟩ := sound_node_iff.1 sound
  exact outermost_of_parts own parts fun c mem => (parts c mem).outermost (own.shape c mem)

/-- The searches in a node end at the first and at the last of its tokens that span text, and at
none exactly if it has no width. Wherever they come to on their way down, there is a terminal in
every child that has a width. -/
theorem Obtained.terminals_outermost {n : Node Element} (obtained : (Element.node n).Obtained) :
    (Element.node n).firstTerminal? = (Element.node n).terminals.head? ∧
      (Element.node n).lastTerminal? = (Element.node n).terminals.getLast? ∧
      ((Element.node n).firstTerminal? = none ↔ n.head.fullWidth = 0) ∧
      ((Element.node n).lastTerminal? = none ↔ n.head.fullWidth = 0) ∧
      ∀ m : Node Element, (Element.node m).Part (.node n) →
        ∀ c ∈ m.children, 0 < c.fullWidth →
        c.firstTerminal?.isSome = true ∧ c.lastTerminal?.isSome = true := by
  have sound := obtained.sound
  obtain ⟨first, last⟩ := sound.outermost_node
  have none : (Element.node n).terminals = [] ↔ n.head.fullWidth = 0 := by
    rw [sound.terminals_eq_nil_iff rfl, spansText, decide_eq_false_iff_not,
      Nat.pos_iff_ne_zero, not_not]
    rfl
  refine ⟨first, last, ?_, ?_, fun m part c mem wide => ?_⟩
  · rw [first, List.head?_eq_none_iff, none]
  · rw [last, List.getLast?_eq_none_iff, none]
  · obtain ⟨own, parts⟩ := sound_node_iff.1 (sound.part part)
    have shape := own.shape c mem
    have spans : c.spansText = true := decide_eq_true wide
    have filled : c.terminals ≠ [] :=
      mt ((parts c mem).terminals_eq_nil_iff shape).1 (by rw [spans]; decide)
    obtain ⟨first, last⟩ := (parts c mem).outermost shape spans
    rw [first, last, List.head?_eq_some_head filled, List.getLast?_eq_some_getLast filled]
    exact ⟨rfl, rfl⟩

theorem terminals_outermost_emptyParts :
    let blank : Trivia := ⟨0, ⟨.whitespaceTrivia, {}, 1, .empty⟩, " "⟩
    let void : Node Element := ⟨1, ⟨.errorNode, {}, 0, .empty⟩, []⟩
    let hole : Token := ⟨2, ⟨.semicolon, { missing := true }, 0, .empty⟩, "", [], [], 0, 0⟩
    let shell : Token := ⟨3, ⟨.ident, {}, 1, .empty⟩, "", [blank], [], 1, 0⟩
    let name : Token := ⟨4, ⟨.ident, {}, 1, .empty⟩, "x", [], [], 0, 0⟩
    let inner : Node Element := ⟨5, ⟨.listNode, {}, 1, .empty⟩, [.token hole, .token shell]⟩
    let list : Node Element := ⟨6, ⟨.listNode, {}, 2, .empty⟩,
      [.node void, .node inner, .token name, .token hole]⟩
    (Element.node list).Obtained ∧ list.head.fullWidth = 2 ∧
      (Element.node list).allTokens = [hole, shell, name, hole] ∧
      (Element.node list).firstTerminal? = some shell ∧
      (Element.node list).lastTerminal? = some name ∧
      (Element.node void).Obtained ∧ (Element.node void).firstTerminal? = none ∧
      (Element.node list).Part (.node list) ∧ Element.node inner ∈ list.children ∧
      0 < (Element.node inner).fullWidth ∧ (Element.node inner).firstTerminal?.isSome = true := by
  intro blank void hole shell name inner list
  have madeBlank : Trivia.make 0 .whitespaceTrivia " " .empty = .ok blank := rfl
  have madeVoid : Node.plain 1 .errorNode [] = .ok void := rfl
  have madeHole : Token.missing 2 .semicolon = .ok hole := rfl
  have madeShell : Token.make 3 .ident false "" [blank] [] .empty = .ok shell := rfl
  have madeName : Token.make 4 .ident false "x" [] [] .empty = .ok name := rfl
  have madeInner : Node.plain 5 .listNode [.token hole, .token shell] = .ok inner := rfl
  have madeList : Node.plain 6 .listNode [.node void, .node inner, .token name, .token hole] =
      .ok list := rfl
  have obtainedBlank : (Element.trivia blank).Obtained :=
    .trivia Overlay.addressable_empty madeBlank
  have obtainedShell : (Element.token shell).Obtained :=
    .token (by simpa using obtainedBlank) (by simp) madeShell
  have obtainedName : (Element.token name).Obtained := .token (by simp) (by simp) madeName
  have obtainedHole : (Element.token hole).Obtained := .missing madeHole
  have obtainedVoid : (Element.node void).Obtained := .node (by simp) madeVoid
  have obtainedInner : (Element.node inner).Obtained :=
    .node (by simpa using ⟨obtainedHole, obtainedShell⟩) madeInner
  have obtained : (Element.node list).Obtained :=
    .node (by simpa using ⟨obtainedVoid, obtainedInner, obtainedName, obtainedHole⟩) madeList
  have tokens : (Element.node list).allTokens = [hole, shell, name, hole] := by
    rw [allTokens_eq]
    rfl
  have terminals : (Element.node list).terminals = [shell, name] := by
    rw [Element.terminals, tokens]
    rfl
  obtain ⟨first, last, -, -, descent⟩ := obtained.terminals_outermost
  have mem : Element.node inner ∈ list.children := .tail _ (.head _)
  have found := descent list (.self _) (.node inner) mem Nat.one_pos
  rw [terminals] at first last
  exact ⟨obtained, rfl, tokens, first, last, obtainedVoid,
    obtainedVoid.terminals_outermost.2.2.1.2 rfl, .self _, mem, Nat.one_pos, found.1⟩

end Element

end GreenTree
