import GreenTree.Proofs.Making

/-!
What is in an element, and what its summary bits say of that. A bit that parents take over is set in
an element exactly if something in the element has it of its own accord. So the bits of a sound
element are those that its blueprint gives it by what is in it.
-/

namespace GreenTree

namespace Element

/-- The element itself and everything below it, trivia of tokens included. -/
inductive Part : Element → Element → Prop
  | self (e : Element) : Part e e
  | child {n : Node Element} {c d : Element} : c ∈ n.children → Part d c → Part d (.node n)
  | leading {t : Token} {s : Trivia} : s ∈ t.leading → Part (.trivia s) (.token t)
  | trailing {t : Token} {s : Trivia} : s ∈ t.trailing → Part (.trivia s) (.token t)

theorem part_trivia_iff {d : Element} {t : Trivia} : d.Part (.trivia t) ↔ d = .trivia t := by
  constructor
  · intro part
    cases part
    rfl
  · rintro rfl
    exact .self _

theorem part_token_iff {d : Element} {t : Token} :
    d.Part (.token t) ↔ d = .token t ∨ ∃ s ∈ t.leading ++ t.trailing, d = .trivia s := by
  constructor
  · intro part
    cases part with
    | self => exact .inl rfl
    | leading h => exact .inr ⟨_, List.mem_append_left _ h, rfl⟩
    | trailing h => exact .inr ⟨_, List.mem_append_right _ h, rfl⟩
  · rintro (rfl | ⟨s, h, rfl⟩)
    · exact .self _
    · rcases List.mem_append.1 h with h | h
      · exact .leading h
      · exact .trailing h

theorem part_node_iff {d : Element} {n : Node Element} :
    d.Part (.node n) ↔ d = .node n ∨ ∃ c ∈ n.children, d.Part c := by
  constructor
  · intro part
    cases part with
    | self => exact .inl rfl
    | child h below => exact .inr ⟨_, h, below⟩
  · rintro (rfl | ⟨c, h, below⟩)
    · exact .self _
    · exact .child h below

theorem Part.trans {a b c : Element} (first : a.Part b) (second : b.Part c) : a.Part c := by
  induction second with
  | self => exact first
  | child h _ ih => exact .child h (ih first)
  | leading h =>
    rw [part_trivia_iff] at first
    exact first ▸ .leading h
  | trailing h =>
    rw [part_trivia_iff] at first
    exact first ▸ .trailing h

theorem Sound.part {d e : Element} (part : d.Part e) (sound : e.Sound) : d.Sound := by
  induction part with
  | self e => exact sound
  | child h _ ih => exact ih ((sound_node_iff.1 sound).2 _ h)
  | leading h => exact .trivia ((sound_token_iff.1 sound).leading _ h)
  | trailing h => exact .trivia ((sound_token_iff.1 sound).trailing _ h)

end Element

/-- A bit of sums, which parents take over from what they hold. -/
structure Summary.TakenOver (bit : Summary → Bool) : Prop where
  union : ∀ a b, bit (a.union b) = (bit a || bit b)
  toInherit : ∀ a, bit a.toInherit = bit a
  missing : ∀ missing, bit { missing } = false

theorem Summary.takenOver_diagnostics : TakenOver Summary.diagnostics where
  union _ _ := rfl
  toInherit a := Bool.and_true a.diagnostics
  missing _ := rfl

theorem Summary.takenOver_annotations : TakenOver Summary.annotations where
  union _ _ := rfl
  toInherit a := Bool.and_true a.annotations
  missing _ := rfl

theorem Summary.takenOver_skippedText : TakenOver Summary.skippedText where
  union _ _ := rfl
  toInherit a := Bool.and_true a.skippedText
  missing _ := rfl

theorem Summary.contains_diagnostics (a : Summary) :
    a.contains { diagnostics := true } = a.diagnostics := by
  rcases a with ⟨_ | _, _ | _, _ | _, _ | _⟩ <;> rfl

theorem Summary.contains_annotations (a : Summary) :
    a.contains { annotations := true } = a.annotations := by
  rcases a with ⟨_ | _, _ | _, _ | _, _ | _⟩ <;> rfl

section TakenOver

variable {bit : Summary → Bool} (taken : Summary.TakenOver bit)

include taken

private theorem bit_foldl {α : Type} (bits : α → Summary) (parts : List α) (start : Summary) :
    bit (parts.foldl (fun s p => s.union (bits p).toInherit) start) =
      (bit start || parts.any fun p => bit (bits p)) := by
  induction parts generalizing start with
  | nil => simp
  | cons p parts ih =>
    rw [List.foldl_cons, ih, taken.union, taken.toInherit, List.any_cons, Bool.or_assoc]

theorem Trivia.bit_inherited (trivia : List Trivia) :
    bit (Trivia.inherited trivia) = trivia.any fun t => bit t.head.summary := by
  have all := bit_foldl taken (fun t : Trivia => t.head.summary) trivia .empty
  have none : bit .empty = false := taken.missing false
  rw [Trivia.inherited, all, none, Bool.false_or]

theorem Node.bit_inherited (children : List Element) :
    bit (Node.inherited children) = children.any fun c => bit c.summary := by
  have all := bit_foldl taken Element.summary children .empty
  have none : bit .empty = false := taken.missing false
  rw [Node.inherited, all, none, Bool.false_or]

theorem Token.Sound.bit_eq {t : Token} (own : t.Sound) : bit t.head.summary =
    ((t.leading ++ t.trailing).any (fun s => bit s.head.summary) ||
      bit t.head.overlay.summary) := by
  rw [own.summary, taken.union, taken.union, taken.missing, Trivia.bit_inherited taken,
    Bool.false_or]

theorem Node.Sound.bit_eq {n : Node Element} (own : n.Sound) : bit n.head.summary =
    (n.children.any (fun c => bit c.summary) || bit n.head.overlay.summary) := by
  rw [own.summary, taken.union, taken.union, taken.missing, Node.bit_inherited taken,
    Bool.false_or]

end TakenOver

/-- The bits that an element has of its own accord, whatever it holds and whether it is missing. -/
def Element.ownSummary : Element → Summary
  | .node n => n.head.overlay.summary
  | .token t => t.head.overlay.summary
  | .trivia t => (Trivia.kindSummary t.head.kind).union t.head.overlay.summary

namespace Element

theorem Sound.bit_iff {bit : Summary → Bool} (taken : Summary.TakenOver bit) {e : Element}
    (sound : e.Sound) :
    bit e.summary = true ↔ ∃ d : Element, d.Part e ∧ bit d.ownSummary = true := by
  induction sound with
  | @node n own parts ih =>
    rw [summary, head, own.bit_eq taken, Bool.or_eq_true, List.any_eq_true]
    constructor
    · rintro (⟨c, h, set⟩ | set)
      · obtain ⟨d, part, given⟩ := (ih c h).1 set
        exact ⟨d, .child h part, given⟩
      · exact ⟨.node n, .self _, set⟩
    · rintro ⟨d, part, given⟩
      rcases part_node_iff.1 part with rfl | ⟨c, h, below⟩
      · exact .inr given
      · exact .inl ⟨c, h, (ih c h).2 ⟨d, below, given⟩⟩
  | @token t own =>
    have sound : ∀ s ∈ t.leading ++ t.trailing, s.Sound :=
      List.forall_mem_append.2 ⟨own.leading, own.trailing⟩
    rw [summary, head, own.bit_eq taken, Bool.or_eq_true, List.any_eq_true]
    constructor
    · rintro (⟨s, h, set⟩ | set)
      · refine ⟨.trivia s, part_token_iff.2 (.inr ⟨s, h, rfl⟩), ?_⟩
        rwa [ownSummary, ← (sound s h).summary]
      · exact ⟨.token t, .self _, set⟩
    · rintro ⟨d, part, given⟩
      rcases part_token_iff.1 part with rfl | ⟨s, h, rfl⟩
      · exact .inr given
      · refine .inl ⟨s, h, ?_⟩
        rwa [(sound s h).summary]
  | @trivia t own =>
    rw [summary, head, own.summary]
    constructor
    · intro set
      exact ⟨.trivia t, .self _, set⟩
    · rintro ⟨d, part, given⟩
      rw [part_trivia_iff] at part
      rwa [part] at given

theorem ownSummary_diagnostics (e : Element) :
    e.ownSummary.diagnostics = true ↔ e.overlay.diagnostics ≠ [] := by
  have kinds (k : Kind) : (Trivia.kindSummary k).diagnostics = false := by
    unfold Trivia.kindSummary
    split <;> rfl
  cases e <;> simp [ownSummary, overlay, head, Overlay.summary, Summary.union, kinds]

theorem ownSummary_annotations (e : Element) :
    e.ownSummary.annotations = true ↔ e.overlay.annotations ≠ [] := by
  have kinds (k : Kind) : (Trivia.kindSummary k).annotations = false := by
    unfold Trivia.kindSummary
    split <;> rfl
  cases e <;> simp [ownSummary, overlay, head, Overlay.summary, Summary.union, kinds]

theorem ownSummary_skippedText (e : Element) : e.ownSummary.skippedText = true ↔
    ∃ t : Trivia, e = .trivia t ∧ t.head.kind = .preprocessingMessageTrivia := by
  cases e with
  | node n => simp [ownSummary, Overlay.summary]
  | token t => simp [ownSummary, Overlay.summary]
  | trivia t =>
    by_cases message : t.head.kind = .preprocessingMessageTrivia
    · simp [ownSummary, Overlay.summary, Summary.union, Trivia.kindSummary, message]
    · simp [ownSummary, Overlay.summary, Summary.union, Summary.empty, Trivia.kindSummary, message]

/-- What the summary bits of an element promise: each of those that parents take over says whether
something of its sort is in the element, and the word of all of them has no others but the one of
missing elements. -/
structure SummaryExact (e : Element) : Prop where
  diagnostics : e.summary.diagnostics = true ↔ ∃ d : Element, d.Part e ∧
    d.overlay.diagnostics ≠ []
  annotations : e.summary.annotations = true ↔ ∃ d : Element, d.Part e ∧
    d.overlay.annotations ≠ []
  skippedText : e.summary.skippedText = true ↔
    ∃ t : Trivia, (Element.trivia t).Part e ∧ t.head.kind = .preprocessingMessageTrivia
  word : ∀ i, e.summary.bits.testBit i = true ↔ i = 0 ∧ e.summary.missing = true ∨
    (i = 1 ∧ ∃ d : Element, d.Part e ∧ d.overlay.diagnostics ≠ []) ∨
    (i = 2 ∧ ∃ d : Element, d.Part e ∧ d.overlay.annotations ≠ []) ∨
    (i = 3 ∧ ∃ t : Trivia, (Element.trivia t).Part e ∧
      t.head.kind = .preprocessingMessageTrivia)

theorem Sound.summaryExact {e : Element} (sound : e.Sound) : e.SummaryExact := by
  have diagnostics : e.summary.diagnostics = true ↔
      ∃ d : Element, d.Part e ∧ d.overlay.diagnostics ≠ [] := by
    rw [sound.bit_iff Summary.takenOver_diagnostics]
    simp only [ownSummary_diagnostics]
  have annotations : e.summary.annotations = true ↔
      ∃ d : Element, d.Part e ∧ d.overlay.annotations ≠ [] := by
    rw [sound.bit_iff Summary.takenOver_annotations]
    simp only [ownSummary_annotations]
  have skippedText : e.summary.skippedText = true ↔
      ∃ t : Trivia, (Element.trivia t).Part e ∧ t.head.kind = .preprocessingMessageTrivia := by
    rw [sound.bit_iff Summary.takenOver_skippedText]
    simp only [ownSummary_skippedText]
    constructor
    · rintro ⟨d, part, t, rfl, message⟩
      exact ⟨t, part, message⟩
    · rintro ⟨t, part, message⟩
      exact ⟨.trivia t, part, t, rfl, message⟩
  refine ⟨diagnostics, annotations, skippedText, fun i => ?_⟩
  rw [Summary.testBit_bits, diagnostics, annotations, skippedText]

theorem Sound.trivia_missing {e : Element} (sound : e.Sound) (isTrivia : e.isTrivia = true) :
    e.summary.missing = false := by
  cases sound with
  | trivia own => simp [summary, head, own.summary]
  | token own => cases isTrivia
  | node own parts => cases isTrivia

theorem Sound.missing_blueprint {e : Element} (sound : e.Sound) :
    e.blueprint.missing = e.summary.missing := by
  cases sound with
  | node own parts => rfl
  | token own => rfl
  | trivia own => exact ((Sound.trivia own).trivia_missing rfl).symm

@[simp] theorem blueprint_overlay (e : Element) : e.blueprint.overlay = e.overlay := by
  cases e <;> rfl

theorem mem_records_blueprint {e : Element} {r : Blueprint} :
    r ∈ e.blueprint.records ↔ ∃ d : Element, d.Part e ∧ d.blueprint = r := by
  induction e using Element.induction with
  | node n parts =>
    rw [Blueprint.records_eq, List.mem_append, List.mem_singleton, blueprint, Blueprint.inner,
      blueprints_eq, List.mem_flatMap]
    constructor
    · rintro (⟨_, mem, inside⟩ | rfl)
      · obtain ⟨c, child, rfl⟩ := List.mem_map.1 mem
        obtain ⟨d, part, same⟩ := (parts c child).1 inside
        exact ⟨d, .child child part, same⟩
      · exact ⟨.node n, .self _, by rw [blueprint, blueprints_eq]⟩
    · rintro ⟨d, part, rfl⟩
      rcases part_node_iff.1 part with rfl | ⟨c, child, below⟩
      · exact .inr (by rw [blueprint, blueprints_eq])
      · exact .inl ⟨c.blueprint, List.mem_map_of_mem child,
          (parts c child).2 ⟨d, below, rfl⟩⟩
  | token t =>
    rw [Blueprint.records_eq, List.mem_append, List.mem_singleton, blueprint, Blueprint.inner,
      ← List.map_append, List.map_map, List.mem_map]
    constructor
    · rintro (⟨s, mem, rfl⟩ | rfl)
      · exact ⟨.trivia s, part_token_iff.2 (.inr ⟨s, mem, rfl⟩), rfl⟩
      · exact ⟨.token t, .self _, rfl⟩
    · rintro ⟨d, part, rfl⟩
      rcases part_token_iff.1 part with rfl | ⟨s, mem, rfl⟩
      · exact .inr rfl
      · exact .inl ⟨s, mem, rfl⟩
  | trivia t =>
    rw [blueprint, Blueprint.records, List.mem_singleton]
    constructor
    · rintro rfl
      exact ⟨.trivia t, .self _, rfl⟩
    · rintro ⟨d, part, rfl⟩
      rw [part_trivia_iff.1 part, blueprint]

/-- The bits of a sound element are those that its blueprint gives it. -/
theorem Sound.summary_blueprint {e : Element} (sound : e.Sound) :
    e.blueprint.summary = e.summary := by
  obtain ⟨diagnostics, annotations, skippedText, -⟩ := sound.summaryExact
  have present {α : Type} (list : Overlay → List α) :
      (e.blueprint.records.any fun r => !(list r.overlay).isEmpty) = true ↔
        ∃ d : Element, d.Part e ∧ list d.overlay ≠ [] := by
    simp only [List.any_eq_true, mem_records_blueprint]
    constructor
    · rintro ⟨_, ⟨d, part, rfl⟩, some⟩
      exact ⟨d, part, by simpa using some⟩
    · rintro ⟨d, part, some⟩
      exact ⟨_, ⟨d, part, rfl⟩, by simpa using some⟩
  have skipped : (e.blueprint.records.any fun r =>
      r.isTrivia && r.kind == .preprocessingMessageTrivia) = true ↔
        ∃ t : Trivia, (Element.trivia t).Part e ∧
          t.head.kind = .preprocessingMessageTrivia := by
    simp only [List.any_eq_true, mem_records_blueprint]
    constructor
    · rintro ⟨_, ⟨d, part, rfl⟩, message⟩
      cases d with
      | node n => simp [isTrivia] at message
      | token t => simp [isTrivia] at message
      | trivia t => exact ⟨t, part, by simpa [isTrivia, kind, head] using message⟩
    · rintro ⟨t, part, message⟩
      exact ⟨_, ⟨.trivia t, part, rfl⟩, by simpa [isTrivia, kind, head] using message⟩
  rw [Blueprint.summary, sound.missing_blueprint]
  congr 1
  · exact Bool.eq_iff_iff.2 ((present Overlay.diagnostics).trans diagnostics.symm)
  · exact Bool.eq_iff_iff.2 ((present Overlay.annotations).trans annotations.symm)
  · exact Bool.eq_iff_iff.2 (skipped.trans skippedText.symm)

end Element

end GreenTree
