import GreenTree.Proofs.Obtained

/-!
What limits have against an element. A writer looks at texts, blocks and lengths of lists; a reader
looks at texts, blocks and the depth of records. What a reader would refuse is listed in the order
in which it meets it, so the first entry is the error that it ends in.
-/

namespace GreenTree

variable {limits : Limits} {depth : Nat}

def Limits.refusedBlock {α : Type} (limits : Limits) (encode : List α → List UInt8)
    (members : List α) : List ReadError :=
  if !members.isEmpty && limits.maxOverlayBytes.toNat < (encode members).length then
    [.overlay .sizeLimit]
  else []

def Limits.refusedText (limits : Limits) (text : String) : List ReadError :=
  if limits.maxStringLength.toNat < text.utf8ByteSize then
    [.stringTooLong text.utf8ByteSize limits.maxStringLength.toNat]
  else []

def Limits.refusedDepth (limits : Limits) (depth : Nat) : List ReadError :=
  if limits.maxDepth.toNat ≤ depth then [.tooDeep limits.maxDepth.toNat] else []

namespace Element

def ownText : Element → Option String
  | .node _ => none
  | .token t => some t.text
  | .trivia t => some t.text

def ownCounts : Element → List Nat
  | .node n => [n.children.length]
  | .token t => [t.leading.length, t.trailing.length]
  | .trivia _ => []

/-- Whether the text and the overlay of an element itself are within limits. -/
structure Within (limits : Limits) (e : Element) : Prop where
  diagnostics : e.overlay.diagnostics ≠ [] →
    (OverlayBlock.encodeDiagnostics e.overlay.diagnostics).length ≤ limits.maxOverlayBytes.toNat
  annotations : e.overlay.annotations ≠ [] →
    (OverlayBlock.encodeAnnotations e.overlay.annotations).length ≤ limits.maxOverlayBytes.toNat
  text : ∀ s, e.ownText = some s → s.utf8ByteSize ≤ limits.maxStringLength.toNat

def Countable (e : Element) : Prop := ∀ n ∈ e.ownCounts, n < Bytes.capacity 4

def ownRefusals (limits : Limits) (depth : Nat) (e : Element) : List ReadError :=
  limits.refusedDepth depth ++
    (limits.refusedBlock OverlayBlock.encodeDiagnostics e.overlay.diagnostics ++
      (limits.refusedBlock OverlayBlock.encodeAnnotations e.overlay.annotations ++
        (e.ownText.map limits.refusedText).getD []))

mutual

/-- What a reader has against an element and all below it, in the order of the stream. -/
def refusals (limits : Limits) (depth : Nat) : Element → List ReadError
  | .node n => ownRefusals limits depth (.node n) ++ refusalsIn limits (depth + 1) n.children
  | .token t => ownRefusals limits depth (.token t) ++
      (t.leading ++ t.trailing).flatMap fun s => ownRefusals limits (depth + 1) (.trivia s)
  | .trivia t => ownRefusals limits depth (.trivia t)

def refusalsIn (limits : Limits) (depth : Nat) : List Element → List ReadError
  | [] => []
  | c :: cs => refusals limits depth c ++ refusalsIn limits depth cs

end

@[simp] theorem refusalsIn_eq (limits : Limits) (depth : Nat) (cs : List Element) :
    refusalsIn limits depth cs = cs.flatMap (refusals limits depth) := by
  induction cs with
  | nil => rfl
  | cons c cs ih => rw [refusalsIn, ih, List.flatMap_cons]

end Element

theorem Trivia.countable (t : Trivia) : (Element.trivia t).Countable := by
  intro n listed
  cases listed

theorem Limits.refusedBlock_eq_nil_iff {α : Type} {encode : List α → List UInt8}
    {members : List α} : limits.refusedBlock encode members = [] ↔
      (members ≠ [] → (encode members).length ≤ limits.maxOverlayBytes.toNat) := by
  cases members <;> simp [refusedBlock]

theorem Limits.refusedText_eq_nil_iff {text : String} :
    limits.refusedText text = [] ↔ text.utf8ByteSize ≤ limits.maxStringLength.toNat := by
  simp [refusedText]

theorem Limits.refusedDepth_eq_nil_iff :
    limits.refusedDepth depth = [] ↔ depth < limits.maxDepth.toNat := by
  simp [refusedDepth]

namespace Element

theorem ownRefusals_eq_nil_iff {e : Element} :
    e.ownRefusals limits depth = [] ↔ depth < limits.maxDepth.toNat ∧ e.Within limits := by
  simp only [ownRefusals, List.append_eq_nil_iff, Limits.refusedDepth_eq_nil_iff,
    Limits.refusedBlock_eq_nil_iff]
  have text : (e.ownText.map limits.refusedText).getD [] = [] ↔
      ∀ s, e.ownText = some s → s.utf8ByteSize ≤ limits.maxStringLength.toNat := by
    cases e.ownText <;> simp [Limits.refusedText_eq_nil_iff]
  rw [text]
  constructor
  · intro h
    obtain ⟨shallow, diagnostics, annotations, text⟩ := h
    exact ⟨shallow, diagnostics, annotations, text⟩
  · intro h
    obtain ⟨shallow, diagnostics, annotations, text⟩ := h
    exact ⟨shallow, diagnostics, annotations, text⟩

theorem depth_add_node_le_iff {n : Node Element} {most : Nat} :
    depth + (Element.node n).recordHeight ≤ most ↔
      depth < most ∧ ∀ c ∈ n.children, depth + 1 + c.recordHeight ≤ most := by
  have each := @Blueprint.heights_le_iff (n.children.map blueprint) (most - (depth + 1))
  rw [recordHeight, blueprint, blueprints_eq, Blueprint.height]
  simp only [List.forall_mem_map] at each
  constructor
  · intro fits
    refine ⟨by omega, fun c h => ?_⟩
    have := each.1 (by omega) c h
    rw [recordHeight]
    omega
  · intro h
    obtain ⟨open_, fit⟩ := h
    have : Blueprint.heights (n.children.map blueprint) ≤ most - (depth + 1) := by
      apply each.2
      intro c h
      have := fit c h
      rw [recordHeight] at this
      omega
    omega

theorem depth_add_token_le_iff {t : Token} {most : Nat} :
    depth + (Element.token t).recordHeight ≤ most ↔
      depth < most ∧ ∀ s ∈ t.leading ++ t.trailing, depth + 1 < most := by
  have each := @Reader.token_height_le_iff t.head.kind t.head.summary.missing t.text
    (t.leading.map Trivia.blueprint) (t.trailing.map Trivia.blueprint) t.head.overlay
    (most - (depth + 1))
  have height_pos := Blueprint.height_pos (Element.token t).blueprint
  rw [recordHeight]
  rw [blueprint] at height_pos ⊢
  simp only [List.forall_mem_map, List.forall_mem_append] at each ⊢
  constructor
  · intro fits
    obtain ⟨leading, trailing⟩ := each.1 (by omega)
    refine ⟨by omega, fun s h => ?_, fun s h => ?_⟩
    · have := leading s h
      omega
    · have := trailing s h
      omega
  · intro h
    obtain ⟨open_, leading, trailing⟩ := h
    have low := each.2 ⟨fun s h => by have := leading s h; omega,
      fun s h => by have := trailing s h; omega⟩
    omega

theorem depth_add_trivia_le_iff {t : Trivia} {most : Nat} :
    depth + (Element.trivia t).recordHeight ≤ most ↔ depth < most := by
  rw [recordHeight, blueprint, Blueprint.height]
  omega

theorem forall_part_node_iff {P : Element → Prop} {n : Node Element} :
    (∀ d : Element, d.Part (.node n) → P d) ↔
      P (.node n) ∧ ∀ c ∈ n.children, ∀ d : Element, d.Part c → P d := by
  constructor
  · intro all
    exact ⟨all _ (.self _), fun c h d part => all d (.child h part)⟩
  · intro h d part
    obtain ⟨own, below⟩ := h
    rcases part_node_iff.1 part with rfl | ⟨c, h, part⟩
    · exact own
    · exact below c h d part

theorem forall_part_token_iff {P : Element → Prop} {t : Token} :
    (∀ d : Element, d.Part (.token t) → P d) ↔
      P (.token t) ∧ ∀ s ∈ t.leading ++ t.trailing, P (.trivia s) := by
  constructor
  · intro all
    exact ⟨all _ (.self _), fun s h => all _ (part_token_iff.2 (.inr ⟨s, h, rfl⟩))⟩
  · intro h d part
    obtain ⟨own, below⟩ := h
    rcases part_token_iff.1 part with rfl | ⟨s, h, rfl⟩
    · exact own
    · exact below s h

theorem forall_part_trivia_iff {P : Element → Prop} {t : Trivia} :
    (∀ d : Element, d.Part (.trivia t) → P d) ↔ P (.trivia t) := by
  simp only [part_trivia_iff, forall_eq]

/-- A reader has nothing against an element exactly if records do not nest too deep in it, and all
texts and blocks in it are within the limits. -/
theorem refusals_eq_nil_iff {e : Element} : e.refusals limits depth = [] ↔
    depth + e.recordHeight ≤ limits.maxDepth.toNat ∧
      ∀ d : Element, d.Part e → d.Within limits := by
  induction e using Element.induction generalizing depth with
  | node n ih =>
    rw [refusals, refusalsIn_eq, List.append_eq_nil_iff, List.flatMap_eq_nil_iff,
      ownRefusals_eq_nil_iff, depth_add_node_le_iff, forall_part_node_iff]
    constructor
    · intro h
      obtain ⟨⟨open_, own⟩, below⟩ := h
      have each (c : Element) (h : c ∈ n.children) := (ih c h).1 (below c h)
      exact ⟨⟨open_, fun c h => (each c h).1⟩, own, fun c h => (each c h).2⟩
    · intro h
      obtain ⟨⟨open_, shallow⟩, own, below⟩ := h
      exact ⟨⟨open_, own⟩, fun c h => (ih c h).2 ⟨shallow c h, below c h⟩⟩
  | token t =>
    rw [refusals, List.append_eq_nil_iff, List.flatMap_eq_nil_iff, ownRefusals_eq_nil_iff,
      depth_add_token_le_iff, forall_part_token_iff]
    simp only [ownRefusals_eq_nil_iff]
    constructor
    · intro h
      obtain ⟨⟨open_, own⟩, below⟩ := h
      exact ⟨⟨open_, fun s h => (below s h).1⟩, own, fun s h => (below s h).2⟩
    · intro h
      obtain ⟨⟨open_, shallow⟩, own, below⟩ := h
      exact ⟨⟨open_, own⟩, fun s h => ⟨shallow s h, below s h⟩⟩
  | trivia t =>
    rw [refusals, ownRefusals_eq_nil_iff, depth_add_trivia_le_iff, forall_part_trivia_iff]

theorem eq_tooDeep_of_mem_ownRefusals {e : Element} (within : e.Within limits) {v : ReadError}
    (h : v ∈ e.ownRefusals limits depth) : v = .tooDeep limits.maxDepth.toNat := by
  have diagnostics := Limits.refusedBlock_eq_nil_iff.2 within.diagnostics
  have annotations := Limits.refusedBlock_eq_nil_iff.2 within.annotations
  have text : (e.ownText.map limits.refusedText).getD [] = [] := by
    cases own : e.ownText with
    | none => rfl
    | some s => exact Limits.refusedText_eq_nil_iff.2 (within.text s own)
  rw [ownRefusals, diagnostics, annotations, text, Limits.refusedDepth] at h
  simp only [List.append_nil] at h
  split at h
  · simpa using h
  · cases h

theorem eq_tooDeep_of_mem_refusals {e : Element}
    (within : ∀ d : Element, d.Part e → d.Within limits) {v : ReadError}
    (h : v ∈ e.refusals limits depth) : v = .tooDeep limits.maxDepth.toNat := by
  induction e using Element.induction generalizing depth with
  | node n ih =>
    obtain ⟨own, below⟩ := forall_part_node_iff.1 within
    rw [refusals, refusalsIn_eq] at h
    rcases List.mem_append.1 h with h | h
    · exact eq_tooDeep_of_mem_ownRefusals own h
    · obtain ⟨c, child, h⟩ := List.mem_flatMap.1 h
      exact ih c child (below c child) h
  | token t =>
    obtain ⟨own, below⟩ := forall_part_token_iff.1 within
    rw [refusals] at h
    rcases List.mem_append.1 h with h | h
    · exact eq_tooDeep_of_mem_ownRefusals own h
    · obtain ⟨s, part, h⟩ := List.mem_flatMap.1 h
      exact eq_tooDeep_of_mem_ownRefusals (below s part) h
  | trivia t =>
    rw [refusals] at h
    exact eq_tooDeep_of_mem_ownRefusals (forall_part_trivia_iff.1 within) h

end Element

end GreenTree
