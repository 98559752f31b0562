import GreenTree.Proofs.Replacing

/-!
What missing elements span. A caller can make only empty tokens missing, and no operation makes a
missing element wider or another one missing. Reading is different: it takes over which elements are
missing and adds up their widths from what they hold. So missing elements span nothing as long as
those that are read span nothing and have no children.
-/

namespace GreenTree

namespace Element

/-- The elements that a caller can make, and parts of them. Of what comes from elsewhere, such as
what is read from streams, only some is admitted. -/
inductive Made (admitted : Element → Prop) : Element → Prop
  | admitted {e : Element} : e.Obtained → admitted e → Made admitted e
  | trivia {cell : Nat} {kind : Kind} {text : String} {overlay : Overlay} {t : Trivia} :
      overlay.Addressable → Trivia.make cell kind text overlay = .ok t →
      Made admitted (.trivia t)
  | interned {cell : Nat} {i i' : Interner} {kind : Kind} {text : String} {t : Trivia} :
      i.Reached → i.intern cell kind text = .ok (t, i') → Made admitted (.trivia t)
  | token {cell : Nat} {kind : Kind} {text : String} {leading trailing : List Trivia} {t : Token} :
      (∀ s ∈ leading, Made admitted (.trivia s)) →
      (∀ s ∈ trailing, Made admitted (.trivia s)) →
      Token.make cell kind false text leading trailing .empty = .ok t → Made admitted (.token t)
  | missing {cell : Nat} {kind : Kind} {t : Token} :
      Token.missing cell kind = .ok t → Made admitted (.token t)
  | node {cell : Nat} {kind : Kind} {children : List Element} {n : Node Element} :
      (∀ c ∈ children, Made admitted c) → Node.plain cell kind children = .ok n →
      Made admitted (.node n)
  | withDiagnostics {cell : Nat} {e e' : Element} {diagnostics : List Diagnostic} :
      Made admitted e → Overlay.Addressable { diagnostics } →
      e.withDiagnostics cell diagnostics = .ok e' → Made admitted e'
  | withAnnotations {cell : Nat} {e e' : Element} {annotations : List Annotation} :
      Made admitted e → Overlay.Addressable { annotations } →
      e.withAnnotations cell annotations = .ok e' → Made admitted e'
  | replaceChild {cell index : Nat} {n n' : Node Element} {child : Element} :
      Made admitted (.node n) → Made admitted child →
      n.replaceChild cell index child = .ok n' →
      Made admitted (.node n')
  | part {d e : Element} : d.Part e → Made admitted e → Made admitted d

variable {admitted : Element → Prop} {e e' : Element}

theorem Made.obtained (made : Made admitted e) : e.Obtained := by
  induction made with
  | admitted obtained _ => exact obtained
  | trivia small built => exact .trivia small built
  | interned reached run => exact .interned reached run
  | token _ _ built leading trailing => exact .token leading trailing built
  | missing built => exact .missing built
  | node _ built children => exact .node children built
  | withDiagnostics _ small built ih => exact .withDiagnostics ih small built
  | withAnnotations _ small built ih => exact .withAnnotations ih small built
  | replaceChild _ _ built ih ihChild => exact .replaceChild ih ihChild built
  | part part _ ih => exact .part part ih

/-- Whether an element spans nothing and has no children that could be replaced by wider ones. -/
structure Hollow (e : Element) : Prop where
  fullWidth : e.fullWidth = 0
  childless : e.children = []

/-- Whether everything that is missing in an element is hollow. -/
def MissingHollow (e : Element) : Prop :=
  ∀ d : Element, d.Part e → d.summary.missing = true → d.Hollow

theorem missingHollow_trivia {t : Trivia} (sound : t.Sound) : (Element.trivia t).MissingHollow := by
  intro d part missing
  rw [part_trivia_iff] at part
  subst part
  rw [(Element.Sound.trivia sound).trivia_missing rfl] at missing
  cases missing

theorem missingHollow_token_iff {t : Token} (sound : t.Sound) : (Element.token t).MissingHollow ↔
    (t.head.summary.missing = true → t.head.fullWidth = 0) := by
  constructor
  · intro hollow missing
    exact (hollow _ (.self _) missing).fullWidth
  · intro own d part missing
    rcases part_token_iff.1 part with rfl | ⟨s, mem, rfl⟩
    · exact ⟨own missing, rfl⟩
    · have soundS : s.Sound := by
        rcases List.mem_append.1 mem with mem | mem
        · exact sound.leading s mem
        · exact sound.trailing s mem
      exact missingHollow_trivia soundS _ (.self _) missing

theorem missingHollow_node_iff {n : Node Element} : (Element.node n).MissingHollow ↔
    (n.head.summary.missing = true → (Element.node n).Hollow) ∧
      ∀ c ∈ n.children, c.MissingHollow := by
  constructor
  · intro hollow
    exact ⟨hollow _ (.self _), fun c mem d part => hollow d (.child mem part)⟩
  · rintro ⟨own, parts⟩ d part missing
    rcases part_node_iff.1 part with rfl | ⟨c, mem, below⟩
    · exact own missing
    · exact parts c mem d below missing

theorem MissingHollow.withOverlay (hollow : e.MissingHollow) (sound : e.Sound) {cell : Nat}
    {overlay : Overlay} (small : overlay.Addressable) (made : e.withOverlay cell overlay = .ok e') :
    e'.MissingHollow := by
  have sound' := sound.withOverlay small made
  have reattached := reattached_of_withOverlay made
  have width := sound.fullWidth_eq_of_blueprint sound' reattached.blueprint_erased
  cases reattached with
  | node _ missing _ children =>
    obtain ⟨own, parts⟩ := missingHollow_node_iff.1 hollow
    refine missingHollow_node_iff.2 ⟨fun isMissing => ?_, by rwa [children]⟩
    have old := own (missing.symm.trans isMissing)
    exact ⟨width.symm.trans old.fullWidth, children.trans old.childless⟩
  | token _ missing _ _ _ _ =>
    have own := (missingHollow_token_iff (sound_token_iff.1 sound)).1 hollow
    refine (missingHollow_token_iff (sound_token_iff.1 sound')).2 fun isMissing => ?_
    exact width.symm.trans (own (missing.symm.trans isMissing))
  | trivia => exact missingHollow_trivia (sound_trivia_iff.1 sound')

theorem MissingHollow.replaceChild {n n' : Node Element} {child : Element}
    (hollow : (Element.node n).MissingHollow) (hollowChild : child.MissingHollow) {cell index : Nat}
    (made : n.replaceChild cell index child = .ok n') : (Element.node n').MissingHollow := by
  have remade := Node.replaceChild_remade made
  obtain ⟨own, parts⟩ := missingHollow_node_iff.1 hollow
  refine missingHollow_node_iff.2 ⟨fun isMissing => ?_, ?_⟩
  · have childless : n.children = [] := (own (remade.missing.symm.trans isMissing)).childless
    simp [Node.replaceChild, childless] at made
  · rw [remade.children]
    exact forall_mem_set parts hollowChild index

theorem Made.missingHollow (made : Made admitted e)
    (only : ∀ e : Element, e.Obtained → admitted e → e.MissingHollow) : e.MissingHollow := by
  induction made with
  | admitted obtained known => exact only _ obtained known
  | trivia small built => exact missingHollow_trivia ((Trivia.make_eq_ok_iff small).1 built).1
  | interned reached run => exact missingHollow_trivia (reached.sound.intern run).1.1
  | token leading trailing built _ _ =>
    have sound := (Obtained.token (fun s mem => (leading s mem).obtained)
      (fun s mem => (trailing s mem).obtained) built).sound
    refine (missingHollow_token_iff (sound_token_iff.1 sound)).2 fun isMissing => ?_
    rw [Token.make_missing built] at isMissing
    cases isMissing
  | missing built =>
    have bare := (Token.make_eq_ok_iff Overlay.addressable_empty (by simp) (by simp)).1 built
    obtain ⟨sound, -, -, -, text, leading, trailing, -⟩ := bare
    refine (missingHollow_token_iff sound).2 fun _ => ?_
    rw [sound.fullWidth, sound.leadingWidth, sound.trailingWidth, text, leading, trailing]
    rfl
  | node _ built children =>
    obtain ⟨width, rfl⟩ := Node.eq_of_make built
    refine missingHollow_node_iff.2 ⟨fun isMissing => ?_, children⟩
    rw [Node.make_missing built] at isMissing
    cases isMissing
  | withDiagnostics before small built ih =>
    have sound := before.obtained.sound
    exact ih.withOverlay sound (sound.overlay.withDiagnostics small) built
  | withAnnotations before small built ih =>
    have sound := before.obtained.sound
    exact ih.withOverlay sound (sound.overlay.withAnnotations small) built
  | replaceChild _ _ built ih ihChild => exact ih.replaceChild ihChild built
  | part part _ ih => exact fun d below => ih d (below.trans part)

/-- A missing node that spans nothing but has a child can be given a wide one. -/
theorem exists_wide_of_child {n : Node Element} (sound : (Element.node n).Sound)
    (child : n.children ≠ []) (empty : n.head.fullWidth = 0) : ∃ (t : Token)
    (n' : Node Element),
      Token.plain 0 .ident "x" = .ok t ∧ n.replaceChild 0 0 (.token t) = .ok n' ∧
        n'.head.summary.missing = n.head.summary.missing ∧ 0 < n'.head.fullWidth := by
  let t : Token := ⟨0, ⟨.ident, {}, 1, .empty⟩, "x", [], [], 0, 0⟩
  obtain ⟨own, -⟩ := sound_node_iff.1 sound
  obtain ⟨c, cs, some⟩ := List.exists_cons_of_ne_nil child
  have widths : ((n.children.set 0 (.token t)).map fullWidth).sum = 1 := by
    have total := own.fullWidth
    rw [empty, some, List.map_cons, List.sum_cons] at total
    have one : (Element.token t).fullWidth = 1 := rfl
    rw [some, List.set_cons_zero, List.map_cons, List.sum_cons, one]
    omega
  have shape : (Element.token t).isTrivia = false := rfl
  obtain ⟨n', made⟩ := own.exists_replaceChild (List.length_pos_iff.2 child) shape
    (widths ▸ by decide) 0
  have remade := Node.replaceChild_remade made
  have plain : Token.plain 0 .ident "x" = .ok t := rfl
  refine ⟨t, n', plain, made, remade.missing, ?_⟩
  have soundT : (Element.token t).Sound := (Obtained.token (by simp) (by simp) plain).sound
  have own' := (sound_node_iff.1 (sound.replaceChild soundT made)).1
  rw [own'.fullWidth, remade.children, widths]
  exact Nat.one_pos

/-- Nothing missing spans any text, whatever a caller makes, exactly if what is admitted from
elsewhere has only hollow elements that are missing. So nothing does if nothing is admitted. -/
theorem missing_empty_iff (admitted : Element → Prop) :
    (∀ e, Made admitted e → ∀ d : Element, d.Part e → d.summary.missing = true →
      d.fullWidth = 0) ↔
        ∀ e : Element, e.Obtained → admitted e → e.MissingHollow := by
  constructor
  · intro empty e obtained known d part missing
    have made : Made admitted d := .part part (.admitted obtained known)
    have width := empty d made d (.self d) missing
    refine ⟨width, ?_⟩
    cases d with
    | node n =>
      by_contra child
      obtain ⟨t, n', plain, built, same, wide⟩ :=
        exists_wide_of_child made.obtained.sound child width
      have makeT : Made admitted (.token t) := .token (by simp) (by simp) plain
      have none := empty _ (.replaceChild made makeT built) _ (.self _) (same.trans missing)
      exact absurd none (Nat.ne_of_gt wide)
    | token t => rfl
    | trivia t => rfl
  · intro only e made d part missing
    exact (made.missingHollow only d part missing).fullWidth

/-- The stream of a name that is said to be missing. -/
def missingName : List UInt8 :=
  streamMagic ++ [1, 25, 0, 1, 0, 0, 0, 0, 1, 0, 0, 0, 120, 0, 0, 0, 0, 0, 0, 0, 0]

/-- What is read can be missing and span text. -/
theorem missing_not_always_empty : ¬ ∀ (bytes : List UInt8) (e : Element),
    ofBytes 0 bytes = .ok e →
    ∀ d : Element, d.Part e → d.summary.missing = true → d.fullWidth = 0 := by
  intro empty
  have wide : (ofBytes 0 missingName).toOption.map (fun e => (e.summary.missing, e.fullWidth)) =
      some (true, 1) := by decide +kernel
  cases read : ofBytes 0 missingName with
  | error failure =>
    rw [read] at wide
    cases wide
  | ok e =>
    rw [read] at wide
    obtain ⟨missing, width⟩ := Prod.mk.inj (Option.some.inj wide)
    have none := empty _ e read e (.self e) missing
    rw [width] at none
    cases none

end Element

end GreenTree
