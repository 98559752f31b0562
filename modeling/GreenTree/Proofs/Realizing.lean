import GreenTree.Proofs.Parts

/-!
What a blueprint means and what is made of it. A sound element is the one that its blueprint
denotes, but for its cells, and from sound parts the makers make what is meant exactly if its width
is a size.
-/

namespace GreenTree

theorem Trivia.Sound.width_blueprints {ts : List Trivia} (sound : ∀ t ∈ ts, t.Sound) :
    (ts.map blueprint).map TriviaBlueprint.width = ts.map fun t => t.head.fullWidth := by
  rw [List.map_map]
  exact List.map_congr_left fun t h => (sound t h).fullWidth.symm

theorem Element.Sound.width_blueprint {e : Element} (sound : e.Sound) :
    e.blueprint.width = e.fullWidth := by
  induction sound with
  | @node n own parts ih =>
    have same : n.children.map (Blueprint.width ∘ blueprint) = n.children.map fullWidth :=
      List.map_congr_left ih
    simp only [blueprint, Blueprint.width, blueprints_eq, Blueprint.widths_eq, List.map_map, same]
    exact own.fullWidth.symm
  | @token t own =>
    simp only [blueprint, Blueprint.width, Trivia.Sound.width_blueprints own.leading,
      Trivia.Sound.width_blueprints own.trailing]
    rw [fullWidth, head, own.fullWidth, own.leadingWidth, own.trailingWidth]
  | trivia own => exact own.fullWidth.symm

theorem Element.Sound.head_eq {e : Element} (sound : e.Sound) :
    e.head = ⟨e.blueprint.kind, e.blueprint.summary, e.blueprint.width,
      e.blueprint.overlay⟩ := by
  rw [sound.summary_blueprint, sound.width_blueprint, blueprint_kind, blueprint_overlay]
  rfl

theorem Trivia.Sound.content_eq {t : Trivia} (sound : t.Sound) :
    t.content = t.blueprint.trivia := by
  have head : t.head = _ := Element.Sound.head_eq (.trivia sound)
  rw [content, head]
  rfl

theorem Trivia.Sound.map_content_eq {ts : List Trivia} (sound : ∀ t ∈ ts, t.Sound) :
    ts.map Trivia.content = (ts.map Trivia.blueprint).map TriviaBlueprint.trivia := by
  rw [List.map_map]
  exact List.map_congr_left fun t ht => (sound t ht).content_eq

namespace Element

theorem Sound.content_eq {e : Element} (sound : e.Sound) : e.content = e.blueprint.element := by
  induction sound with
  | @node n own parts ih =>
    have head : n.head = _ := head_eq (.node own parts)
    have children : n.children.map content = (n.children.map blueprint).map Blueprint.element := by
      rw [List.map_map]
      exact List.map_congr_left ih
    simp only [content, contents_eq, children, blueprint, blueprints_eq, Blueprint.element,
      Blueprint.elements_eq]
    rw [head, blueprint, blueprints_eq]
    rfl
  | @token t own =>
    have head : t.head = _ := head_eq (.token own)
    simp only [content, Token.content, blueprint, Blueprint.element,
      Trivia.Sound.map_content_eq own.leading, Trivia.Sound.map_content_eq own.trailing,
      Trivia.Sound.width_blueprints own.leading, Trivia.Sound.width_blueprints own.trailing,
      ← own.leadingWidth, ← own.trailingWidth]
    rw [head, blueprint]
    rfl
  | trivia own =>
    simp only [content, blueprint, Blueprint.element, own.content_eq]

/-- Sound elements that were made from the same are the same but for the cells. -/
theorem Sound.verbatim {a b : Element} (soundA : a.Sound) (soundB : b.Sound)
    (same : a.blueprint = b.blueprint) : a.Verbatim b := by
  rw [Verbatim, soundA.content_eq, soundB.content_eq, same]

end Element

def Trivia.Realizes (t : Trivia) (d : TriviaBlueprint) : Prop := t.Sound ∧ t.blueprint = d

/-- Whether an element is sound and was made from what is meant. -/
def Element.Realizes (e : Element) (d : Blueprint) : Prop := e.Sound ∧ e.blueprint = d

theorem Trivia.Realizes.element {t : Trivia} {d : TriviaBlueprint} (means : t.Realizes d) :
    (Element.trivia t).Realizes (.trivia d) :=
  ⟨.trivia means.1, congrArg Blueprint.trivia means.2⟩

theorem Trivia.Realizes.width_le {t : Trivia} {d : TriviaBlueprint} (means : t.Realizes d) :
    d.width ≤ maxSize := by
  obtain ⟨sound, rfl⟩ := means
  exact Nat.le_trans (Nat.le_of_eq sound.fullWidth.symm) sound.fits

theorem Trivia.realizes_all {ts : List Trivia} {ds : List TriviaBlueprint}
    (all : List.Forall₂ Realizes ts ds) : (∀ t ∈ ts, t.Sound) ∧ ts.map blueprint = ds := by
  induction all with
  | nil => simp
  | cons head _ ih =>
    obtain ⟨sound, rfl⟩ := head
    exact ⟨List.forall_mem_cons.2 ⟨sound, ih.1⟩, by rw [List.map_cons, ih.2]⟩

theorem Element.realizes_all {es : List Element} {ds : List Blueprint}
    (all : List.Forall₂ Realizes es ds) : (∀ e ∈ es, e.Sound) ∧ es.map blueprint = ds := by
  induction all with
  | nil => simp
  | cons head _ ih =>
    obtain ⟨sound, rfl⟩ := head
    exact ⟨List.forall_mem_cons.2 ⟨sound, ih.1⟩, by rw [List.map_cons, ih.2]⟩

theorem Element.Realizes.width_le {e : Element} {d : Blueprint} (means : e.Realizes d) :
    d.width ≤ maxSize := by
  obtain ⟨sound, rfl⟩ := means
  exact sound.width_blueprint ▸ sound.fits

theorem Token.make_realizes {cell : Nat} {kind : Kind} {missing : Bool} {text : String}
    {ls ts : List Trivia} {leading trailing : List TriviaBlueprint} {overlay : Overlay}
    (small : overlay.Addressable) (isToken : kind.isToken = true)
    (allLeading : List.Forall₂ Trivia.Realizes ls leading)
    (allTrailing : List.Forall₂ Trivia.Realizes ts trailing) :
    (∀ t, Token.make cell kind missing text ls ts overlay = .ok t →
      (Element.token t).Realizes (.token kind missing text leading trailing overlay)) ∧
    ((Blueprint.token kind missing text leading trailing overlay).width ≤ maxSize →
      ∃ t, Token.make cell kind missing text ls ts overlay = .ok t) := by
  obtain ⟨soundLeading, rfl⟩ := Trivia.realizes_all allLeading
  obtain ⟨soundTrailing, rfl⟩ := Trivia.realizes_all allTrailing
  constructor
  · intro t made
    obtain ⟨own, -, sameKind, sameMissing, rfl, rfl, rfl, rfl⟩ :=
      (Token.make_eq_ok_iff small soundLeading soundTrailing).1 made
    exact ⟨.token own, by rw [Element.blueprint, sameKind, sameMissing]⟩
  · intro fits
    simp only [Blueprint.width, Trivia.Sound.width_blueprints soundLeading,
      Trivia.Sound.width_blueprints soundTrailing] at fits
    exact ⟨_, Token.make_eq_ok cell missing overlay isToken rfl rfl rfl fits⟩

theorem Node.make_realizes {cell : Nat} {kind : Kind} {missing : Bool} {es : List Element}
    {children : List Blueprint} {overlay : Overlay} (small : overlay.Addressable)
    (isNode : kind.isNode = true) (shape : ∀ c ∈ children, c.isTrivia = false)
    (all : List.Forall₂ Element.Realizes es children) :
    (∀ n, Node.make cell kind missing es overlay = .ok n →
      (Element.node n).Realizes (.node kind missing children overlay)) ∧
    ((Blueprint.node kind missing children overlay).width ≤ maxSize →
      ∃ n, Node.make cell kind missing es overlay = .ok n) := by
  obtain ⟨sound, rfl⟩ := Element.realizes_all all
  constructor
  · intro n made
    obtain ⟨own, -, sameKind, sameMissing, rfl, rfl⟩ := (Node.make_eq_ok_iff small).1 made
    refine ⟨.node own sound, ?_⟩
    rw [Element.blueprint, Element.blueprints_eq, sameKind, sameMissing]
  · intro fits
    have noTrivia : ∀ e ∈ es, e.isTrivia = false := by simpa using shape
    have same : (es.map Element.blueprint).map Blueprint.width = es.map Element.fullWidth := by
      rw [List.map_map]
      exact List.map_congr_left fun e h => (sound e h).width_blueprint
    simp only [Blueprint.width, Blueprint.widths_eq, same] at fits
    exact ⟨_, Node.make_eq_ok cell missing overlay isNode noTrivia rfl fits⟩

end GreenTree
