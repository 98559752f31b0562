import GreenTree.Proofs.Replacing
import GreenTree.Proofs.Stream.Steps
import GreenTree.Stream.Limits
import Mathlib.Algebra.Order.BigOperators.Group.List

/-!
Building trees from the leaves up. A description says what an element is to be made from and nothing
of its width, so it may ask for more than a size can hold. Building it makes one record after the
other, the parts before the whole, and stops at the first that is too wide. The sums that the makers
check are partial ones; together they fail exactly if the exact width does not fit.
-/

namespace GreenTree

/-! ### Descriptions -/

namespace Blueprint

/-- The kind to blame if a description itself spans more than a size can hold. -/
def blamed (d : Blueprint) : List Kind := if maxSize < d.width then [d.kind] else []

/-- The kinds to blame for records that span more than a size can hold, in the order in which they
are finished. -/
def tooWide (d : Blueprint) : List Kind := d.records.flatMap blamed

theorem blamed_eq_nil {d : Blueprint} (fits : d.width ≤ maxSize) : d.blamed = [] := by
  rw [blamed, if_neg (by omega)]

theorem blamed_of_lt {d : Blueprint} (wide : maxSize < d.width) : d.blamed = [d.kind] := by
  rw [blamed, if_pos wide]

theorem tooWide_eq_nil {d : Blueprint} (fit : ∀ r ∈ d.records, r.width ≤ maxSize) :
    d.tooWide = [] := by
  rw [tooWide, List.flatMap_eq_nil_iff]
  intro r mem
  exact blamed_eq_nil (fit r mem)

theorem tooWide_node (kind : Kind) (missing : Bool) (children : List Blueprint)
    (overlay : Overlay) : (node kind missing children overlay).tooWide =
      children.flatMap tooWide ++ (node kind missing children overlay).blamed := by
  rw [tooWide, records_eq, List.flatMap_append, inner, List.flatMap_assoc, List.flatMap_singleton]
  rfl

theorem tooWide_token {kind : Kind} {missing : Bool} {text : String}
    {leading trailing : List TriviaBlueprint} {overlay : Overlay}
    (fit : ∀ t ∈ leading ++ trailing, t.width ≤ maxSize) :
    (token kind missing text leading trailing overlay).tooWide =
      (token kind missing text leading trailing overlay).blamed := by
  have bare : ((leading ++ trailing).map Blueprint.trivia).flatMap blamed = [] := by
    rw [List.flatMap_eq_nil_iff, List.forall_mem_map]
    intro t mem
    exact blamed_eq_nil (fit t mem)
  rw [tooWide, records_eq, List.flatMap_append, inner, bare, List.nil_append,
    List.flatMap_singleton]

theorem tooWide_eq_cons {d r : Blueprint} {before behind : List Blueprint}
    (split : d.records = before ++ r :: behind) (fit : ∀ s ∈ before, s.width ≤ maxSize)
    (wide : maxSize < r.width) : d.tooWide = r.kind :: behind.flatMap blamed := by
  have bare : before.flatMap blamed = [] := by
    rw [List.flatMap_eq_nil_iff]
    intro s mem
    exact blamed_eq_nil (fit s mem)
  rw [tooWide, split, List.flatMap_append, bare, List.flatMap_cons, blamed_of_lt wide]
  rfl

private theorem exists_of_flatMap_split {α β : Type} {f : α → List β} {as : List α}
    {before behind : List β} {b : β} (split : as.flatMap f = before ++ b :: behind) :
    ∃ a ∈ as, ∃ front back, f a = front ++ b :: back ∧ front <:+ before := by
  induction as generalizing before with
  | nil => simp at split
  | cons a as ih =>
    rw [List.flatMap_cons, List.append_eq_append_iff] at split
    rcases split with ⟨front, rfl, rest⟩ | ⟨back, first, rest⟩
    · obtain ⟨c, mem, front', back, found, suffix⟩ := ih rest
      exact ⟨c, List.mem_cons_of_mem a mem, front', back, found,
        suffix.trans (List.suffix_append _ _)⟩
    · cases back with
      | nil =>
        have begins : as.flatMap f = [] ++ b :: behind := rest.symm
        obtain ⟨c, mem, front', back, found, suffix⟩ := ih begins
        exact ⟨c, List.mem_cons_of_mem a mem, front', back, found, suffix.trans List.nil_suffix⟩
      | cons c back =>
        obtain ⟨rfl, -⟩ := List.cons.inj rest
        exact ⟨a, List.mem_cons_self, before, back, first, List.suffix_refl before⟩

theorem eq_or_inner_of_records {d r : Blueprint} {before behind : List Blueprint}
    (split : d.records = before ++ r :: behind) :
    (r = d ∧ before = d.inner) ∨ ∃ back, d.inner = before ++ r :: back := by
  rw [records_eq] at split
  rcases List.eq_nil_or_concat behind with rfl | ⟨back, last, rfl⟩
  · obtain ⟨same, own⟩ := List.append_inj' split rfl
    exact .inl ⟨(List.cons.inj own).1.symm, same.symm⟩
  · have whole : d.inner ++ [d] = (before ++ r :: back) ++ [last] := by
      rw [split, List.concat_eq_append, List.append_assoc, List.cons_append]
    exact .inr ⟨back, (List.append_inj' whole rfl).1⟩

theorem inner_suffix {d r : Blueprint} {before behind : List Blueprint}
    (split : d.records = before ++ r :: behind) : r.inner <:+ before := by
  induction d using Blueprint.induction generalizing before behind with
  | trivia t =>
    rcases eq_or_inner_of_records split with ⟨rfl, rfl⟩ | ⟨back, inside⟩
    · exact List.suffix_refl _
    · simp [inner] at inside
  | token kind missing text leading trailing overlay =>
    rcases eq_or_inner_of_records split with ⟨rfl, rfl⟩ | ⟨back, inside⟩
    · exact List.suffix_refl _
    · have mem : r ∈ (leading ++ trailing).map Blueprint.trivia := by
        rw [inner] at inside
        rw [inside]
        simp
      obtain ⟨t, -, rfl⟩ := List.mem_map.1 mem
      exact List.nil_suffix
  | node kind missing children overlay ih =>
    rcases eq_or_inner_of_records split with ⟨rfl, rfl⟩ | ⟨back, inside⟩
    · exact List.suffix_refl _
    · obtain ⟨c, mem, front, back, found, suffix⟩ := exists_of_flatMap_split inside
      exact (ih c mem found).trans suffix

theorem mem_records_self (d : Blueprint) : d ∈ d.records := by
  rw [records_eq]
  exact List.mem_append_right _ (List.mem_singleton_self d)

theorem width_le_of_child {kind : Kind} {missing : Bool} {children : List Blueprint}
    {overlay : Overlay} {c : Blueprint} (child : c ∈ children) :
    c.width ≤ (node kind missing children overlay).width := by
  rw [width, widths_eq]
  exact List.le_sum_of_mem (List.mem_map_of_mem child)

theorem width_le_of_mem_records {d r : Blueprint} (mem : r ∈ d.records) :
    r.width ≤ d.width := by
  induction d using Blueprint.induction with
  | trivia t =>
    obtain rfl := List.mem_singleton.1 mem
    exact le_rfl
  | token kind missing text leading trailing overlay =>
    rw [records_eq, inner, List.mem_append, List.mem_singleton] at mem
    rcases mem with mem | rfl
    · obtain ⟨t, inside, rfl⟩ := List.mem_map.1 mem
      have within : t.width ≤ ((leading ++ trailing).map TriviaBlueprint.width).sum :=
        List.le_sum_of_mem (List.mem_map_of_mem inside)
      rw [List.map_append, List.sum_append] at within
      simp only [width]
      omega
    · exact le_rfl
  | node kind missing children overlay ih =>
    rw [records_eq, inner, List.mem_append, List.mem_singleton] at mem
    rcases mem with mem | rfl
    · obtain ⟨c, child, below⟩ := List.mem_flatMap.1 mem
      exact (ih c child below).trans (width_le_of_child child)
    · exact le_rfl

/-- Either everything in a description fits, or there is a first record that does not. -/
theorem fits_or_first_wide (d : Blueprint) : (∀ r ∈ d.records, r.width ≤ maxSize) ∨
    ∃ before r behind, d.records = before ++ r :: behind ∧
      (∀ s ∈ before, s.width ≤ maxSize) ∧
      maxSize < r.width := by
  cases first : d.records.find? fun r => decide (maxSize < r.width) with
  | none =>
    rw [List.find?_eq_none] at first
    exact .inl fun r mem => by simpa using first r mem
  | some r =>
    obtain ⟨wide, before, behind, split, fit⟩ := List.find?_eq_some_iff_append.1 first
    exact .inr ⟨before, r, behind, split, fun s mem => by simpa using fit s mem,
      of_decide_eq_true wide⟩

theorem records_subset_of_mem {d r s q : Blueprint} {before behind : List Blueprint}
    (split : d.records = before ++ r :: behind) (mem : s ∈ before) (inside : q ∈ s.records) :
    q ∈ before := by
  obtain ⟨front, back, rfl⟩ := List.append_of_mem mem
  have own : d.records = front ++ s :: (back ++ r :: behind) := by
    rw [split, List.append_assoc, List.cons_append]
  rw [records_eq, List.mem_append, List.mem_singleton] at inside
  rcases inside with inside | rfl
  · exact List.mem_append_left _ ((inner_suffix own).subset inside)
  · exact mem

end Blueprint

/-! ### What can be described -/

/-- Whether what is attached is within limits, and its texts fit in memory. -/
structure Overlay.FitsIn (limits : Limits) (o : Overlay) : Prop where
  addressable : o.Addressable
  diagnostics : o.diagnostics ≠ [] →
    (OverlayBlock.encodeDiagnostics o.diagnostics).length ≤ limits.maxOverlayBytes.toNat
  annotations : o.annotations ≠ [] →
    (OverlayBlock.encodeAnnotations o.annotations).length ≤ limits.maxOverlayBytes.toNat

/-- Whether trivia are described within limits. -/
structure TriviaBlueprint.Described (limits : Limits) (t : TriviaBlueprint) : Prop where
  kind : t.kind.isTrivia = true
  text : t.text.utf8ByteSize ≤ limits.maxStringLength.toNat
  overlay : t.overlay.FitsIn limits

/-- Whether an element is described within limits: kinds are of the class that their place asks for,
texts and overlays are no longer than allowed, and lists no longer than can be counted. Only a token
without text and trivia can be missing, since nothing else can be made so. -/
inductive Blueprint.Described (limits : Limits) : Blueprint → Prop
  | trivia {t : TriviaBlueprint} : t.Described limits → Described limits (.trivia t)
  | token {kind : Kind} {missing : Bool} {text : String} {leading trailing : List TriviaBlueprint}
      {overlay : Overlay} : kind.isToken = true →
      text.utf8ByteSize ≤ limits.maxStringLength.toNat → overlay.FitsIn limits →
      leading.length < Bytes.capacity 4 → trailing.length < Bytes.capacity 4 →
      (∀ t ∈ leading ++ trailing, t.Described limits) →
      (missing = true → text = "" ∧ leading = [] ∧ trailing = []) →
      Described limits (.token kind missing text leading trailing overlay)
  | node {kind : Kind} {children : List Blueprint} {overlay : Overlay} : kind.isNode = true →
      overlay.FitsIn limits → children.length < Bytes.capacity 4 →
      (∀ c ∈ children, c.isTrivia = false) → (∀ c ∈ children, Described limits c) →
      Described limits (.node kind false children overlay)

variable {limits : Limits}

theorem Blueprint.Described.contains_children {d : Blueprint} (described : d.Described limits)
    (shape : d.isTrivia = false) : KindSet.children.contains d.kind = true := by
  rw [KindSet.contains_children, Bool.or_eq_true]
  cases described with
  | trivia own => cases shape
  | token isToken => exact .inl isToken
  | node isNode => exact .inr isNode

theorem TriviaBlueprint.Described.width_le {t : TriviaBlueprint} (described : t.Described limits) :
    t.width ≤ maxSize :=
  described.text.trans limits.maxStringLength_le

theorem Blueprint.Described.record {d r : Blueprint} (described : d.Described limits)
    (mem : r ∈ d.records) : r.Described limits := by
  induction described with
  | trivia own =>
    obtain rfl := List.mem_singleton.1 mem
    exact .trivia own
  | token isToken short attached few few' parts bare =>
    rcases List.mem_append.1 mem with mem | mem
    · obtain ⟨t, inside, rfl⟩ := List.mem_map.1 mem
      exact .trivia (parts t inside)
    · obtain rfl := List.mem_singleton.1 mem
      exact .token isToken short attached few few' parts bare
  | node isNode attached few shape parts ih =>
    rw [Blueprint.records_eq, Blueprint.inner] at mem
    rcases List.mem_append.1 mem with mem | mem
    · obtain ⟨c, child, mem⟩ := List.mem_flatMap.1 mem
      exact ih c child mem
    · obtain rfl := List.mem_singleton.1 mem
      exact .node isNode attached few shape parts

/-! ### Makers against exact widths -/

def MakesIfFits {α : Type} (maker : Nat → Except Fault α) (view : α → Prop) (d : Blueprint) :
    Prop :=
  ∀ cell, (d.width ≤ maxSize ∧ ∃ a, maker cell = .ok a ∧ view a) ∨
    (maxSize < d.width ∧ maker cell = .error (.tooWide d.kind))

theorem TriviaBlueprint.Described.makes {t : TriviaBlueprint} (described : t.Described limits) :
    MakesIfFits (fun cell => Trivia.make cell t.kind t.text t.overlay) (·.Realizes t)
      (.trivia t) := by
  intro cell
  have small := described.overlay.addressable
  have fits : t.text.utf8ByteSize ≤ maxSize := described.width_le
  have run := Trivia.make_eq_ok cell t.overlay described.kind fits
  obtain ⟨sound, -, same⟩ := (Trivia.make_eq_ok_iff small).1 run
  exact .inl ⟨described.width_le, _, run, sound, same⟩

theorem Token.makes {kind : Kind} {missing : Bool} {text : String} {ls ts : List Trivia}
    {leading trailing : List TriviaBlueprint} {overlay : Overlay} (small : overlay.Addressable)
    (isToken : kind.isToken = true) (short : text.utf8ByteSize ≤ maxSize)
    (allLeading : List.Forall₂ Trivia.Realizes ls leading)
    (allTrailing : List.Forall₂ Trivia.Realizes ts trailing) :
    MakesIfFits (fun cell => make cell kind missing text ls ts overlay)
      (fun t => (Element.token t).Realizes (.token kind missing text leading trailing overlay))
      (.token kind missing text leading trailing overlay) := by
  intro cell
  have realizes : (∀ t, make cell kind missing text ls ts overlay = .ok t → _) ∧ _ :=
    make_realizes small isToken allLeading allTrailing
  by_cases fits : (Blueprint.token kind missing text leading trailing overlay).width ≤ maxSize
  · obtain ⟨t, made⟩ := realizes.2 fits
    exact .inl ⟨fits, t, made, realizes.1 t made⟩
  · refine .inr ⟨by omega, ?_⟩
    cases made : make cell kind missing text ls ts overlay with
    | ok t => exact absurd (realizes.1 t made).width_le fits
    | error cause =>
      obtain rfl := eq_tooWide_of_make isToken short made
      exact made

theorem Node.makes {kind : Kind} {missing : Bool} {es : List Element} {children : List Blueprint}
    {overlay : Overlay} (small : overlay.Addressable) (isNode : kind.isNode = true)
    (shape : ∀ c ∈ children, c.isTrivia = false)
    (all : List.Forall₂ Element.Realizes es children) :
    MakesIfFits (fun cell => make cell kind missing es overlay)
      (fun n => (Element.node n).Realizes (.node kind missing children overlay))
      (.node kind missing children overlay) := by
  intro cell
  have realizes : (∀ n, make cell kind missing es overlay = .ok n → _) ∧ _ :=
    make_realizes small isNode shape all
  by_cases fits : (Blueprint.node kind missing children overlay).width ≤ maxSize
  · obtain ⟨n, made⟩ := realizes.2 fits
    exact .inl ⟨fits, n, made, realizes.1 n made⟩
  · refine .inr ⟨by omega, ?_⟩
    have shapes : ∀ e ∈ es, e.isTrivia = false := by
      obtain ⟨-, rfl⟩ := Element.realizes_all all
      simpa using shape
    cases made : make cell kind missing es overlay with
    | ok n => exact absurd (realizes.1 n made).width_le fits
    | error cause =>
      obtain rfl := eq_tooWide_of_make isNode shapes made
      exact made

/-! ### Building -/

abbrev Assembly := EStateM Fault Nat

def Assembly.make {α : Type} (maker : Nat → Except Fault α) : Assembly α := fun cell =>
  match maker cell with
  | .ok a => .ok a (cell + 1)
  | .error cause => .error cause cell

def Element.attach (e : Element) (overlay : Overlay) : Assembly Element := do
  let e ← Assembly.make fun cell => e.withDiagnostics cell overlay.diagnostics
  Assembly.make fun cell => e.withAnnotations cell overlay.annotations

def Token.assemble (kind : Kind) (missing : Bool) (text : String) (leading trailing : List Trivia) :
    Assembly Token :=
  Assembly.make fun cell =>
    if missing then Token.missing cell kind
    else Token.make cell kind false text leading trailing .empty

def TriviaBlueprint.assemble (t : TriviaBlueprint) : Assembly Trivia :=
  Assembly.make fun cell => Trivia.make cell t.kind t.text t.overlay

namespace Blueprint

mutual

def assemble : Blueprint → Assembly Element
  | .trivia t => do return .trivia (← t.assemble)
  | .token kind missing text leading trailing overlay => do
    let leading ← leading.mapM TriviaBlueprint.assemble
    let trailing ← trailing.mapM TriviaBlueprint.assemble
    let t ← Token.assemble kind missing text leading trailing
    (Element.token t).attach overlay
  | .node kind _ children overlay => do
    let children ← assembleAll children
    let n ← Assembly.make fun cell => Node.plain cell kind children
    (Element.node n).attach overlay

def assembleAll : List Blueprint → Assembly (List Element)
  | [] => return []
  | c :: cs => do
    let e ← assemble c
    let es ← assembleAll cs
    return e :: es

end

@[simp] theorem assembleAll_eq (cs : List Blueprint) : assembleAll cs = cs.mapM assemble := by
  induction cs with
  | nil => rfl
  | cons c cs ih => rw [assembleAll, ih, List.mapM_cons]

end Blueprint

/-- Whether a step of building gives what is wanted if nothing is too wide, and otherwise stops for
the first kind that is blamed. -/
def Assembles {α : Type} (step : Assembly α) (view : α → Prop) (wide : List Kind) : Prop :=
  ∀ cell, Ends (fun a _ => view a) (fun _ => True) (step cell) (wide.map Fault.tooWide)

namespace Assembles

variable {α β : Type} {step : Assembly α} {view : α → Prop} {wide wide' : List Kind}

theorem bind {next : α → Assembly β} {view' : β → Prop} (first : Assembles step view wide)
    (rest : ∀ a, view a → Assembles (next a) view' wide') :
    Assembles (step >>= next) view' (wide ++ wide') := by
  intro cell
  rw [List.map_append]
  exact (first cell).bind fun a cell means => rest a means cell

theorem pure {a : α} (means : view a) : Assembles (Pure.pure a) view [] := by
  intro cell
  exact ⟨a, cell, rfl, means⟩

theorem andThen {next : α → Assembly β} {view' : β → Prop} (first : Assembles step view [])
    (rest : ∀ a, view a → Assembles (next a) view' wide) :
    Assembles (step >>= next) view' wide :=
  first.bind rest

theorem finish {next : α → Assembly β} {view' : β → Prop} (first : Assembles step view wide)
    (rest : ∀ a, view a → Assembles (next a) view' []) :
    Assembles (step >>= next) view' wide := by
  have both := first.bind rest
  rw [List.append_nil] at both
  exact both

theorem make {maker : Nat → Except Fault α} {d : Blueprint} (makes : MakesIfFits maker view d) :
    Assembles (Assembly.make maker) view d.blamed := by
  intro cell
  rcases makes cell with ⟨fits, a, made, means⟩ | ⟨wide, refused⟩
  · rw [Blueprint.blamed_eq_nil fits]
    exact ⟨a, cell + 1, by simp only [Assembly.make, made], means⟩
  · rw [Blueprint.blamed_of_lt wide]
    exact ⟨cell, by simp only [Assembly.make, refused], trivial⟩

theorem of_exists {maker : Nat → Except Fault α}
    (makes : ∀ cell, ∃ a, maker cell = .ok a ∧ view a) :
    Assembles (Assembly.make maker) view [] := by
  intro cell
  obtain ⟨a, made, means⟩ := makes cell
  exact ⟨a, cell + 1, by simp only [Assembly.make, made], means⟩

theorem mapM {δ : Type} {step : δ → Assembly α} {view : α → δ → Prop}
    {wide : δ → List Kind} {ds : List δ}
    (each : ∀ d ∈ ds, Assembles (step d) (view · d) (wide d)) :
    Assembles (ds.mapM step) (List.Forall₂ view · ds) (ds.flatMap wide) := by
  induction ds with
  | nil => exact pure .nil
  | cons d ds ih =>
    obtain ⟨first, others⟩ := List.forall_mem_cons.1 each
    rw [List.mapM_cons]
    apply first.bind
    intro a means
    apply (ih others).finish
    intro as meant
    exact pure (.cons means meant)

end Assembles

def Blueprint.withOverlay : Blueprint → Overlay → Blueprint
  | .trivia t, overlay => .trivia { t with overlay }
  | .token kind missing text leading trailing _, overlay =>
    .token kind missing text leading trailing overlay
  | .node kind missing children _, overlay => .node kind missing children overlay

theorem Element.Reattached.blueprint {overlay : Overlay} {e e' : Element}
    (reattached : Reattached overlay e e') : e'.blueprint = e.blueprint.withOverlay overlay := by
  cases reattached with
  | node kind missing attached children =>
    simp only [Element.blueprint, Blueprint.withOverlay, kind, missing, attached, children]
  | token kind missing attached text leading trailing =>
    simp only [Element.blueprint, Blueprint.withOverlay, kind, missing, attached, text, leading,
      trailing]
  | trivia kind attached text =>
    simp only [Element.blueprint, Blueprint.withOverlay, Trivia.blueprint, kind, attached, text]

theorem Element.Realizes.exists_withOverlay {e : Element} {d : Blueprint} (means : e.Realizes d)
    {overlay : Overlay} (small : overlay.Addressable) (cell : Nat) :
    ∃ e', e.withOverlay cell overlay = .ok e' ∧ e'.overlay = overlay ∧
      e'.Realizes (d.withOverlay overlay) := by
  obtain ⟨sound, rfl⟩ := means
  have made := sound.withOverlay_eq cell overlay
  have reattached := reattached_of_withOverlay made
  exact ⟨_, made, reattached.overlay_eq, sound.withOverlay small made, reattached.blueprint⟩

theorem Element.Realizes.attach {e : Element} {d : Blueprint} (means : e.Realizes d)
    {overlay : Overlay} (small : overlay.Addressable) :
    Assembles (e.attach overlay) (·.Realizes (d.withOverlay overlay)) [] := by
  have first : Overlay.Addressable { e.overlay with diagnostics := overlay.diagnostics } :=
    means.1.overlay.withDiagnostics
      (Overlay.addressable_iff.2 ⟨(Overlay.addressable_iff.1 small).1, by simp⟩)
  have diagnosed : Assembles (Assembly.make fun cell => e.withDiagnostics cell overlay.diagnostics)
      (fun e' => e'.overlay.diagnostics = overlay.diagnostics ∧
        ∃ o, e'.Realizes (d.withOverlay o)) [] := by
    apply Assembles.of_exists
    intro cell
    obtain ⟨e', run, attached, means'⟩ := means.exists_withOverlay first cell
    exact ⟨e', run, by rw [attached], _, means'⟩
  apply diagnosed.andThen
  rintro e' ⟨diagnostics, o, means'⟩
  apply Assembles.of_exists
  intro cell
  have whole : { e'.overlay with annotations := overlay.annotations } = overlay := by
    show Overlay.mk e'.overlay.diagnostics overlay.annotations = overlay
    rw [diagnostics]
  obtain ⟨e'', run, -, means''⟩ := means'.exists_withOverlay small cell
  have same : (d.withOverlay o).withOverlay overlay = d.withOverlay overlay := by
    cases d <;> rfl
  rw [same] at means''
  refine ⟨e'', ?_, means''⟩
  rw [withAnnotations, whole]
  exact run

theorem TriviaBlueprint.Described.assembles_all {ts : List TriviaBlueprint}
    (described : ∀ t ∈ ts, t.Described limits) :
    Assembles (ts.mapM TriviaBlueprint.assemble) (List.Forall₂ Trivia.Realizes · ts) [] := by
  have each : ∀ t ∈ ts, Assembles t.assemble (·.Realizes t) (Blueprint.trivia t).blamed :=
    fun t mem => .make (described t mem).makes
  have all := Assembles.mapM each
  have fit : ts.flatMap (fun t => (Blueprint.trivia t).blamed) = [] := by
    rw [List.flatMap_eq_nil_iff]
    intro t mem
    exact Blueprint.blamed_eq_nil (described t mem).width_le
  rw [fit] at all
  exact all

/-- Building gives what is described unless something in it is too wide, and then stops at the first
that is. -/
theorem Blueprint.Described.assembles {d : Blueprint} (described : d.Described limits) :
    Assembles d.assemble (·.Realizes d) d.tooWide := by
  induction described with
  | @trivia t own =>
    rw [assemble, tooWide, records, List.flatMap_singleton]
    apply (Assembles.make own.makes).finish
    intro s means
    exact .pure means.element
  | @token kind missing text leading trailing overlay isToken short attached few few' parts bare =>
    obtain ⟨front, back⟩ := List.forall_mem_append.1 parts
    have fit : ∀ t ∈ leading ++ trailing, t.width ≤ maxSize :=
      fun t mem => (parts t mem).width_le
    rw [assemble, tooWide_token fit]
    apply (TriviaBlueprint.Described.assembles_all front).andThen
    intro ls allLeading
    apply (TriviaBlueprint.Described.assembles_all back).andThen
    intro ts allTrailing
    have maker : Token.assemble kind missing text ls ts = Assembly.make fun cell =>
        Token.make cell kind missing text ls ts .empty := by
      cases missing with
      | false => rfl
      | true =>
        obtain ⟨rfl, rfl, rfl⟩ := bare rfl
        cases allLeading
        cases allTrailing
        rfl
    rw [maker]
    apply (Assembles.make (Token.makes Overlay.addressable_empty isToken
      (short.trans limits.maxStringLength_le) allLeading allTrailing)).finish
    intro t means
    exact means.attach attached.addressable
  | @node kind children overlay isNode attached few shape parts ih =>
    rw [assemble, assembleAll_eq, tooWide_node]
    apply (Assembles.mapM ih).bind
    intro es all
    apply (Assembles.make (Node.makes Overlay.addressable_empty isNode shape all)).finish
    intro n means
    exact means.attach attached.addressable

theorem Blueprint.Described.exists_assemble {d : Blueprint} (described : d.Described limits)
    (fit : ∀ r ∈ d.records, r.width ≤ maxSize) (cell : Nat) :
    ∃ e last, d.assemble cell = .ok e last ∧ e.Realizes d := by
  have built := described.assembles cell
  rw [Blueprint.tooWide_eq_nil fit] at built
  exact built

/-- Building stops at the first record that is too wide. -/
theorem Blueprint.Described.assemble_overflows {d r : Blueprint} {before behind : List Blueprint}
    (described : d.Described limits) (split : d.records = before ++ r :: behind)
    (fit : ∀ s ∈ before, s.width ≤ maxSize) (wide : maxSize < r.width) (cell : Nat) :
    ∃ last, d.assemble cell = .error (.tooWide r.kind) last := by
  have stopped := described.assembles cell
  rw [Blueprint.tooWide_eq_cons split fit wide] at stopped
  obtain ⟨last, run, -⟩ := stopped
  exact ⟨last, run⟩

end GreenTree
