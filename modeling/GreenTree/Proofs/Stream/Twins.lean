import GreenTree.Proofs.Realizing
import GreenTree.Proofs.Stream.Openings

/-!
Sessions at the same place. Two sessions with the same bytes left, the same texts known and as many
records open go on alike, whatever they have begun, made and shared before: each call ends in the
same way in both, and what it gives is the same but for the cells.
-/

namespace GreenTree

theorem Trivia.totalWidth?_content (ts : List Trivia) :
    totalWidth? (ts.map content) = totalWidth? ts := by
  unfold totalWidth?
  rw [List.map_map]
  rfl

theorem Node.totalWidth?_content (cs : List Element) :
    totalWidth? (cs.map Element.content) = totalWidth? cs := by
  unfold totalWidth?
  rw [List.map_map]
  exact congrArg sumSizes? (List.map_congr_left fun c _ => c.content_fullWidth)

theorem Trivia.content_make (cell : Nat) (kind : Kind) (text : String) (overlay : Overlay) :
    content <$> make cell kind text overlay = make 0 kind text overlay := by
  unfold make
  split
  · cases textSize text <;> rfl
  · rfl

theorem Token.content_make (cell : Nat) (kind : Kind) (missing : Bool) (text : String)
    (leading trailing : List Trivia) (overlay : Overlay) :
    content <$> make cell kind missing text leading trailing overlay =
      make 0 kind missing text (leading.map Trivia.content)
      (trailing.map Trivia.content) overlay := by
  unfold make ofParts
  rw [Trivia.totalWidth?_content, Trivia.totalWidth?_content, ← List.map_append,
    Trivia.inherited_content]
  split
  · simp only [map_bind]
    rfl
  · rfl

theorem Element.isTrivia_content (e : Element) : e.content.isTrivia = e.isTrivia := by
  cases e <;> rfl

def Node.content (n : Node Element) : Node Element :=
  ⟨0, n.head, n.children.map Element.content⟩

theorem Element.content_node (n : Node Element) : (Element.node n).content = .node n.content := by
  rw [Element.content, Element.contents_eq]
  rfl

theorem Node.content_make (cell : Nat) (kind : Kind) (missing : Bool) (children : List Element)
    (overlay : Overlay) :
    content <$> make cell kind missing children overlay =
      make 0 kind missing (children.map Element.content) overlay := by
  have shapes : (children.map Element.content).any Element.isTrivia =
      children.any Element.isTrivia := by
    rw [List.any_map]
    exact congrArg _ (funext Element.isTrivia_content)
  unfold make ofParts
  rw [Node.totalWidth?_content, Node.inherited_content, shapes]
  split
  · split
    · rfl
    · simp only [map_bind]
      rfl
  · rfl

theorem Interner.ask_alike {i j : Interner} (sound : i.Sound) (sound' : j.Sound) (cell cell' : Nat)
    (kind : Kind) (text : String) :
    (∃ t i' u j', ask cell kind text i = .ok t i' ∧ ask cell' kind text j = .ok u j' ∧
      t.content = u.content ∧ i'.Sound ∧ j'.Sound) ∨
    ∃ cause i' j', ask cell kind text i = .error cause i' ∧
      ask cell' kind text j = .error cause j' := by
  cases asked : ask cell kind text i with
  | ok t i' =>
    obtain ⟨⟨own, meant⟩, left⟩ := sound.ask asked
    obtain ⟨isTrivia, fits⟩ : kind.isTrivia = true ∧ text.utf8ByteSize ≤ maxSize := by
      obtain ⟨rfl, rfl, -⟩ := TriviaBlueprint.mk.inj meant
      exact ⟨own.kind, own.fullWidth ▸ own.fits⟩
    obtain ⟨u, j', asked'⟩ := j.exists_ask cell' isTrivia fits
    obtain ⟨⟨own', meant'⟩, right⟩ := sound'.ask asked'
    refine .inl ⟨t, i', u, j', rfl, asked', ?_, left, right⟩
    rw [own.content_eq, own'.content_eq, meant, meant']
  | error cause i' =>
    obtain ⟨-, unmade, -⟩ := ask_eq_error_iff.1 asked
    cases asked' : ask cell' kind text j with
    | ok u j' =>
      obtain ⟨⟨own, meant⟩, -⟩ := sound'.ask asked'
      obtain ⟨rfl, rfl, -⟩ := TriviaBlueprint.mk.inj meant
      exact absurd unmade (Trivia.make_ne_error own.kind (own.fullWidth ▸ own.fits) cause)
    | error cause' j' =>
      obtain ⟨-, unmade', -⟩ := ask_eq_error_iff.1 asked'
      have same := (Trivia.content_make cell kind text .empty).trans
        (Trivia.content_make cell' kind text .empty).symm
      rw [unmade, unmade'] at same
      obtain rfl := Except.error.inj same
      exact .inr ⟨cause, i', j', rfl, rfl⟩

namespace Reader

variable {α β γ δ : Type} {limits : Limits} {depth : Nat}

/-- Two sessions at the same place, each of which shares only sound trivia. -/
structure Twins (depth : Nat) (r s : Reader) : Prop where
  rest : s.rest = r.rest
  strings : s.strings = r.strings
  left : r.Ready depth
  right : s.Ready depth

namespace Twins

variable {r s : Reader}

theorem symm (twins : Twins depth r s) : Twins depth s r :=
  ⟨twins.rest.symm, twins.strings.symm, twins.right, twins.left⟩

theorem moved (twins : Twins depth r s) (rest : List UInt8) :
    Twins depth { r with rest } { s with rest } :=
  ⟨rfl, twins.strings, ⟨twins.left.depth, twins.left.interned⟩,
    ⟨twins.right.depth, twins.right.interned⟩⟩

theorem deeper (twins : Twins depth r s) :
    Twins (depth + 1) { r with depth := r.depth + 1 } { s with depth := s.depth + 1 } :=
  ⟨twins.rest, twins.strings, twins.left.deeper, twins.right.deeper⟩

theorem back (twins : Twins (depth + 1) r s) :
    Twins depth { r with depth := r.depth - 1 } { s with depth := s.depth - 1 } :=
  ⟨twins.rest, twins.strings, twins.left.back, twins.right.back⟩

end Twins

/-- How two readers end alike: what they give looks the same, or they fail for the same reason;
unless that is a fault, the sessions are twins again. -/
inductive Alike (depth : Nat) (view : α → γ) :
    EStateM.Result ReadFailure Reader α → EStateM.Result ReadFailure Reader α → Prop
  | ok {a b : α} {r s : Reader} : view a = view b → Twins depth r s →
      Alike depth view (.ok a r) (.ok b s)
  | error {e : ReadError} {r s : Reader} : Twins depth r s →
      Alike depth view (.error (.error e) r) (.error (.error e) s)
  | fault {cause : Fault} {r s : Reader} :
      Alike depth view (.error (.fault cause) r) (.error (.fault cause) s)

theorem Alike.symm {view : α → γ} {x y : EStateM.Result ReadFailure Reader α}
    (ends : Alike depth view x y) :
    Alike depth view y x := by
  cases ends with
  | ok same twins => exact .ok same.symm twins.symm
  | error twins => exact .error twins.symm
  | fault => exact .fault

theorem Alike.depth_eq {view : α → γ} {x y : EStateM.Result ReadFailure Reader α}
    (ends : Alike depth view x y) :
    (∀ a t, x = .ok a t → t.depth = depth) ∧ ∀ e t, x = .error (.error e) t →
    t.depth = depth := by
  constructor
  · intro a t ended
    subst ended
    cases ends with
    | ok same twins => exact twins.left.depth
  · intro e t ended
    subst ended
    cases ends with
    | error twins => exact twins.left.depth

/-- Whether two readers end alike in sessions that are twins. -/
def Together (depth : Nat) (view : α → γ) (read read' : Read α) : Prop :=
  ∀ r s, Twins depth r s → Alike depth view (read r) (read' s)

namespace Together

variable {view : α → γ}

theorem symm {read read' : Read α} (together : Together depth view read read') :
    Together depth view read' read :=
  fun _ _ twins => (together _ _ twins.symm).symm

theorem bind {read read' : Read α} {next next' : α → Read β} {view' : β → δ}
    (head : Together depth view read read')
    (tail : ∀ a b, view a = view b → Together depth view' (next a) (next' b)) :
    Together depth view' (read >>= next) (read' >>= next') := by
  intro r s twins
  change Alike depth view' (EStateM.bind read next r) (EStateM.bind read' next' s)
  unfold EStateM.bind
  have ends := head r s twins
  generalize read r = x, read' s = y at ends
  cases ends with
  | ok same twins => exact tail _ _ same _ _ twins
  | error twins => exact .error twins
  | fault => exact .fault

theorem behind {read : Read α} {next next' : α → Read β} {view' : β → δ}
    (head : Together depth id read read) (tail : ∀ a, Together depth view' (next a) (next' a)) :
    Together depth view' (read >>= next) (read >>= next') :=
  bind head fun a b same => (show a = b from same) ▸ tail a

theorem pure {a b : α} (same : view a = view b) : Together depth view (pure a) (pure b) :=
  fun _ _ twins => .ok same twins

theorem fail (e : ReadError) : Together depth view (fail e) (fail e) :=
  fun _ _ twins => .error twins

theorem fail_bind (e : ReadError) (next next' : β → Read α) :
    Together depth view (Reader.fail e >>= next) (Reader.fail e >>= next') :=
  fun _ _ twins => .error twins

theorem look {next next' : Reader → Read α}
    (each : ∀ r s, Twins depth r s → Together depth view (next r) (next' s)) :
    Together depth view (get >>= next) (get >>= next') :=
  fun r s twins => each r s twins r s twins

theorem change {f f' : Reader → Reader}
    (same : ∀ r s, Twins depth r s → Twins depth (f r) (f' s)) :
    Together depth (id : PUnit → PUnit) (modify f) (modify f') :=
  fun r s twins => .ok rfl (same r s twins)

theorem take (count : Nat) : Together depth id (take count) (take count) := by
  intro r s twins
  unfold Reader.take
  rw [twins.rest]
  split
  · exact .ok rfl (twins.moved _)
  · exact .error (twins.moved _)

theorem block (decode : OverlayBlock.Decode α) :
    Together depth id (block limits decode) (block limits decode) := by
  intro r s twins
  unfold Reader.block
  rw [twins.rest]
  split
  · exact .ok rfl (twins.moved _)
  · exact .error (twins.moved _)
  · exact .fault

theorem plain (depth : Nat) (limits : Limits) :
    Plain limits fun _ read => Together depth id read read where
  pure _ := pure rfl
  fail := fail
  bind := behind
  look := by
    intro α next blind each r s twins
    have same : next s = next r :=
      blind r s (twins.right.depth.trans twins.left.depth.symm) twins.strings
    have ends := each r r s twins
    change Alike depth id (next r r) (next s s)
    rwa [same]
  learn text := change fun r s twins =>
  ⟨twins.rest, congrArg (StringTable.push · text) twins.strings,
    ⟨twins.left.depth, twins.left.interned⟩, ⟨twins.right.depth, twins.right.interned⟩⟩
  take := take
  diagnostics := block _
  annotations := block _

theorem opened {registry : Registry} {allowed : KindSet} {expected : String}
    {next next' : RecordHeader × RecordReader → Read α}
    (tail : ∀ opening, registry.find? opening.1.kind = some opening.2 →
      Together depth view (next opening) (next' opening)) :
    Together depth view (header registry limits allowed expected >>= next)
      (header registry limits allowed expected >>= next') := by
  intro r s twins
  have ends := (plain depth limits).header registry allowed expected r s twins
  change Alike depth view (EStateM.bind _ next r) (EStateM.bind _ next' s)
  unfold EStateM.bind
  cases run : header registry limits allowed expected r with
  | ok opening t =>
    rw [run] at ends
    generalize header registry limits allowed expected s = y at ends
    cases ends with
    | ok same twins =>
      cases same
      exact tail opening (header_eq_ok_iff.1 run).2.2.1 _ _ twins
  | error failure t =>
    rw [run] at ends
    generalize header registry limits allowed expected s = y at ends
    cases ends with
    | error twins => exact .error twins
    | fault => exact .fault

theorem visit (kind : Kind) : Together depth id (visit kind) (visit kind) :=
  change fun _ _ twins => ⟨twins.rest, twins.strings,
    ⟨twins.left.depth, twins.left.interned⟩, ⟨twins.right.depth, twins.right.interned⟩⟩

theorem freshCell : Together depth (fun _ => ()) freshCell freshCell :=
  look fun _ _ _ => bind (change fun _ _ twins => ⟨twins.rest, twins.strings,
    ⟨twins.left.depth, twins.left.interned⟩, ⟨twins.right.depth, twins.right.interned⟩⟩)
    fun _ _ _ => pure rfl

theorem built {x y : Except Fault α} (same : view <$> x = view <$> y) :
    Together depth view (built x) (built y) := by
  cases x with
  | ok a =>
    cases y with
    | ok b => exact pure (Except.ok.inj same)
    | error cause => cases same
  | error cause =>
    cases y with
    | ok b => cases same
    | error cause' =>
      obtain rfl := Except.error.inj same
      cases cause with
      | tooWide kind => exact fail _
      | _ => exact fun _ _ _ => .fault

variable (view) in
theorem made {make make' : Nat → Except Fault α} {wrap : α → β} {view' : β → δ}
    (same : ∀ cell cell', view <$> make cell = view <$> make' cell')
    (wraps : ∀ a b, view a = view b → view' (wrap a) = view' (wrap b)) :
    Together depth view' (do
        let cell ← Reader.freshCell
        return wrap (← Reader.built (make cell)))
      (do
        let cell ← Reader.freshCell
        return wrap (← Reader.built (make' cell))) :=
  bind freshCell fun cell cell' _ => bind (built (same cell cell')) fun a b looks =>
    pure (wraps a b looks)

theorem intern (kind : Kind) (text : String) :
    Together depth Trivia.content (intern kind text) (intern kind text) := by
  refine bind freshCell fun cell cell' _ => look fun r s twins => ?_
  rcases Interner.ask_alike twins.left.interned twins.right.interned cell cell' kind text with
    ⟨t, i, u, j, asked, asked', looks, sound, sound'⟩ | ⟨cause, i, j, asked, asked'⟩
  · simp only [asked, asked']
    refine bind (change fun _ _ twins => ?_) fun _ _ _ => pure looks
    exact ⟨twins.rest, twins.strings, ⟨twins.left.depth, sound⟩,
      ⟨twins.right.depth, sound'⟩⟩
  · simp only [asked, asked']
    exact fun _ _ _ => .fault

private theorem repeatInto {item item' : Read α}
    (each : Together depth view item item') (count : Nat) {done done' : Array α}
    (sofar : done.toList.map view = done'.toList.map view) :
    Together depth (fun as => as.toList.map view) (repeatInto item count done)
    (repeatInto item' count done') := by
  induction count generalizing done done' with
  | zero => exact pure sofar
  | succ count ih =>
    rw [GreenTree.repeatInto, GreenTree.repeatInto]
    refine bind each fun a b same => ih ?_
    simp [sofar, same]

theorem repeated {item item' : Read α} (each : Together depth view item item') (count : Nat) :
    Together depth (List.map view) (repeated count item) (repeated count item') :=
  bind (repeatInto each count rfl) fun _ _ same => pure same

theorem stays {inside inside' : Read α} (together : Together (depth + 1) view inside inside')
    (small : depth < maxSize) {r s : Reader} (twins : Twins depth r s) : StaysInside inside r := by
  obtain ⟨ok, error⟩ := (together _ _ twins.deeper).depth_eq
  refine ⟨twins.left.depth ▸ small, fun read => ?_, fun read => ?_⟩
  · rw [ok _ _ read]
    omega
  · rw [error _ _ read]
    omega

theorem nested {inside inside' : Read α} (small : depth < maxSize)
    (together : Together (depth + 1) view inside inside') :
    Together depth view (nested inside) (nested inside') := by
  intro r s twins
  have ends := together _ _ twins.deeper
  rw [nested_eq (together.stays small twins), nested_eq (together.symm.stays small twins.symm)]
  generalize inside { r with depth := r.depth + 1 } = x,
    inside' { s with depth := s.depth + 1 } = y at ends
  cases ends with
  | ok same twins => exact .ok same twins.back
  | error twins => exact .error twins.back
  | fault => exact .fault

def Inside (depth : Nat) (inner inner' : Inner) : Prop :=
  ∀ allowed expected, Together depth Element.content (inner allowed expected)
    (inner' allowed expected)

section

variable {inner inner' : Inner} (inside : Inside depth inner inner')

include inside

theorem triviaRecord :
    Together depth Trivia.content (triviaRecord inner) (triviaRecord inner') := by
  refine bind (inside .trivia "trivia") fun e e' same => ?_
  have kinds : e.kind = e'.kind := by
    rw [Element.kind, Element.kind, ← e.content_head, ← e'.content_head, same]
  have refused : Together depth Trivia.content (Reader.fail (.unexpectedShape "trivia" e.kind))
      (Reader.fail (.unexpectedShape "trivia" e'.kind)) := kinds ▸ fail _
  cases e with
  | trivia t =>
    cases e' with
    | trivia t' => exact pure (Element.trivia.inj same)
    | token t' => cases same
    | node n' => cases same
  | token t =>
    cases e' with
    | trivia t' => cases same
    | token t' => exact refused
    | node n' => cases same
  | node n =>
    cases e' with
    | trivia t' => cases same
    | token t' => cases same
    | node n' => exact refused

theorem triviaList :
    Together depth (List.map Trivia.content) (triviaList inner) (triviaList inner') :=
  behind ((plain depth .standard).fixed 4) fun count => repeated (triviaRecord inside) count

theorem tokenContents (h : RecordHeader) :
    Together depth Element.content (tokenContents limits inner h)
    (tokenContents limits inner' h) := by
  unfold Reader.tokenContents
  simp only [Token.ofParts_eq_make]
  split
  · exact fail_bind _ _ _
  · refine behind (plain depth limits).text fun text =>
      bind (triviaList inside) fun leading leading' same =>
      bind (triviaList inside) fun trailing trailing' same' => made Token.content ?_ ?_
    · intro cell cell'
      rw [Token.content_make, Token.content_make, same, same']
    · exact fun t t' looks => congrArg Element.token looks

theorem nodeContents (h : RecordHeader) :
    Together depth Element.content (nodeContents inner h) (nodeContents inner' h) := by
  unfold Reader.nodeContents
  simp only [Node.ofParts_eq_make]
  split
  · exact fail_bind _ _ _
  · refine behind ((plain depth .standard).fixed 4) fun count =>
      bind (repeated (inside _ _) count) fun children children' same =>
      made Node.content ?_ ?_
    · intro cell cell'
      rw [Node.content_make, Node.content_make, same]
    · intro n n' looks
      rw [Element.content_node, Element.content_node, looks]

end

theorem triviaContents (h : RecordHeader) :
    Together depth Element.content (triviaContents limits h) (triviaContents limits h) := by
  unfold Reader.triviaContents
  dsimp only
  split
  · exact fail_bind _ _ _
  · refine behind (plain depth limits).text fun text => ?_
    split
    · exact bind (intern _ _) fun t t' looks => pure (congrArg Element.trivia looks)
    · refine made Trivia.content (fun cell cell' => ?_) fun t t' looks =>
        congrArg Element.trivia looks
      rw [Trivia.content_make, Trivia.content_make]

theorem contents {inner inner' : Inner} (inside : Inside depth inner inner') (h : RecordHeader)
    {reader : RecordReader} (known : ∀ script, reader ≠ .script script) :
    Together depth Element.content (contents limits inner h reader)
      (contents limits inner' h reader) := by
  cases reader with
  | trivia => exact triviaContents h
  | token => exact tokenContents inside h
  | node => exact nodeContents inside h
  | script script => exact absurd rfl (known script)

/-- Whole records are read alike wherever records may still nest. -/
theorem record {registry : Registry} (only : registry.OnlyStandard) {levels : Nat}
    (total : depth + levels = limits.maxDepth.toNat) :
    Inside depth (record registry limits levels) (record registry limits levels) := by
  refine record_induction (motive := fun depth inner => Inside depth inner inner) ?_ ?_ total
  · exact fun _ _ => fail _
  · intro depth inner room inside allowed expected
    refine opened fun opening found => behind (visit _) fun _ => nested (limits.lt_maxSize room) ?_
    refine contents inside opening.1 fun script same => ?_
    exact only.no_script (same ▸ found)

theorem element {registry : Registry} (only : registry.OnlyStandard)
    (within : depth ≤ limits.maxDepth.toNat) :
    Inside depth (element registry limits) (element registry limits) := by
  intro allowed expected
  refine look fun r s twins => ?_
  rw [twins.left.depth, twins.right.depth]
  exact record only (by omega) allowed expected

end Together

end Reader

def Request.content : (request : Request) → request.Answer → request.Answer
  | .element _ _ => Element.content
  | .trivia | .intern _ _ => Trivia.content
  | _ => id

theorem Reader.serve_together {registry : Registry} (only : registry.OnlyStandard) (limits : Limits)
    (request : Request) :
    Together 0 request.content (serve registry limits request) (serve registry limits request) := by
  have whole : Together.Inside 0 (element registry limits) (element registry limits) :=
    .element only (Nat.zero_le _)
  have plain := Together.plain 0 limits
  cases request with
  | byte => exact plain.fixed 1
  | half => exact plain.fixed 2
  | word => exact plain.fixed 4
  | flag => exact plain.flag
  | length => exact plain.fixed 4
  | text => exact plain.text
  | diagnostics => exact plain.diagnostics
  | annotations => exact plain.annotations
  | element allowed expected => exact whole allowed expected
  | trivia => exact .triviaRecord whole
  | intern kind text => exact .intern kind text

end GreenTree
