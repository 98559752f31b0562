import GreenTree.Proofs.Stream.Extension

/-!
Looser limits and larger registries. Two readers go over the same bytes, the second under limits
that allow at least as much and with readers for at least the same kinds. They stay together step by
step, so the second ends as the first does and in the same place, unless the first was refused
something that the second may be allowed.
-/

namespace GreenTree

/-- Whether limits allow no more than others do. Whether texts are shared makes no difference to a
reader. -/
structure Limits.NoLooser (strict loose : Limits) : Prop where
  depth : strict.maxDepth ≤ loose.maxDepth
  length : strict.maxStringLength ≤ loose.maxStringLength
  bytes : strict.maxOverlayBytes ≤ loose.maxOverlayBytes

def Registry.PartOf (small large : Registry) : Prop :=
  ∀ kind reader, small.find? kind = some reader → large.find? kind = some reader

theorem Registry.restrict_partOf {kept kept' : KindSet} (registry : Registry)
    (more : ∀ kind, kept.contains kind = true → kept'.contains kind = true) :
    (registry.restrict kept).PartOf (registry.restrict kept') := by
  intro kind reader found
  obtain ⟨member, found⟩ : kept.contains kind = true ∧ registry.find? kind = some reader := by
    simpa [restrict] using found
  simpa [restrict, more kind member] using found

theorem Registry.OnlyStandard.restrict {registry : Registry} (only : registry.OnlyStandard)
    (kept : KindSet) : (registry.restrict kept).OnlyStandard := by
  intro kind reader found
  obtain ⟨-, found⟩ : kept.contains kind = true ∧ registry.find? kind = some reader := by
    simpa [Registry.restrict] using found
  exact only kind reader found

def ReadError.isRestriction : ReadError → Bool
  | .tooDeep _ | .stringTooLong _ _ | .overlay _ | .unregisteredKind _ => true
  | _ => false

namespace Reader

variable {α β : Type} {strict loose : Limits} {depth : Nat}

def Restricted (result : EStateM.Result ReadFailure Reader α) : Prop :=
  ∃ e session, result = .error (.error e) session ∧ e.isRestriction = true

/-- Whether a reader ends as another one does, unless that one was refused something that this one
may be let to do. -/
def Loosens (strict : Limits) (depth : Nat) (reader reader' : Read α) : Prop :=
  ∀ r, r.Fit strict depth → Restricted (reader r) ∨ reader' r = reader r

theorem anyStep (limits : Limits) : Closed limits fun _ _ _ => True := by
  constructor <;> intros <;> trivial

namespace Loosens

theorem refl (reader : Read α) : Loosens strict depth reader reader :=
  fun _ _ => .inr rfl

theorem of_restriction {e : ReadError} (refused : e.isRestriction = true) (reader' : Read α) :
    Loosens strict depth (fail e) reader' :=
  fun r _ => .inl ⟨e, r, rfl, refused⟩

theorem bind {reader reader' : Read α} {next next' : α → Read β} {post : α → Prop}
    (gives : Gives strict depth reader post) (head : Loosens strict depth reader reader')
    (tail : ∀ a, post a → Loosens strict depth (next a) (next' a)) :
    Loosens strict depth (reader >>= next) (reader' >>= next') := by
  intro r fit
  rcases head r fit with ⟨e, session, refused, restriction⟩ | same
  · exact .inl ⟨e, session, EStateM.bind_eq_error_iff.2 (.inl refused), restriction⟩
  change Restricted (EStateM.bind reader next r) ∨
    EStateM.bind reader' next' r = EStateM.bind reader next r
  simp only [EStateM.bind, same]
  cases run : reader r with
  | error f session => exact .inr rfl
  | ok a session =>
    obtain ⟨fit', given⟩ := gives.ok fit run
    exact tail a given session fit'

theorem behind {reader : Read α} {next next' : α → Read β} {post : α → Prop}
    (gives : Gives strict depth reader post)
    (tail : ∀ a, post a → Loosens strict depth (next a) (next' a)) :
    Loosens strict depth (reader >>= next) (reader >>= next') :=
  bind gives (refl reader) tail

theorem fail_bind (e : ReadError) (next next' : α → Read β) :
    Loosens strict depth (fail e >>= next) (fail e >>= next') :=
  behind (Gives.throw (.error e) fun _ => False) fun _ impossible => impossible.elim

theorem look {next next' : Reader → Read α}
    (each : ∀ r, r.Fit strict depth → Loosens strict depth (next r) (next' r)) :
    Loosens strict depth (get >>= next) (get >>= next') :=
  fun r fit => each r fit r fit

private theorem repeatInto {item item' : Read α} {post : α → Prop}
    (gives : Gives strict depth item post)
    (each : Loosens strict depth item item') (count : Nat) (done : Array α) :
    Loosens strict depth (repeatInto item count done) (repeatInto item' count done) := by
  induction count generalizing done with
  | zero => exact refl _
  | succ count ih =>
    rw [GreenTree.repeatInto, GreenTree.repeatInto]
    exact bind gives each fun a _ => ih (done.push a)

theorem repeated {item item' : Read α} {post : α → Prop}
    (follows : Follows (fun _ _ _ => True) strict depth item post)
    (each : Loosens strict depth item item') (count : Nat) :
    Loosens strict depth (repeated count item) (repeated count item') := by
  have none : ∀ a ∈ (#[] : Array α), post a := by simp
  have all := (follows.repeatInto (anyStep strict) count none).gives
  exact bind all (repeatInto follows.gives each count #[]) fun _ _ => refl _

theorem block {decode : OverlayBlock.Decode α} (looser : strict.NoLooser loose)
    (stable : ∀ extra,
      OverlayBlock.Stable (OverlayBlock.State.enrich extra) .sizeLimit decode) :
    Loosens strict depth (block strict decode) (block loose decode) := by
  intro r fit
  have within : strict.maxOverlayBytes.toNat ≤ loose.maxOverlayBytes.toNat := looser.bytes
  let extra := loose.maxOverlayBytes.toNat - strict.maxOverlayBytes.toNat
  let start : OverlayBlock.State := ⟨r.rest, strict.maxOverlayBytes.toNat⟩
  have richer : start.enrich extra = ⟨r.rest, loose.maxOverlayBytes.toNat⟩ := by
    simp only [OverlayBlock.State.enrich, start, extra, Nat.add_sub_cancel' within]
  unfold Reader.block Restricted
  rw [← richer]
  cases decoded : decode start with
  | ok a t =>
    rw [(stable extra).ok decoded]
    exact .inr rfl
  | error f t =>
    cases f with
    | error cause => exact .inl ⟨.overlay cause, _, rfl, rfl⟩
    | fault cause =>
      rcases (stable extra).error decoded with short | same
      · cases short
      · rw [same]
        exact .inr rfl

theorem attached {decode : OverlayBlock.Decode (List α)} (looser : strict.NoLooser loose)
    (stable : ∀ extra,
      OverlayBlock.Stable (OverlayBlock.State.enrich extra) .sizeLimit decode) :
    Loosens strict depth
    (do if ← flag then Reader.block strict decode else pure [])
    (do if ← flag then Reader.block loose decode else pure []) := by
  apply behind (Follows.flag (anyStep strict)).gives
  intro present _
  cases present with
  | false => exact refl _
  | true => exact block looser stable

theorem overlay (looser : strict.NoLooser loose) :
    Loosens strict depth (overlay strict) (overlay loose) := by
  rw [overlay_eq, overlay_eq]
  have steps := anyStep strict
  apply bind (Follows.attached steps (Follows.diagnostics steps)).gives
    (attached looser fun extra => (OverlayBlock.closed_enrich extra).diagnostics)
  intro diagnostics _
  apply bind (Follows.attached steps (Follows.annotations steps)).gives
    (attached looser fun extra => (OverlayBlock.closed_enrich extra).annotations)
  intro annotations _
  exact refl _

theorem text (looser : strict.NoLooser loose) :
    Loosens strict depth (text strict) (text loose) := by
  have within : strict.maxStringLength.toNat ≤ loose.maxStringLength.toNat := looser.length
  apply behind (Follows.fixed (anyStep strict) 1).gives
  intro tag _
  split
  · apply behind (Follows.fixed (anyStep strict) 4).gives
    intro length _
    dsimp only
    split
    · exact fun r _ => .inl ⟨_, r, rfl, rfl⟩
    · rw [if_neg (by omega)]
      exact refl _
  · exact refl _
  · exact refl _

theorem nested {inside inside' : Read α} {post : α → Prop} (small : depth < maxSize)
    (gives : Gives strict (depth + 1) inside post)
    (loosens : Loosens strict (depth + 1) inside inside') :
    Loosens strict depth (nested inside) (nested inside') := by
  intro r fit
  have stays := gives.stays small fit
  rcases loosens _ fit.deeper with ⟨e, session, refused, restriction⟩ | same
  · rw [nested_eq stays, refused]
    exact .inl ⟨e, _, rfl, restriction⟩
  · exact .inr (nested_congr same)

/-- Whether records inside a record are read as far by both readers. -/
structure Within (registry : Registry) (strict : Limits) (depth : Nat) (inner inner' : Inner) :
    Prop where
  inside : Follows.Inside (fun _ _ _ => True) registry (fun _ _ => False) strict depth inner
  loosens : ∀ allowed expected, Loosens strict depth (inner allowed expected)
    (inner' allowed expected)

variable {registry registry' : Registry} {inner inner' : Inner}

theorem triviaRecord (within : Within registry strict depth inner inner') :
    Loosens strict depth (triviaRecord inner) (triviaRecord inner') :=
  bind (within.inside _ _).gives (within.loosens _ _) fun _ _ => refl _

theorem triviaList (within : Within registry strict depth inner inner') :
    Loosens strict depth (triviaList inner) (triviaList inner') := by
  apply behind (Follows.fixed (anyStep strict) 4).gives
  intro count _
  exact repeated (Follows.triviaRecord (anyStep strict) within.inside) (triviaRecord within) count

theorem triviaContents (looser : strict.NoLooser loose) (h : RecordHeader) :
    Loosens strict depth (triviaContents strict h) (triviaContents loose h) := by
  unfold Reader.triviaContents
  dsimp only
  split
  · exact fail_bind _ _ _
  · exact bind (Follows.text (anyStep strict)).gives (text looser) fun _ _ => refl _

theorem tokenContents (looser : strict.NoLooser loose)
    (within : Within registry strict depth inner inner') (h : RecordHeader) :
    Loosens strict depth (tokenContents strict inner h) (tokenContents loose inner' h) := by
  have trivia := (Follows.triviaList (anyStep strict) within.inside).gives
  unfold Reader.tokenContents
  dsimp only
  split
  · exact fail_bind _ _ _
  · apply bind (Follows.text (anyStep strict)).gives (text looser)
    intro text _
    apply bind trivia (triviaList within)
    intro leading _
    apply bind trivia (triviaList within)
    intro trailing _
    exact refl _

theorem nodeContents (within : Within registry strict depth inner inner') (h : RecordHeader) :
    Loosens strict depth (nodeContents inner h) (nodeContents inner' h) := by
  have child := within.inside KindSet.children "node or token"
  unfold Reader.nodeContents
  dsimp only
  split
  · exact fail_bind _ _ _
  · apply behind (Follows.fixed (anyStep strict) 4).gives
    intro count _
    apply bind (Follows.repeated (anyStep strict) child count).gives
      (repeated child (within.loosens _ _) count)
    intro children _
    exact refl _

theorem contents (looser : strict.NoLooser loose)
    (within : Within registry strict depth inner inner') (h : RecordHeader) :
    Loosens strict depth (contents strict inner h (.standard h.kind))
    (contents loose inner' h (.standard h.kind)) := by
  unfold RecordReader.standard
  split
  · exact triviaContents looser h
  · split
    · exact tokenContents looser within h
    · exact nodeContents within h

theorem header (looser : strict.NoLooser loose) (more : registry.PartOf registry')
    (room : depth < strict.maxDepth.toNat) (allowed : KindSet) (expected : String) :
    Loosens strict depth (header registry strict allowed expected)
      (header registry' loose allowed expected) := by
  have deeper : strict.maxDepth.toNat ≤ loose.maxDepth.toNat := looser.depth
  unfold Reader.header
  apply look
  intro r fit
  rw [if_neg (by rw [fit.depth]; omega), if_neg (by rw [fit.depth]; omega)]
  apply behind (Follows.kind (anyStep strict)).gives
  intro kind _
  dsimp only
  split
  · exact fail_bind _ _ _
  · cases found : registry.find? kind with
    | none => exact of_restriction rfl _
    | some reader =>
      rw [more kind _ found]
      apply behind (Follows.fixed (anyStep strict) 2).gives
      intro word _
      exact bind (Follows.overlay (anyStep strict)).gives (overlay looser) fun _ _ => refl _

theorem recordWith (looser : strict.NoLooser loose) (more : registry.PartOf registry')
    (only : registry.OnlyStandard) (room : depth < strict.maxDepth.toNat)
    (within : Within registry strict (depth + 1) inner inner') (allowed : KindSet)
    (expected : String) :
    Loosens strict depth (recordWith registry strict inner allowed expected)
      (recordWith registry' loose inner' allowed expected) := by
  apply bind (Follows.header (anyStep strict) registry allowed expected).gives
    (header looser more room allowed expected)
  intro opening heads
  apply behind (Gives.visit opening.1.kind)
  intro _ _
  have inside := Follows.contents (anyStep strict) (.of_only only) within.inside heads.addressable
    heads.found
  apply nested (strict.lt_maxSize room) inside.gives
  rw [only _ _ heads.found]
  exact contents looser within opening.1

/-- Whole records are read as far wherever records may still nest under the stricter limits. -/
theorem record (looser : strict.NoLooser loose) (more : registry.PartOf registry')
    (only : registry.OnlyStandard) {levels levels' : Nat}
    (total : depth + levels = strict.maxDepth.toNat)
    (total' : depth + levels' = loose.maxDepth.toNat) :
    Within registry strict depth (record registry strict levels)
      (record registry' loose levels') := by
  have deeper : strict.maxDepth.toNat ≤ loose.maxDepth.toNat := looser.depth
  refine record_induction (motive := fun depth inner => ∀ levels',
    depth + levels' = loose.maxDepth.toNat → Within registry strict depth
      inner (Reader.record registry' loose levels')) ?_ ?_ total levels' total'
  · exact fun _ _ => ⟨fun _ _ => .fail (anyStep strict) _ _, fun _ _ => of_restriction rfl _⟩
  · intro depth inner room ih levels' total'
    obtain ⟨levels', rfl⟩ : ∃ n, levels' = n + 1 := ⟨levels' - 1, by omega⟩
    have within := ih levels' (by omega)
    exact ⟨Follows.recordWith (anyStep strict) (.of_only only) room within.inside,
      recordWith looser more only room within⟩

theorem tree (looser : strict.NoLooser loose) (more : registry.PartOf registry')
    (only : registry.OnlyStandard) :
    Loosens strict 0 (tree registry strict) (tree registry' loose) := by
  unfold Reader.tree
  apply behind (Follows.take (anyStep strict) 4).gives
  intro magic _
  dsimp only
  split
  · exact fail_bind _ _ _
  · apply behind (Follows.fixed (anyStep strict) 1).gives
    intro version _
    split
    · exact fail_bind _ _ _
    · unfold element
      apply look
      intro r fit
      rw [fit.depth]
      exact (record looser more only (by omega) (by omega)).loosens .all "green"

end Loosens

/-- A stream that is read under some limits with readers for some kinds is read alike under looser
limits with readers for more kinds, and a stream that is refused is refused for the same reason in
the same place, unless that reason was a limit or a kind without a reader. -/
theorem tree_loosened {strict loose : Limits} (looser : strict.NoLooser loose)
    {kept kept' : KindSet}
    (more : ∀ kind, kept.contains kind = true → kept'.contains kind = true) (bytes : List UInt8)
    (cell : Nat) :
    let start : Reader := { rest := bytes, nextCell := cell }
    let outcome := tree (Registry.standard.restrict kept) strict start
    (∃ e session, outcome = .error (.error e) session ∧ e.isRestriction = true) ∨
      tree (Registry.standard.restrict kept') loose start = outcome := by
  intro start outcome
  have only := Registry.standard_onlyStandard.restrict kept
  exact Loosens.tree looser (Registry.standard.restrict_partOf more) only start
    (.start strict bytes cell)

/-- A list of two commas, the second with a diagnostic and with its text as a reference, and one
more byte. -/
def sharedCommas : List UInt8 :=
  streamMagic ++ [1, 31, 0, 0, 0, 0, 0, 2, 0, 0, 0,
    12, 0, 0, 0, 0, 0, 0, 1, 0, 0, 0, 44, 0, 0, 0, 0, 0, 0, 0, 0,
    12, 0, 0, 0, 1, 1, 7, 2, 0, 1, 0, 0, 1, 0, 0, 0, 0, 0, 0, 0, 0, 0, 0, 0, 0, 255]

theorem tree_loosened_sharedCommas :
    let tight : Limits := { maxDepth := 2, maxStringLength := 1, maxOverlayBytes := 6 }
    let kept := KindSet.ofList [.listNode, .comma]
    tight.NoLooser .standard ∧
      (∀ kind, kept.contains kind = true → KindSet.all.contains kind = true) ∧
      ∃ e session,
        tree (Registry.standard.restrict kept) tight { rest := sharedCommas } = .ok e session ∧
        tree (Registry.standard.restrict .all) .standard { rest := sharedCommas } =
          .ok e session := by
  intro tight kept
  have looser : tight.NoLooser .standard := ⟨by decide, by decide, by decide⟩
  have more : ∀ kind, kept.contains kind = true → KindSet.all.contains kind = true :=
    fun kind _ => KindSet.contains_all kind
  have accepted : ((tree (Registry.standard.restrict kept) tight).run'
      { rest := sharedCommas }).isSome = true := by decide +kernel
  unfold EStateM.run' at accepted
  split at accepted
  · rename_i e session read
    rcases tree_loosened looser more sharedCommas 0 with ⟨e, session', refused, -⟩ | same
    · cases read.symm.trans refused
    · exact ⟨looser, more, e, session, read, same.trans read⟩
  · cases accepted

end Reader

end GreenTree
