import GreenTree.Proofs.Stream.Reading

/-!
Moving on. Most readers of a session, that of headers among them, only take bytes and learn texts.
They are put together out of few steps, so a property that those have, and that is kept when one
follows another, holds of all of them. One such property is that they leave everything else alone,
whether they succeed or fail, and that their only fault is that a buffer would be too large.
-/

namespace GreenTree

variable {α β : Type}

namespace OverlayBlock

/-- Whether a decoder only moves on in the bytes, and faults only because a buffer would be too
large. -/
structure Moves (decode : Decode α) : Prop where
  rest : ∀ s, (stateAfter (decode s)).rest <:+ s.rest
  fault : ∀ s cause s', decode s = .error (.fault cause) s' → cause = .capacityOverflow

namespace Moves

theorem pure (a : α) : Moves (pure a) :=
  ⟨fun s => List.suffix_refl s.rest, fun _ _ _ run => nomatch run⟩

theorem refuse (e : OverlayError) : Moves (throw (.error e) : Decode α) :=
  ⟨fun s => List.suffix_refl s.rest, fun _ _ _ run => nomatch run⟩

theorem bind {first : Decode α} {next : α → Decode β} (head : Moves first)
    (tail : ∀ a, Moves (next a)) :
    Moves (first >>= next) where
  rest := by
    intro s
    have before := head.rest s
    rw [stateAfter_bind]
    cases run : first s with
    | ok a t =>
      rw [run] at before
      exact ((tail a).rest t).trans before
    | error f t =>
      rw [run] at before
      exact before
  fault := by
    intro s cause s' run
    rcases EStateM.bind_eq_error_iff.1 run with run | ⟨a, t, -, rest⟩
    · exact head.fault s cause s' run
    · exact (tail a).fault t cause s' rest

theorem spend (count : Nat) : Moves (spend count) := by
  unfold OverlayBlock.spend
  constructor
  · intro s
    split <;> exact List.suffix_refl s.rest
  · intro s cause s' run
    split at run <;> cases run

theorem take (count : Nat) : Moves (take count) := by
  unfold OverlayBlock.take
  constructor
  · intro s
    split
    · rename_i found
      exact ⟨_, (Bytes.append_of_split? found).1.symm⟩
    · exact List.nil_suffix
  · intro s cause s' run
    split at run <;> cases run

theorem ofLength (length : Nat) : Moves (do
    OverlayBlock.spend length
    if addressLimit ≤ length then throw (.fault .capacityOverflow)
    match Utf8.decode (← OverlayBlock.take length) with
    | .ok text => return text
    | .error cause => throw (.error (.invalidText cause)) : Decode String) := by
  refine (spend length).bind fun _ => ?_
  dsimp only
  split
  · exact ⟨fun s => List.suffix_refl s.rest, fun _ _ _ run => by cases run; rfl⟩
  · refine (take length).bind fun bytes => ?_
    split
    · exact pure _
    · exact refuse _

theorem closed : Closed fun _ => Moves where
  pure := pure
  refuse := refuse
  bind := bind
  fixed width := (spend width).bind fun _ => (take width).bind fun _ => pure _
  text number := number.bind ofLength

end Moves

end OverlayBlock

namespace Reader

/-- Whether readers that only take bytes and learn texts have a property as soon as the steps have
it that they are put together from. They look at no more than the number of open records and the
texts. -/
structure Plain (limits : Limits) (Holds : ∀ α : Type, Read α → Prop) : Prop where
  pure {α : Type} (a : α) : Holds α (pure a)
  fail {α : Type} (e : ReadError) : Holds α (fail e)
  bind {α β : Type} {read : Read α} {next : α → Read β} :
    Holds α read → (∀ a, Holds β (next a)) → Holds β (read >>= next)
  look {α : Type} {next : Reader → Read α} :
    (∀ r s : Reader, s.depth = r.depth → s.strings = r.strings → next s = next r) →
    (∀ r, Holds α (next r)) → Holds α (get >>= next)
  learn (text : String) :
    Holds PUnit (modify fun r : Reader => { r with strings := r.strings.push text })
  take (count : Nat) : Holds (List UInt8) (take count)
  diagnostics : Holds (List Diagnostic) (diagnostics limits)
  annotations : Holds (List Annotation) (annotations limits)

namespace Plain

variable {limits : Limits} {Holds : ∀ α : Type, Read α → Prop} (plain : Plain limits Holds)

include plain

theorem fail_bind (e : ReadError) (next : β → Read α) : Holds α (Reader.fail e >>= next) :=
  (plain.fail e : Holds α (Reader.fail e))

theorem fixed (width : Nat) : Holds Nat (fixed width) :=
  plain.bind (plain.take width) fun _ => plain.pure _

theorem flag : Holds Bool flag := by
  refine plain.bind (plain.fixed 1) fun byte => ?_
  split
  · exact plain.pure _
  · exact plain.pure _
  · exact plain.fail _

theorem inlineText : Holds String (inlineText limits) := by
  refine plain.bind (plain.fixed 4) fun length => ?_
  dsimp only
  split
  · exact plain.fail_bind _ _
  · refine plain.bind (plain.take length) fun bytes => ?_
    split
    · exact plain.bind (plain.learn _) fun _ => plain.pure _
    · exact plain.fail _

theorem referencedText : Holds String referencedText := by
  refine plain.bind (plain.fixed 4) fun index => plain.look ?_ fun r => ?_
  · intro r s _ same
    rw [same]
  · dsimp only
    split
    · exact plain.pure _
    · exact plain.fail _

theorem text : Holds String (text limits) := by
  refine plain.bind (plain.fixed 1) fun tag => ?_
  split
  · exact plain.inlineText
  · exact plain.referencedText
  · exact plain.fail _

theorem kind : Holds Kind kind := by
  refine plain.bind (plain.fixed 2) fun tag => ?_
  split
  · exact plain.pure _
  · exact plain.fail _

private theorem attached {read : Read (List α)} (holds : Holds (List α) read) :
    Holds (List α) (do if ← Reader.flag then read else Pure.pure []) := by
  refine plain.bind plain.flag fun present => ?_
  cases present with
  | true => exact holds
  | false => exact plain.pure _

theorem overlay : Holds Overlay (overlay limits) := by
  rw [overlay_eq]
  exact plain.bind (plain.attached plain.diagnostics) fun _ =>
    plain.bind (plain.attached plain.annotations) fun _ => plain.pure _

theorem header (registry : Registry) (allowed : KindSet) (expected : String) :
    Holds (RecordHeader × RecordReader) (header registry limits allowed expected) := by
  refine plain.look ?_ fun r => ?_
  · intro r s same _
    rw [same]
  · dsimp only
    split
    · exact plain.fail_bind _ _
    · refine plain.bind plain.kind fun kind => ?_
      split
      · exact plain.fail_bind _ _
      · cases registry.find? kind with
        | none => exact plain.fail _
        | some reader =>
          exact plain.bind (plain.fixed 2) fun _ => plain.bind plain.overlay fun _ => plain.pure _

end Plain

/-- Whether a session is another one that has moved on in its bytes or learnt texts. -/
structure Onward (r r' : Reader) : Prop where
  rest : r'.rest <:+ r.rest
  same : r' = { r with rest := r'.rest, strings := r'.strings }

namespace Onward

theorem refl (r : Reader) : Onward r r := ⟨List.suffix_refl _, rfl⟩

theorem trans {r s t : Reader} (first : Onward r s) (second : Onward s t) : Onward r t where
  rest := second.rest.trans first.rest
  same := by
    rw [second.same, first.same]

variable {r r' : Reader} (onward : Onward r r')

include onward

theorem visits : r'.visits = r.visits := by rw [onward.same]

theorem depth : r'.depth = r.depth := by rw [onward.same]

end Onward

/-- Whether a reader only moves on in the bytes and learns texts, and faults only because a buffer
would be too large. -/
structure Moves (read : Read α) : Prop where
  state : ∀ r, Onward r (stateAfter (read r))
  fault : ∀ r cause r', read r = .error (.fault cause) r' → cause = .capacityOverflow

namespace Moves

theorem pure (a : α) : Moves (pure a) := ⟨.refl, fun _ _ _ run => nomatch run⟩

theorem bind {read : Read α} {next : α → Read β} (first : Moves read)
    (second : ∀ a, Moves (next a)) :
    Moves (read >>= next) where
  state := by
    intro r
    have before := first.state r
    rw [stateAfter_bind]
    cases run : read r with
    | ok a t =>
      rw [run] at before
      exact before.trans ((second a).state t)
    | error f t =>
      rw [run] at before
      exact before
  fault := by
    intro r cause r' run
    rcases EStateM.bind_eq_error_iff.1 run with run | ⟨a, t, -, rest⟩
    · exact first.fault r cause r' run
    · exact (second a).fault t cause r' rest

theorem take (count : Nat) : Moves (take count) := by
  unfold Reader.take
  constructor
  · intro r
    split
    · rename_i found
      exact ⟨⟨_, (Bytes.append_of_split? found).1.symm⟩, rfl⟩
    · exact ⟨List.nil_suffix, rfl⟩
  · intro r cause r' run
    split at run <;> cases run

theorem block {decode : OverlayBlock.Decode α} (moves : OverlayBlock.Moves decode)
    (limits : Limits) :
    Moves (block limits decode) := by
  constructor
  · intro r
    have suffix := moves.rest ⟨r.rest, limits.maxOverlayBytes.toNat⟩
    unfold Reader.block
    cases run : decode ⟨r.rest, limits.maxOverlayBytes.toNat⟩ with
    | ok a s =>
      rw [run] at suffix
      exact ⟨suffix, rfl⟩
    | error failure s =>
      rw [run] at suffix
      cases failure <;> exact ⟨suffix, rfl⟩
  · intro r cause r' run
    unfold Reader.block at run
    split at run
    · cases run
    · cases run
    · rename_i decoded
      cases run
      exact moves.fault _ _ _ decoded

theorem plain (limits : Limits) : Plain limits fun _ => Moves where
  pure := pure
  fail _ := ⟨.refl, fun _ _ _ run => nomatch run⟩
  bind := bind
  look _ each := ⟨fun r => (each r).state r, fun r => (each r).fault r⟩
  learn _ := ⟨fun _ => ⟨List.suffix_refl _, rfl⟩, fun _ _ _ run => nomatch run⟩
  take := take
  diagnostics := block OverlayBlock.Moves.closed.diagnostics limits
  annotations := block OverlayBlock.Moves.closed.annotations limits

end Moves

end Reader

end GreenTree
