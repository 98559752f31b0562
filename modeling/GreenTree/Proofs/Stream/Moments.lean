import GreenTree.Proofs.Stream.Extension

/-!
Moments of a session. What a session has begun by the time it has read some bytes is what it begins
if there are no other bytes: it ends there because they end too early, or it had ended before. So
what holds of every session that ended, whatever its bytes were, held at each moment of it.
-/

namespace GreenTree.Reader

variable {α β : Type} {limits : Limits} {depth : Nat}

/-- Whether a reader goes on from what was begun before, and has begun no less with more bytes, of
which those it had are the first. -/
structure Unfolds (limits : Limits) (depth : Nat) (read : Read α) :
    Prop extends Stable limits depth read where
  grows : ∀ {r}, r.Fit limits depth → r.visits.toList <+: (stateAfter (read r)).visits.toList
  cut : ∀ {r} suffix, r.Fit limits depth →
    (stateAfter (read r)).visits.toList <+: (stateAfter (read (r.extend suffix))).visits.toList

theorem visits_outside (result : EStateM.Result ReadFailure Reader α) :
    (stateAfter (outside result)).visits = (stateAfter result).visits := by
  obtain ⟨level, same⟩ := stateAfter_outside result
  rw [same]

theorem visits_block (decode : OverlayBlock.Decode α) (r : Reader) :
    (stateAfter (block limits decode r)).visits = r.visits := by
  unfold Reader.block
  split <;> rfl

namespace Unfolds

theorem quiet {read : Read α} (stable : Stable limits depth read)
    (same : ∀ r, (stateAfter (read r)).visits = r.visits) : Unfolds limits depth read where
  toStable := stable
  grows {r} _ := by simpa only [same] using List.prefix_refl r.visits.toList
  cut {r} suffix _ := by
    have kept : (r.extend suffix).visits = r.visits := rfl
    simpa only [same, kept] using List.prefix_refl r.visits.toList

theorem bind {read : Read α} {next : α → Read β} {post : α → Prop}
    (gives : Gives limits depth read post) (head : Unfolds limits depth read)
    (tail : ∀ a, post a → Unfolds limits depth (next a)) :
    Unfolds limits depth (read >>= next) where
  toStable := .bind gives head.toStable fun a given => (tail a given).toStable
  grows := by
    intro r fit
    have first := head.grows fit
    rw [stateAfter_bind]
    cases run : read r with
    | ok a t =>
      rw [run] at first
      obtain ⟨fit', given⟩ := gives.ok fit run
      exact first.trans ((tail a given).grows fit')
    | error f t =>
      rw [run] at first
      exact first
  cut := by
    intro r suffix fit
    have first := head.cut suffix fit
    rw [stateAfter_bind, stateAfter_bind]
    cases run : read r with
    | ok a t =>
      obtain ⟨fit', given⟩ := gives.ok fit run
      rw [head.ok suffix fit run]
      exact (tail a given).cut suffix fit'
    | error f t =>
      rw [run] at first
      cases longer : read (r.extend suffix) with
      | ok a t' =>
        rw [longer] at first
        obtain ⟨fit', given⟩ := gives.ok (fit.extend suffix) longer
        exact first.trans ((tail a given).grows fit')
      | error f' t' =>
        rw [longer] at first
        exact first

theorem nested {inside : Read α} {post : α → Prop} (small : depth < maxSize)
    (gives : Gives limits (depth + 1) inside post) (unfolds : Unfolds limits (depth + 1) inside) :
    Unfolds limits depth (nested inside) where
  toStable := .nested small gives unfolds.toStable
  grows := by
    intro r fit
    rw [nested_eq (gives.stays small fit), visits_outside]
    exact unfolds.grows fit.deeper
  cut := by
    intro r suffix fit
    rw [nested_eq (gives.stays small fit), nested_eq (gives.stays small (fit.extend suffix)),
      visits_outside, visits_outside]
    exact unfolds.cut suffix fit.deeper

theorem change {f : Reader → Reader} (blind : ∀ r rest, f { r with rest } = { f r with rest })
    (begun : ∀ r, r.visits.toList <+: (f r).visits.toList) : Unfolds limits depth (modify f) where
  toStable := .change blind
  grows {r} _ := begun r
  cut {r} suffix _ := by
    have same : (f (r.extend suffix)).visits = (f r).visits := by rw [Reader.extend, blind]
    change (f r).visits.toList <+: (f (r.extend suffix)).visits.toList
    exact same ▸ List.prefix_refl _

theorem closed : Closed limits fun _ => Unfolds limits where
  pure depth a := quiet (Stable.closed.pure depth a) fun _ => rfl
  fail depth e := quiet (Stable.closed.fail depth e) fun _ => rfl
  bind := bind
  look := by
    intro α depth next blind each
    have stable := Stable.closed.look blind fun r fit => (each r fit).toStable
    have same (r : Reader) (suffix : List UInt8) : (get >>= next) (r.extend suffix) =
        next r (r.extend suffix) :=
      congrFun (blind r (r.rest ++ suffix)) (r.extend suffix)
    refine ⟨stable, fun {r} fit => (each r fit).grows fit, fun {r} suffix fit => ?_⟩
    rw [same]
    exact (each r fit).cut suffix fit
  change := fun blind begun _ => change blind fun r => begun r ▸ List.prefix_refl _
  take := by
    intro depth count
    refine quiet (.take count) fun r => ?_
    unfold Reader.take
    split <;> rfl
  diagnostics depth := quiet (Stable.closed.diagnostics depth) (visits_block _)
  annotations depth := quiet (Stable.closed.annotations depth) (visits_block _)
  record := record_of_nested bind
    (fun _ _ => change (fun _ _ => rfl) fun _ => ⟨_, Array.toList_push.symm⟩) nested

theorem throw (cause : Fault) : Unfolds limits depth (throw (.fault cause) : Read α) := by
  refine quiet ⟨fun _ _ run => (nomatch run), fun _ _ run => ?_⟩ fun _ => rfl
  cases run
  exact .inr rfl

theorem serve {registry : Registry} (only : registry.OnlyStandard)
    (within : depth ≤ limits.maxDepth.toNat) (request : Request) :
    Follows (fun _ => Unfolds limits) limits depth (serve registry limits request) fun _ => True :=
  .serve closed (.of_only only) within request fun _ _ _ _ _ _ _ => throw _

end Unfolds

end GreenTree.Reader
