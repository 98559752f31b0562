import GreenTree.Stream.Repeat

/-!
Steps that keep a state also when they fail. A step after another succeeds exactly if both do, one
behind the other; a step that is repeated succeeds exactly if it does so each time.
-/

namespace GreenTree

variable {ε σ α β : Type}

theorem EStateM.bind_of_ok {x : EStateM ε σ α} {f : α → EStateM ε σ β} {s t : σ} {a : α}
    (run : x s = .ok a t) : (x >>= f) s = f a t := by
  change EStateM.bind x f s = _
  simp only [EStateM.bind, run]

theorem EStateM.bind_eq_ok_iff {x : EStateM ε σ α} {f : α → EStateM ε σ β}
    {s s' : σ} {b : β} :
    (x >>= f) s = .ok b s' ↔ ∃ a t, x s = .ok a t ∧ f a t = .ok b s' := by
  change EStateM.bind x f s = _ ↔ _
  unfold EStateM.bind
  cases x s <;> simp [and_assoc]

theorem EStateM.bind_eq_error_iff {x : EStateM ε σ α} {f : α → EStateM ε σ β}
    {s s' : σ} {e : ε} :
    (x >>= f) s = .error e s' ↔
      x s = .error e s' ∨ ∃ a t, x s = .ok a t ∧ f a t = .error e s' := by
  change EStateM.bind x f s = _ ↔ _
  unfold EStateM.bind
  cases x s <;> simp [and_assoc]

theorem EStateM.pure_eq_ok_iff {a b : α} {s s' : σ} :
    (pure a : EStateM ε σ α) s = .ok b s' ↔ a = b ∧ s = s' := by
  change EStateM.Result.ok a s = .ok b s' ↔ _
  simp

def stateAfter : EStateM.Result ε σ α → σ
  | .ok _ s | .error _ s => s

theorem stateAfter_bind (x : EStateM ε σ α) (f : α → EStateM ε σ β) (s : σ) :
    stateAfter ((x >>= f) s) = match x s with
      | .ok a t => stateAfter (f a t)
      | .error _ t => t := by
  change stateAfter (EStateM.bind x f s) = _
  unfold EStateM.bind
  cases x s <;> rfl

/-- Whether a step ends as wanted if nothing is against it, and otherwise stops for the first thing
that is. -/
def Ends (goes : α → σ → Prop) (stopped : σ → Prop) (result : EStateM.Result ε σ α) :
    List ε → Prop
  | [] => ∃ a s, result = .ok a s ∧ goes a s
  | e :: _ => ∃ s, result = .error e s ∧ stopped s

theorem Ends.mono {goes goes' : α → σ → Prop} {stopped : σ → Prop}
    {result : EStateM.Result ε σ α} {against : List ε} (ends : Ends goes stopped result against)
    (weaker : ∀ a s, goes a s → goes' a s) : Ends goes' stopped result against := by
  cases against with
  | nil =>
    obtain ⟨a, s, run, wanted⟩ := ends
    exact ⟨a, s, run, weaker a s wanted⟩
  | cons e others => exact ends

theorem Ends.bind {x : EStateM ε σ α} {f : α → EStateM ε σ β} {goes : α → σ → Prop}
    {goes' : β → σ → Prop} {stopped : σ → Prop} {s : σ} {against against' : List ε}
    (first : Ends goes stopped (x s) against)
    (next : ∀ a t, goes a t → Ends goes' stopped (f a t) against') :
    Ends goes' stopped ((x >>= f) s) (against ++ against') := by
  cases against with
  | nil =>
    obtain ⟨a, t, run, wanted⟩ := first
    rw [List.nil_append, EStateM.bind_of_ok run]
    exact next a t wanted
  | cons e others =>
    obtain ⟨t, run, level⟩ := first
    exact ⟨t, EStateM.bind_eq_error_iff.2 (.inl run), level⟩

/-- Results in order, each got in the state that the one before it left. -/
inductive Chain (step : σ → α → σ → Prop) : σ → List α → σ → Prop
  | nil (s : σ) : Chain step s [] s
  | cons {s t u : σ} {a : α} {as : List α} : step s a t → Chain step t as u →
      Chain step s (a :: as) u

private theorem repeatInto_eq_ok_iff {item : EStateM ε σ α} {count : Nat} {done all : Array α}
    {s s' : σ} : repeatInto item count done s = .ok all s' ↔
      ∃ as, all.toList = done.toList ++ as ∧ as.length = count ∧
        Chain (fun s a t => item s = .ok a t) s as s' := by
  induction count generalizing done s with
  | zero =>
    rw [repeatInto, EStateM.pure_eq_ok_iff]
    constructor
    · rintro ⟨rfl, rfl⟩
      exact ⟨[], by simp, rfl, .nil s⟩
    · rintro ⟨as, same, empty, chain⟩
      obtain rfl := List.length_eq_zero_iff.1 empty
      cases chain
      exact ⟨Array.ext' (by simpa using same.symm), rfl⟩
  | succ count ih =>
    rw [repeatInto, EStateM.bind_eq_ok_iff]
    constructor
    · rintro ⟨a, t, first, rest⟩
      obtain ⟨as, same, rfl, chain⟩ := ih.1 rest
      exact ⟨a :: as, by simpa using same, rfl, .cons first chain⟩
    · rintro ⟨as, same, length, chain⟩
      cases chain with
      | nil => simp at length
      | @cons _ t _ a as first rest =>
        refine ⟨a, t, first, ih.2 ⟨as, by simpa using same, by simpa using length, rest⟩⟩

theorem repeated_eq_ok_iff {item : EStateM ε σ α} {count : Nat} {as : List α} {s s' : σ} :
    repeated count item s = .ok as s' ↔
      as.length = count ∧ Chain (fun s a t => item s = .ok a t) s as s' := by
  unfold repeated
  simp only [EStateM.bind_eq_ok_iff, EStateM.pure_eq_ok_iff, repeatInto_eq_ok_iff]
  constructor
  · rintro ⟨all, t, ⟨as, same, length, chain⟩, rfl, rfl⟩
    have : all.toList = as := by simpa using same
    exact this ▸ ⟨length, chain⟩
  · rintro ⟨length, chain⟩
    exact ⟨as.toArray, s', ⟨as, by simp, length, chain⟩, by simp, rfl⟩

private theorem chain_of_repeatInto_eq_error {item : EStateM ε σ α} {count : Nat}
    {done : Array α} {s s' : σ} {e : ε} (run : repeatInto item count done s = .error e s') :
    ∃ as t, Chain (fun s a t => item s = .ok a t) s as t ∧ item t = .error e s' := by
  induction count generalizing done s with
  | zero => cases run
  | succ count ih =>
    rw [repeatInto] at run
    rcases EStateM.bind_eq_error_iff.1 run with run | ⟨a, t, first, rest⟩
    · exact ⟨[], s, .nil s, run⟩
    · obtain ⟨as, u, chain, failed⟩ := ih rest
      exact ⟨a :: as, u, .cons first chain, failed⟩

private theorem repeatInto_eq_error_of_chain {item : EStateM ε σ α} {count : Nat}
    {done : Array α} {as : List α} {s t s' : σ} {e : ε}
    (chain : Chain (fun s a t => item s = .ok a t) s as t) (more : as.length < count)
    (failed : item t = .error e s') :
    repeatInto item count done s = .error e s' := by
  induction chain generalizing count done with
  | nil =>
    obtain ⟨count, rfl⟩ := Nat.exists_eq_add_one_of_ne_zero (Nat.ne_of_gt more)
    exact EStateM.bind_eq_error_iff.2 (.inl failed)
  | cons first _ ih =>
    obtain ⟨count, rfl⟩ :=
      Nat.exists_eq_add_one_of_ne_zero (Nat.ne_of_gt (Nat.zero_lt_of_lt more))
    exact EStateM.bind_eq_error_iff.2
      (.inr ⟨_, _, first, ih (Nat.lt_of_succ_lt_succ more) failed⟩)

theorem repeated_eq_error_of_chain {item : EStateM ε σ α} {count : Nat} {as : List α}
    {s t s' : σ} {e : ε} (chain : Chain (fun s a t => item s = .ok a t) s as t)
    (more : as.length < count) (failed : item t = .error e s') :
    repeated count item s = .error e s' :=
  EStateM.bind_eq_error_iff.2 (.inl (repeatInto_eq_error_of_chain chain more failed))

theorem chain_of_repeated_eq_error {item : EStateM ε σ α} {count : Nat} {s s' : σ} {e : ε}
    (run : repeated count item s = .error e s') :
    ∃ as t, Chain (fun s a t => item s = .ok a t) s as t ∧ item t = .error e s' := by
  rcases EStateM.bind_eq_error_iff.1 run with run | ⟨_, _, _, run⟩
  · exact chain_of_repeatInto_eq_error run
  · cases run

theorem Chain.keeps {step : σ → α → σ → Prop} (kept : σ → Prop)
    (each : ∀ {s a t}, kept s → step s a t → kept t) {s t : σ} {as : List α}
    (chain : Chain step s as t) (start : kept s) : kept t := by
  induction chain with
  | nil => exact start
  | cons first _ ih => exact ih (each start first)

private theorem repeatInto_eq_of_drains {item : EStateM ε σ α} {kept : σ → Prop}
    {left : σ → Nat}
    (drains : ∀ {s a t}, kept s → item s = .ok a t → kept t ∧ left t < left s)
    {most : Nat} :
    ∀ {count : Nat} {s : σ} {done : Array α}, kept s → left s < most → most ≤ count →
      repeatInto item count done s = repeatInto item most done s := by
  induction most with
  | zero => exact fun _ enough _ => absurd enough (Nat.not_lt_zero _)
  | succ most ih =>
    intro count s done start enough many
    obtain ⟨count, rfl⟩ :=
      Nat.exists_eq_add_one_of_ne_zero (Nat.ne_of_gt (Nat.zero_lt_of_lt many))
    change EStateM.bind item _ s = EStateM.bind item _ s
    unfold EStateM.bind
    cases run : item s with
    | ok a t =>
      obtain ⟨start', less⟩ := drains start run
      exact ih start' (by omega) (by omega)
    | error e t => rfl

/-- A step that uses something up each time it succeeds is not repeated more often than there is
something left. -/
theorem repeated_eq_of_drains {item : EStateM ε σ α} {kept : σ → Prop} (left : σ → Nat)
    (drains : ∀ {s a t}, kept s → item s = .ok a t → kept t ∧ left t < left s)
    {count : Nat} {s : σ} (start : kept s) (many : left s < count) :
    repeated count item s = repeated (left s + 1) item s := by
  unfold repeated
  change EStateM.bind _ _ s = EStateM.bind _ _ s
  unfold EStateM.bind
  rw [repeatInto_eq_of_drains drains start (Nat.lt_succ_self _) many]

end GreenTree
