/-!
Doing one thing a number of times and keeping the results in order.
-/

namespace GreenTree

variable {m : Type → Type} [Monad m] {α : Type}

/-- The results of doing `item` a number of times, behind those in `done`. -/
@[specialize] def repeatInto (item : m α) : Nat → Array α → m (Array α)
  | 0, done => pure done
  | n + 1, done => do
    let a ← item
    repeatInto item n (done.push a)

@[inline] def repeated (count : Nat) (item : m α) : m (List α) := do
  return (← repeatInto item count #[]).toList

end GreenTree
