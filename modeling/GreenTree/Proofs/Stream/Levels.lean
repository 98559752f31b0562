import GreenTree.Proofs.Stream.Moving

/-!
Levels. Whole records are read by readers that have fewer levels left the deeper they are. Where the
limit is reached the header refuses, so having no level left changes nothing: the levels can be left
out, and whole records are read in terms of the records in them, whatever the readers of kinds are.
There is only one way to do so.
-/

namespace GreenTree.Reader

variable {α β : Type} {limits : Limits} {registry : Registry} {depth : Nat}

/-- Whether a reader leaves the number of open records as it is, also when it fails. -/
def Level (read : Read α) : Prop := ∀ r, (stateAfter (read r)).depth = r.depth

namespace Level

theorem pure (a : α) : Level (pure a) := fun _ => rfl

theorem fail (e : ReadError) : Level (fail e : Read α) := fun _ => rfl

theorem of_moves {read : Read α} (moves : Moves read) : Level read :=
  fun r => (moves.state r).depth

theorem bind {read : Read α} {next : α → Read β} (first : Level read)
    (second : ∀ a, Level (next a)) : Level (read >>= next) := by
  intro r
  have before := first r
  rw [stateAfter_bind]
  cases run : read r with
  | ok a s =>
    rw [run] at before
    exact (second a s).trans before
  | error failure s =>
    rw [run] at before
    exact before

theorem freshCell : Level freshCell := fun _ => rfl

theorem built (made : Except Fault α) : Level (built made) := by
  intro r
  cases made with
  | ok a => rfl
  | error cause => cases cause <;> rfl

theorem intern (kind : Kind) (text : String) : Level (intern kind text) := by
  intro r
  rw [intern_eq]
  cases Interner.ask r.nextCell kind text r.interner <;> rfl

end Level

/-- Whether so many records are open at the end, which need not be so if that is a fault. -/
def EndsAt (depth : Nat) : EStateM.Result ReadFailure Reader α → Prop
  | .ok _ s | .error (.error _) s => s.depth = depth
  | .error (.fault _) _ => True

/-- Whether two readers do the same wherever so many records are open, and leave as many open. -/
def Coincide (depth : Nat) (read read' : Read α) : Prop :=
  ∀ r : Reader, r.depth = depth → read' r = read r ∧ EndsAt depth (read r)

namespace Coincide

theorem of_level {read : Read α} (level : Level read) : Coincide depth read read := by
  intro r here
  have kept := (level r).trans here
  refine ⟨rfl, ?_⟩
  cases run : read r with
  | ok a s =>
    rw [run] at kept
    exact kept
  | error failure s =>
    rw [run] at kept
    cases failure with
    | error e => exact kept
    | fault cause => trivial

theorem bind {read read' : Read α} {next next' : α → Read β} (head : Coincide depth read read')
    (tail : ∀ a, Coincide depth (next a) (next' a)) :
    Coincide depth (read >>= next) (read' >>= next') := by
  intro r here
  obtain ⟨same, ends⟩ := head r here
  change EStateM.bind read' next' r = EStateM.bind read next r ∧
    EndsAt depth (EStateM.bind read next r)
  simp only [EStateM.bind, same]
  cases run : read r with
  | ok a s =>
    rw [run] at ends
    exact tail a s ends
  | error failure s =>
    rw [run] at ends
    cases failure <;> exact ⟨rfl, ends⟩

theorem behind {read : Read α} {next next' : α → Read β} (level : Level read)
    (tail : ∀ a, Coincide depth (next a) (next' a)) :
    Coincide depth (read >>= next) (read >>= next') :=
  bind (of_level level) tail

private theorem repeatInto {item item' : Read α} (each : Coincide depth item item') (count : Nat)
    (done : Array α) :
    Coincide depth (repeatInto item count done) (repeatInto item' count done) := by
  induction count generalizing done with
  | zero => exact of_level (.pure done)
  | succ count ih => exact bind each fun a => ih (done.push a)

theorem repeated {item item' : Read α} (each : Coincide depth item item') (count : Nat) :
    Coincide depth (repeated count item) (repeated count item') :=
  bind (repeatInto each count #[]) fun _ => of_level (.pure _)

theorem stays {inside inside' : Read α} (within : Coincide (depth + 1) inside inside')
    (small : depth < maxSize) {r : Reader} (here : r.depth = depth) : StaysInside inside r := by
  have ends := (within { r with depth := r.depth + 1 } (congrArg (· + 1) here)).2
  refine ⟨here ▸ small, fun run => ?_, fun run => ?_⟩
  · rw [run] at ends
    exact ends ▸ Nat.succ_pos depth
  · rw [run] at ends
    exact ends ▸ Nat.succ_pos depth

theorem nested {inside inside' : Read α} (small : depth < maxSize)
    (within : Coincide (depth + 1) inside inside') :
    Coincide depth (nested inside) (nested inside') := by
  intro r here
  obtain ⟨same, ends⟩ := within { r with depth := r.depth + 1 } (congrArg (· + 1) here)
  refine ⟨nested_congr same, ?_⟩
  rw [nested_eq (within.stays small here)]
  cases run : inside { r with depth := r.depth + 1 } with
  | ok a s =>
    rw [run] at ends
    exact congrArg (· - 1) ends
  | error failure s =>
    rw [run] at ends
    cases failure with
    | error e => exact congrArg (· - 1) ends
    | fault cause => trivial

theorem triviaContents (h : RecordHeader) :
    Coincide depth (triviaContents limits h) (triviaContents limits h) := by
  refine of_level ?_
  unfold Reader.triviaContents
  dsimp only
  split
  · exact .fail _
  · refine .bind (.of_moves (Moves.plain limits).text) fun text => ?_
    split
    · exact .bind (.intern _ _) fun _ => .pure _
    · exact .bind .freshCell fun _ => .bind (.built _) fun _ => .pure _

variable {inner inner' : Inner}
  (within : ∀ allowed expected, Coincide depth (inner allowed expected) (inner' allowed expected))

include within

theorem triviaRecord : Coincide depth (triviaRecord inner) (triviaRecord inner') := by
  refine bind (within _ _) fun e => of_level ?_
  cases e with
  | trivia t => exact .pure t
  | token t => exact .fail _
  | node n => exact .fail _

theorem triviaList : Coincide depth (triviaList inner) (triviaList inner') :=
  behind (.of_moves ((Moves.plain .standard).fixed 4)) (repeated (triviaRecord within))

theorem tokenContents (h : RecordHeader) :
    Coincide depth (tokenContents limits inner h) (tokenContents limits inner' h) := by
  unfold Reader.tokenContents
  dsimp only
  split
  · exact of_level (.fail _)
  · refine behind (.of_moves (Moves.plain limits).text) fun _ => ?_
    refine bind (triviaList within) fun _ => bind (triviaList within) fun _ => ?_
    exact of_level (.bind .freshCell fun _ => .bind (.built _) fun _ => .pure _)

theorem nodeContents (h : RecordHeader) :
    Coincide depth (nodeContents inner h) (nodeContents inner' h) := by
  unfold Reader.nodeContents
  dsimp only
  split
  · exact of_level (.fail _)
  · refine behind (.of_moves ((Moves.plain .standard).fixed 4)) fun count => ?_
    refine bind (repeated (within _ _) count) fun _ => ?_
    exact of_level (.bind .freshCell fun _ => .bind (.built _) fun _ => .pure _)

theorem answer (request : Request) :
    Coincide depth (answer limits inner request) (answer limits inner' request) := by
  have plain := Moves.plain limits
  cases request with
  | byte => exact of_level (.of_moves (plain.fixed 1))
  | half => exact of_level (.of_moves (plain.fixed 2))
  | word => exact of_level (.of_moves (plain.fixed 4))
  | flag => exact of_level (.of_moves plain.flag)
  | length => exact of_level (.of_moves (plain.fixed 4))
  | text => exact of_level (.of_moves plain.text)
  | diagnostics => exact of_level (.of_moves plain.diagnostics)
  | annotations => exact of_level (.of_moves plain.annotations)
  | element allowed expected => exact within allowed expected
  | trivia => exact triviaRecord within
  | intern kind text => exact of_level (.intern kind text)

theorem follow (script : Script α) :
    Coincide depth (follow limits inner script) (follow limits inner' script) := by
  induction script with
  | done a => exact of_level (.pure a)
  | fail failure => exact of_level fun _ => rfl
  | cell next ih => exact behind .freshCell ih
  | ask request next ih =>
    intro r here
    have answers : Coincide depth (Reader.answer limits inner request)
        (Reader.answer limits inner' request) := answer within request
    obtain ⟨same, ends⟩ := answers r here
    simp only [Reader.follow, same]
    cases run : Reader.answer limits inner request r with
    | ok a s =>
      rw [run] at ends
      exact ih _ s ends
    | error failure s =>
      rw [run] at ends
      cases failure with
      | error e => exact ih _ s ends
      | fault cause => exact ⟨rfl, ends⟩

theorem contents (h : RecordHeader) (reader : RecordReader) :
    Coincide depth (contents limits inner h reader) (contents limits inner' h reader) := by
  cases reader with
  | trivia => exact triviaContents h
  | token => exact tokenContents within h
  | node => exact nodeContents within h
  | script script => exact follow within (script h)

end Coincide

theorem Coincide.recordWith {inner inner' : Inner} (room : depth < limits.maxDepth.toNat)
    (within : ∀ allowed expected,
      Coincide (depth + 1) (inner allowed expected) (inner' allowed expected))
    (allowed : KindSet) (expected : String) :
    Coincide depth (recordWith registry limits inner allowed expected)
      (recordWith registry limits inner' allowed expected) := by
  have head := (Moves.plain limits).header registry allowed expected
  refine behind (.of_moves head) fun opening => behind (fun _ => rfl) fun _ => ?_
  exact nested (limits.lt_maxSize room) (contents within opening.1 opening.2)

/-- Where records may not nest any deeper, none is begun. -/
theorem recordWith_of_deep (inner : Inner) {r : Reader} (deep : limits.maxDepth.toNat ≤ r.depth)
    (allowed : KindSet) (expected : String) : recordWith registry limits inner allowed expected r =
      .error (.error (.tooDeep limits.maxDepth.toNat)) r := by
  apply recordWith_of_error
  unfold header
  refine EStateM.bind_eq_error_iff.2 (.inr ⟨r, r, rfl, ?_⟩)
  rw [if_pos deep]
  rfl

theorem Solves.coincides {inner : Inner} (solves : Solves registry limits inner) {levels : Nat}
    (total : depth + levels = limits.maxDepth.toNat) (allowed : KindSet) (expected : String) :
    Coincide depth (record registry limits levels allowed expected) (inner allowed expected) := by
  have whole : inner = Reader.recordWith registry limits inner :=
    funext fun allowed => funext fun expected => funext (solves allowed expected)
  refine record_induction (motive := fun depth own => ∀ allowed expected,
    Coincide depth (own allowed expected) (inner allowed expected)) ?_ ?_ total allowed expected
  · intro allowed expected r here
    rw [whole, recordWith_of_deep inner (Nat.le_of_eq here.symm)]
    exact ⟨rfl, here⟩
  · intro depth own room same allowed expected
    rw [whole]
    exact .recordWith room same allowed expected

theorem record_coincides {levels : Nat} (total : depth + levels = limits.maxDepth.toNat)
    (allowed : KindSet) (expected : String) :
    Coincide depth (record registry limits levels allowed expected)
      (record registry limits levels allowed expected) := by
  refine record_induction (motive := fun depth own => ∀ allowed expected,
    Coincide depth (own allowed expected) (own allowed expected)) ?_ ?_ total allowed expected
  · exact fun _ _ => .of_level (.fail _)
  · exact fun _ _ room same => .recordWith room same

theorem element_solves (registry : Registry) (limits : Limits) :
    Solves registry limits (element registry limits) := by
  intro allowed expected r
  change record registry limits (limits.maxDepth.toNat - r.depth) allowed expected r = _
  rcases Nat.lt_or_ge r.depth limits.maxDepth.toNat with room | deep
  · have enough : limits.maxDepth.toNat - r.depth =
        limits.maxDepth.toNat - (r.depth + 1) + 1 := by omega
    have within : ∀ allowed expected, Coincide (r.depth + 1)
        (record registry limits (limits.maxDepth.toNat - (r.depth + 1)) allowed expected)
        (element registry limits allowed expected) := by
      intro allowed expected s here
      refine ⟨?_, (record_coincides (by omega) allowed expected s here).2⟩
      rw [← here]
      rfl
    rw [enough, record_succ]
    exact (Coincide.recordWith room within allowed expected r rfl).1.symm
  · rw [recordWith_of_deep _ deep, Nat.sub_eq_zero_of_le deep]
    rfl

/-- Reading whole records at the level that the session is at is the only way to read them in terms
of the records in them. -/
theorem solves_iff {inner : Inner} :
    Solves registry limits inner ↔ inner = element registry limits := by
  constructor
  · intro solves
    funext allowed expected r
    rcases Nat.lt_or_ge r.depth limits.maxDepth.toNat with room | deep
    · exact (solves.coincides (by omega) allowed expected r rfl).1
    · rw [solves, element_solves, recordWith_of_deep _ deep, recordWith_of_deep _ deep]
  · rintro rfl
    exact element_solves registry limits

end GreenTree.Reader
