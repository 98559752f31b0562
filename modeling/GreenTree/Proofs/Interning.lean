import GreenTree.Interner
import GreenTree.Proofs.Making
import GreenTree.Proofs.Stream.Steps
import Mathlib.Data.List.Dedup

/-!
Interners over whole runs of calls. A call opens the shelf of its kind, finds the run of trivia that
was given out for its text before or makes one and puts it there; a call that is refused leaves an
empty shelf behind at most. Whatever was asked for before, an interner gives out sound runs with
nothing attached, one for each kind and text.
-/

namespace GreenTree

@[simp] theorem Shelf.kind_put (t : Trivia) (s : Shelf) : (s.put t).kind = s.kind := by
  unfold put
  split <;> rfl

theorem Shelf.runs_put (t : Trivia) (s : Shelf) :
    (s.put t).runs = if t.head.kind = s.kind then s.runs ++ [t] else s.runs := by
  unfold put
  split <;> rfl

theorem Shelf.mem_put {s : Shelf} {t u : Trivia} :
    u ∈ (s.put t).runs ↔ u ∈ s.runs ∨ u = t ∧ t.head.kind = s.kind := by
  rw [runs_put]
  split
  · simp [*]
  · simp [*]

theorem Shelf.find?_eq_some {s : Shelf} {text : String} {t : Trivia}
    (found : s.find? text = some t) :
    t ∈ s.runs ∧ t.head.kind = s.kind ∧ t.text = text := by
  have listed := List.mem_of_find?_eq_some found
  exact ⟨listed, s.own t listed, by simpa using List.find?_some found⟩

namespace Interner

variable {i i' : Interner} {cell : Nat} {kind : Kind} {text : String} {t : Trivia}

theorem mem_entries : t ∈ i.entries ↔ ∃ s ∈ i.shelves, t ∈ s.runs := List.mem_flatMap

theorem size_eq (i : Interner) : i.size = i.entries.length := by
  unfold size entries
  induction i.shelves with
  | nil => rfl
  | cons s shelves ih => rw [List.foldr_cons, List.flatMap_cons, List.length_append, ih]

theorem find?_eq_some (found : i.find? kind text = some t) :
    t ∈ i.entries ∧ t.head.kind = kind ∧ t.text = text := by
  obtain ⟨s, shelf, found⟩ := Option.bind_eq_some_iff.1 found
  obtain ⟨listed, sameKind, sameText⟩ := Shelf.find?_eq_some found
  have own : s.kind = kind := by simpa using List.find?_some shelf
  exact ⟨mem_entries.2 ⟨s, List.mem_of_find?_eq_some shelf, listed⟩,
    sameKind.trans own, sameText⟩

@[simp] theorem entries_opened (kind : Kind) (i : Interner) :
    (i.opened kind).entries = i.entries := by
  unfold opened
  split
  · rfl
  · simp [entries]

theorem exists_mem_opened (kind : Kind) (i : Interner) :
    ∃ s ∈ (i.opened kind).shelves, s.kind = kind := by
  unfold opened
  split
  · rename_i there
    simpa using there
  · exact ⟨{ kind := kind }, by simp, rfl⟩

theorem find?_opened (kind kind' : Kind) (text : String) (i : Interner) :
    (i.opened kind).find? kind' text = i.find? kind' text := by
  unfold opened
  split
  · rfl
  · unfold find?
    rw [List.find?_append]
    cases i.shelves.find? fun s => s.kind == kind' with
    | some s => rfl
    | none =>
      rw [Option.none_or, List.find?_singleton]
      split <;> rfl

theorem mem_entries_put {s : Trivia} :
    s ∈ ((i.opened t.head.kind).put t).entries ↔ s ∈ i.entries ∨ s = t := by
  have listed : s ∈ ((i.opened t.head.kind).put t).entries ↔
      ∃ place ∈ (i.opened t.head.kind).shelves, s ∈ (place.put t).runs := by
    simp [mem_entries, put]
  rw [listed, ← entries_opened t.head.kind i, mem_entries]
  constructor
  · rintro ⟨place, inside, last⟩
    rcases Shelf.mem_put.1 last with old | ⟨rfl, -⟩
    · exact .inl ⟨place, inside, old⟩
    · exact .inr rfl
  · rintro (⟨place, inside, old⟩ | rfl)
    · exact ⟨place, inside, Shelf.mem_put.2 (.inl old)⟩
    · obtain ⟨place, inside, same⟩ := exists_mem_opened s.head.kind i
      exact ⟨place, inside, Shelf.mem_put.2 (.inr ⟨rfl, same.symm⟩)⟩

private theorem ask_eq : ask cell kind text i = match i.find? kind text with
    | some t => .ok t (i.opened kind)
    | none => match Trivia.make cell kind text .empty with
      | .ok t => .ok t ((i.opened kind).put t)
      | .error cause => .error cause (i.opened kind) := by
  have looked : ask cell kind text i = (match (i.opened kind).find? kind text with
      | some t => pure t
      | none => match Trivia.make cell kind text .empty with
        | .ok t => (do modify (put t); return t)
        | .error cause => throw cause : EStateM Fault Interner Trivia) (i.opened kind) := rfl
  rw [looked, find?_opened]
  cases i.find? kind text with
  | some known => rfl
  | none => cases Trivia.make cell kind text .empty <;> rfl

theorem ask_eq_ok_iff : ask cell kind text i = .ok t i' ↔
    (i.find? kind text = some t ∧ i' = i.opened kind) ∨
      (i.find? kind text = none ∧ Trivia.make cell kind text .empty = .ok t ∧
        i' = (i.opened kind).put t) := by
  rw [ask_eq]
  cases i.find? kind text with
  | some known => simp [eq_comm]
  | none =>
    cases Trivia.make cell kind text .empty with
    | ok new =>
      simp only [EStateM.Result.ok.injEq, Except.ok.injEq, reduceCtorEq, false_and,
        true_and, false_or]
      constructor
      · rintro ⟨rfl, rfl⟩
        exact ⟨rfl, rfl⟩
      · rintro ⟨rfl, rfl⟩
        exact ⟨rfl, rfl⟩
    | error cause => simp

theorem ask_eq_error_iff {cause : Fault} : ask cell kind text i = .error cause i' ↔
    i.find? kind text = none ∧ Trivia.make cell kind text .empty = .error cause ∧
      i' = i.opened kind := by
  rw [ask_eq]
  cases i.find? kind text with
  | some known => simp
  | none =>
    cases Trivia.make cell kind text .empty with
    | ok new => simp
    | error fault => simp [eq_comm]

theorem intern_eq_ok_iff :
    i.intern cell kind text = .ok (t, i') ↔ ask cell kind text i = .ok t i' := by
  unfold intern
  cases ask cell kind text i <;> simp

/-- Every run of trivia that an interner gives out is sound and has nothing attached. -/
def Sound (i : Interner) : Prop := ∀ t ∈ i.entries, t.Sound ∧ t.head.overlay = .empty

theorem sound_empty : Sound {} := by
  simp [Sound, entries]

theorem Sound.ask (sound : i.Sound) (run : ask cell kind text i = .ok t i') :
    (t.Sound ∧ t.blueprint = ⟨kind, text, .empty⟩) ∧ i'.Sound := by
  rcases ask_eq_ok_iff.1 run with ⟨found, rfl⟩ | ⟨-, made, rfl⟩
  · obtain ⟨listed, rfl, rfl⟩ := find?_eq_some found
    obtain ⟨own, bare⟩ := sound t listed
    refine ⟨⟨own, by rw [Trivia.blueprint, bare]⟩, ?_⟩
    rwa [Sound, entries_opened]
  · obtain ⟨own, -, meant⟩ := (Trivia.make_eq_ok_iff Overlay.addressable_empty).1 made
    obtain rfl : t.head.kind = kind := congrArg TriviaBlueprint.kind meant
    refine ⟨⟨own, meant⟩, fun s listed => ?_⟩
    rcases mem_entries_put.1 listed with old | rfl
    · exact sound s old
    · exact ⟨own, congrArg TriviaBlueprint.overlay meant⟩

theorem Sound.refuse {cause : Fault} (sound : i.Sound)
    (run : Interner.ask cell kind text i = .error cause i') : i'.Sound := by
  obtain ⟨-, -, rfl⟩ := ask_eq_error_iff.1 run
  rwa [Sound, entries_opened]

theorem Sound.intern (sound : i.Sound) (run : i.intern cell kind text = .ok (t, i')) :
    (t.Sound ∧ t.blueprint = ⟨kind, text, .empty⟩) ∧ i'.Sound :=
  sound.ask (intern_eq_ok_iff.1 run)

theorem kind_of_ask (run : ask cell kind text i = .ok t i') : t.head.kind = kind := by
  rcases ask_eq_ok_iff.1 run with ⟨found, -⟩ | ⟨-, made, -⟩
  · exact (find?_eq_some found).2.1
  · obtain ⟨width, rfl⟩ := Trivia.eq_of_make made
    rfl

theorem exists_ask (i : Interner) (cell : Nat) (isTrivia : kind.isTrivia = true)
    (fits : text.utf8ByteSize ≤ maxSize) :
    ∃ t i', Interner.ask cell kind text i = .ok t i' := by
  cases found : i.find? kind text with
  | some known => exact ⟨known, _, ask_eq_ok_iff.2 (.inl ⟨found, rfl⟩)⟩
  | none =>
    exact ⟨_, _,
      ask_eq_ok_iff.2 (.inr ⟨found, Trivia.make_eq_ok cell .empty isTrivia fits, rfl⟩)⟩

theorem mem_entries_of_ask (run : ask cell kind text i = .ok t i') {s : Trivia} :
    s ∈ i'.entries ↔ s ∈ i.entries ∨ s = t := by
  have same := kind_of_ask run
  rcases ask_eq_ok_iff.1 run with ⟨found, rfl⟩ | ⟨-, -, rfl⟩
  · rw [entries_opened]
    exact ⟨.inl, fun listed => listed.elim id fun again => again ▸ (find?_eq_some found).1⟩
  · rw [← same, mem_entries_put]

theorem cell_of_ask (run : ask cell kind text i = .ok t i') :
    t ∈ i.entries ∨ t.cell = cell := by
  rcases ask_eq_ok_iff.1 run with ⟨found, -⟩ | ⟨-, made, -⟩
  · exact .inl (find?_eq_some found).1
  · obtain ⟨width, rfl⟩ := Trivia.eq_of_make made
    exact .inr rfl

/-- One shelf for each kind, one run for each text on a shelf, and no two runs in one cell. -/
structure Neat (i : Interner) : Prop where
  kinds : (i.shelves.map Shelf.kind).Nodup
  texts : ∀ s ∈ i.shelves, (s.runs.map Trivia.text).Nodup
  cells : ∀ s ∈ i.entries, ∀ t ∈ i.entries, s.cell = t.cell → s = t

namespace Neat

theorem empty : Neat {} :=
  ⟨.nil, fun _ listed => absurd listed List.not_mem_nil,
    fun _ listed => absurd listed List.not_mem_nil⟩

private theorem find?_of_nodup {α β : Type} [DecidableEq β] {f : α → β} {l : List α}
    (distinct : (l.map f).Nodup) {a : α} (listed : a ∈ l) :
    l.find? (fun b => f b == f a) = some a := by
  cases found : l.find? fun b => f b == f a with
  | none => simpa using List.find?_eq_none.1 found a listed
  | some b =>
    have same : f b = f a := by simpa using List.find?_some found
    rw [List.inj_on_of_nodup_map distinct (List.mem_of_find?_eq_some found) listed same]

theorem find?_eq_some_iff (neat : i.Neat) :
    i.find? kind text = some t ↔ t ∈ i.entries ∧ t.head.kind = kind ∧ t.text = text := by
  refine ⟨find?_eq_some, ?_⟩
  rintro ⟨listed, rfl, rfl⟩
  obtain ⟨s, inside, listed⟩ := mem_entries.1 listed
  unfold find? Shelf.find?
  rw [s.own t listed, find?_of_nodup neat.kinds inside]
  exact find?_of_nodup (neat.texts s inside) listed

theorem eq_of_agree (neat : i.Neat) {s : Trivia} (listed : s ∈ i.entries)
    (listed' : t ∈ i.entries) (sameKind : s.head.kind = t.head.kind)
    (sameText : s.text = t.text) : s = t :=
  Option.some.inj ((neat.find?_eq_some_iff.2 ⟨listed, sameKind, sameText⟩).symm.trans
    (neat.find?_eq_some_iff.2 ⟨listed', rfl, rfl⟩))

theorem opened (neat : i.Neat) (kind : Kind) : (i.opened kind).Neat := by
  refine ⟨?_, ?_, by simpa using neat.cells⟩
  · unfold Interner.opened
    split
    · exact neat.kinds
    · rename_i new
      have absent : kind ∉ i.shelves.map Shelf.kind := by simpa using new
      simpa [List.nodup_append] using ⟨neat.kinds, by simpa using absent⟩
  · unfold Interner.opened
    split
    · exact neat.texts
    · intro s inside
      rcases List.mem_append.1 inside with old | new
      · exact neat.texts s old
      · simp [List.mem_singleton.1 new]

private theorem put (neat : i.Neat) (new : i.find? t.head.kind t.text = none)
    (free : ∀ s ∈ i.entries, s.cell ≠ t.cell) : ((i.opened t.head.kind).put t).Neat := by
  have opened := neat.opened t.head.kind
  refine ⟨?_, ?_, ?_⟩
  · have same : Shelf.kind ∘ Shelf.put t = Shelf.kind := funext (Shelf.kind_put t)
    simpa only [Interner.put, List.map_map, same] using opened.kinds
  · intro s inside
    obtain ⟨place, before, rfl⟩ := List.mem_map.1 inside
    rw [Shelf.runs_put]
    split
    · rename_i same
      have absent : t.text ∉ place.runs.map Trivia.text := by
        intro there
        obtain ⟨u, listed, sameText⟩ := List.mem_map.1 there
        have known : u ∈ i.entries :=
          entries_opened t.head.kind i ▸ mem_entries.2 ⟨place, before, listed⟩
        have found : i.find? t.head.kind t.text = some u :=
          neat.find?_eq_some_iff.2 ⟨known, (place.own u listed).trans same.symm, sameText⟩
        rw [new] at found
        cases found
      rw [List.map_append, List.map_singleton, List.nodup_append_comm]
      exact List.nodup_cons.2 ⟨absent, opened.texts place before⟩
    · exact opened.texts place before
  · intro a listed b listed' same
    rcases mem_entries_put.1 listed with old | rfl <;>
      rcases mem_entries_put.1 listed' with old' | rfl
    · exact neat.cells a old b old' same
    · exact absurd same (free a old)
    · exact absurd same.symm (free b old')
    · rfl

/-- A call in a cell that is not in use keeps an interner neat, whether it is granted or not. -/
theorem ask (neat : i.Neat) (free : ∀ s ∈ i.entries, s.cell ≠ cell) :
    (∀ t i', Interner.ask cell kind text i = .ok t i' → i'.Neat) ∧
      ∀ cause i', Interner.ask cell kind text i = .error cause i' → i'.Neat := by
  constructor
  · intro t i' run
    rcases ask_eq_ok_iff.1 run with ⟨-, rfl⟩ | ⟨new, made, rfl⟩
    · exact neat.opened kind
    · obtain ⟨width, rfl⟩ := Trivia.eq_of_make made
      exact neat.put new free
  · intro cause i' run
    obtain ⟨-, -, rfl⟩ := ask_eq_error_iff.1 run
    exact neat.opened kind

theorem nodup_keys (neat : i.Neat) : (i.entries.map fun t => (t.head.kind, t.text)).Nodup := by
  unfold entries
  rw [List.map_flatMap, List.nodup_flatMap]
  refine ⟨fun s inside => ?_, ?_⟩
  · refine List.Nodup.of_map Prod.snd ?_
    rw [List.map_map]
    exact neat.texts s inside
  · refine (List.pairwise_map.1 neat.kinds).imp fun {a b} other => ?_
    rintro ⟨kind, text⟩ first second
    obtain ⟨s, listed, same⟩ := List.mem_map.1 first
    obtain ⟨t, listed', same'⟩ := List.mem_map.1 second
    have kinds : s.head.kind = t.head.kind :=
      (congrArg Prod.fst same).trans (congrArg Prod.fst same').symm
    exact other ((a.own s listed).symm.trans (kinds.trans (b.own t listed')))

end Neat

/-- What an interner is asked for, and the cell in which it is made if it is new. -/
structure Call where
  cell : Nat
  kind : Kind
  text : String

namespace Call

/-- Whether there can be such a run of trivia. -/
def Granted (c : Call) : Prop := c.kind.isTrivia = true ∧ c.text.utf8ByteSize ≤ maxSize

instance (c : Call) : Decidable c.Granted := inferInstanceAs (Decidable (_ ∧ _))

def key (c : Call) : Kind × String := (c.kind, c.text)

def refusal (c : Call) : Fault := if c.kind.isTrivia then .textTooLong else .notTrivia c.kind

def settle (c : Call) (i : Interner) : Except Fault Trivia × Interner :=
  match ask c.cell c.kind c.text i with
  | .ok t i => (.ok t, i)
  | .error cause i => (.error cause, i)

end Call

/-- The answers to calls in order and the interner after them. -/
def settle : List Call → Interner → List (Except Fault Trivia) × Interner
  | [], i => ([], i)
  | c :: calls, i =>
    let (answer, i) := c.settle i
    let (answers, i) := settle calls i
    (answer :: answers, i)

theorem settle_append (before later : List Call) (i : Interner) :
    settle (before ++ later) i = ((settle before i).1 ++ (settle later (settle before i).2).1,
      (settle later (settle before i).2).2) := by
  induction before generalizing i with
  | nil => rfl
  | cons c before ih => simp only [List.cons_append, settle, ih]

def Call.Answered (c : Call) (answer : Except Fault Trivia) : Prop :=
  if c.Granted then ∃ t, answer = .ok t ∧ t.Sound ∧ t.head.kind = c.kind ∧
    t.text = c.text ∧ t.head.overlay = .empty
  else answer = .error c.refusal

theorem Call.Answered.eq_of_ok {c : Call} (answered : c.Answered (.ok t)) :
    t.head.kind = c.kind ∧ t.text = c.text := by
  unfold Answered at answered
  split at answered
  · obtain ⟨s, same, -, sameKind, sameText, -⟩ := answered
    obtain rfl := Except.ok.inj same
    exact ⟨sameKind, sameText⟩
  · cases answered

theorem Call.answer_eq (c : Call) (i : Interner) : (c.settle i).1 =
    match i.find? c.kind c.text with
    | some t => .ok t
    | none => Trivia.make c.cell c.kind c.text .empty := by
  unfold settle
  rw [ask_eq]
  cases i.find? c.kind c.text with
  | some t => rfl
  | none => cases Trivia.make c.cell c.kind c.text .empty <;> rfl

/-- An interner between calls in given cells: its runs are sound and bare, neatly kept, and in other
cells. -/
structure Kept (cells : List Nat) (i : Interner) : Prop where
  sound : i.Sound
  neat : i.Neat
  free : ∀ t ∈ i.entries, t.cell ∉ cells

namespace Kept

variable {c : Call} {calls : List Call} {cells : List Nat}

theorem empty (cells : List Nat) : Kept cells {} :=
  ⟨sound_empty, .empty, fun _ listed => absurd listed List.not_mem_nil⟩

theorem settle_call (kept : Kept (c.cell :: cells) i) (apart : c.cell ∉ cells) :
    c.Answered (c.settle i).1 ∧ Kept cells (c.settle i).2 ∧
      ∀ t, t ∈ (c.settle i).2.entries ↔ t ∈ i.entries ∨ (c.settle i).1 = .ok t := by
  have away (t : Trivia) (listed : t ∈ i.entries) : t.cell ≠ c.cell :=
    fun same => kept.free t listed (same ▸ List.mem_cons_self)
  have free (t : Trivia) (listed : t ∈ i.entries) : t.cell ∉ cells :=
    fun inside => kept.free t listed (List.mem_cons_of_mem _ inside)
  unfold Call.settle Call.Answered
  cases run : Interner.ask c.cell c.kind c.text i with
  | ok t i' =>
    obtain ⟨⟨own, meant⟩, sound⟩ := kept.sound.ask run
    obtain ⟨sameKind, sameText, bare⟩ := TriviaBlueprint.mk.inj meant
    have granted : c.Granted :=
      ⟨sameKind ▸ own.kind, sameText ▸ own.fullWidth ▸ own.fits⟩
    refine ⟨?_, ⟨sound, (kept.neat.ask away).1 t i' run, fun s listed => ?_⟩, fun s => ?_⟩
    · rw [if_pos granted]
      exact ⟨t, rfl, own, sameKind, sameText, bare⟩
    · rcases (mem_entries_of_ask run).1 listed with old | rfl
      · exact free s old
      · rcases cell_of_ask run with old | new
        · exact free s old
        · exact new ▸ apart
    · rw [mem_entries_of_ask run, Except.ok.injEq, eq_comm]
  | error cause i' =>
    obtain ⟨-, refused, rfl⟩ := ask_eq_error_iff.1 run
    refine ⟨?_, ⟨?_, (kept.neat.ask away).2 cause _ run,
      fun s listed => free s (by simpa using listed)⟩, by simp⟩
    · have cannot : ¬c.Granted := by
        rintro ⟨isTrivia, fits⟩
        exact Trivia.make_ne_error isTrivia fits cause refused
      have same : cause = c.refusal := by
        unfold Call.refusal
        rcases Trivia.cause_of_make refused with ⟨other, rfl⟩ | ⟨isTrivia, -, rfl⟩
        · simp [other]
        · simp [isTrivia]
      rw [if_neg cannot, same]
    · rw [Sound, entries_opened]
      exact kept.sound

/-- A run of calls: the runs of trivia that are kept afterwards are those from before and those
given out. -/
theorem settle (kept : Kept (calls.map Call.cell ++ cells) i)
    (apart : (calls.map Call.cell ++ cells).Nodup) :
    List.Forall₂ Call.Answered calls (settle calls i).1 ∧ Kept cells (settle calls i).2 ∧
      ∀ t, t ∈ (settle calls i).2.entries ↔ t ∈ i.entries ∨
        .ok t ∈ (settle calls i).1 := by
  induction calls generalizing i with
  | nil => exact ⟨.nil, kept, fun t => by simp [Interner.settle]⟩
  | cons c calls ih =>
    obtain ⟨new, apart⟩ := List.nodup_cons.1 apart
    obtain ⟨answered, kept', first⟩ := settle_call kept new
    obtain ⟨all, last, others⟩ := ih kept' apart
    refine ⟨.cons answered all, last, fun t => ?_⟩
    simp only [Interner.settle, List.mem_cons, others t, first t, or_assoc, eq_comm]

theorem settle_congr {i' : Interner} (kept : Kept (calls.map Call.cell) i)
    (kept' : Kept (calls.map Call.cell) i') (apart : (calls.map Call.cell).Nodup)
    (same : ∀ t, t ∈ i.entries ↔ t ∈ i'.entries) :
    (Interner.settle calls i).1 = (Interner.settle calls i').1 ∧
      (Interner.settle calls i).2.size = (Interner.settle calls i').2.size := by
  induction calls generalizing i i' with
  | nil =>
    refine ⟨rfl, ?_⟩
    rw [size_eq, size_eq]
    exact ((List.perm_ext_iff_of_nodup kept.neat.nodup_keys.of_map kept'.neat.nodup_keys.of_map).2
      same).length_eq
  | cons c calls ih =>
    obtain ⟨new, apart⟩ := List.nodup_cons.1 apart
    obtain ⟨-, next, first⟩ := settle_call kept new
    obtain ⟨-, next', first'⟩ := settle_call kept' new
    have found : i.find? c.kind c.text = i'.find? c.kind c.text := by
      refine Option.ext fun t => ?_
      rw [kept.neat.find?_eq_some_iff, kept'.neat.find?_eq_some_iff, same]
    have answer : (c.settle i).1 = (c.settle i').1 := by
      rw [c.answer_eq, c.answer_eq, found]
    obtain ⟨answers, size⟩ := ih next next' apart fun t => by rw [first, first', same, answer]
    exact ⟨congrArg₂ List.cons answer answers, size⟩

private theorem exists_answer_iff {answers : List (Except Fault Trivia)}
    (answered : List.Forall₂ Call.Answered calls answers) (k : Kind × String) :
    (∃ t : Trivia, .ok t ∈ answers ∧ (t.head.kind, t.text) = k) ↔
      ∃ c ∈ calls, c.Granted ∧ c.key = k := by
  induction answered with
  | nil => simp
  | @cons c answer calls answers first _ ih =>
    rw [List.exists_mem_cons_iff, ← ih]
    unfold Call.Answered at first
    split at first
    · rename_i granted
      obtain ⟨s, rfl, -, sameKind, sameText, -⟩ := first
      have key : c.key = (s.head.kind, s.text) := by rw [Call.key, sameKind, sameText]
      simp only [List.mem_cons, Except.ok.injEq, or_and_right, exists_or, exists_eq_left, granted,
        true_and, key]
    · rename_i refused
      subst first
      simp [refused]

theorem size_settle (apart : (calls.map Call.cell).Nodup) : (Interner.settle calls {}).2.size =
    ((calls.filter fun c => c.Granted).map Call.key).dedup.length := by
  obtain ⟨answered, last, held⟩ :=
    (Kept.empty (calls.map Call.cell ++ [])).settle (by simpa using apart)
  have same (k : Kind × String) :
      k ∈ (Interner.settle calls {}).2.entries.map (fun t => (t.head.kind, t.text)) ↔
        k ∈ ((calls.filter fun c => c.Granted).map Call.key).dedup := by
    have given := exists_answer_iff answered k
    have none (t : Trivia) : t ∉ ({} : Interner).entries := List.not_mem_nil
    simpa only [List.mem_map, List.mem_dedup, List.mem_filter, held, none, false_or,
      decide_eq_true_eq, and_assoc] using given
  rw [size_eq, ← List.length_map (fun t : Trivia => (t.head.kind, t.text))]
  exact ((List.perm_ext_iff_of_nodup last.neat.nodup_keys (List.nodup_dedup _)).2 same).length_eq

/-- A refused call in the middle of a run changes nothing for the calls behind it. -/
theorem settle_refused {before later : List Call} (refused : ¬c.Granted)
    (apart : ((before ++ c :: later).map Call.cell).Nodup) :
    (Interner.settle (before ++ c :: later) {}).1 = (Interner.settle before {}).1 ++
    .error c.refusal ::
        (Interner.settle later (Interner.settle before {}).2).1 ∧
      (Interner.settle (before ++ c :: later) {}).2.size =
        (Interner.settle later (Interner.settle before {}).2).2.size := by
  rw [List.map_append, List.map_cons] at apart
  obtain ⟨-, kept, -⟩ := (Kept.empty _).settle apart
  obtain ⟨new, apart⟩ := List.nodup_cons.1 (List.nodup_append.1 apart).2.1
  obtain ⟨answered, kept', first⟩ := settle_call kept new
  have answer : (c.settle (Interner.settle before {}).2).1 = .error c.refusal := by
    rwa [Call.Answered, if_neg refused] at answered
  have without : Kept (later.map Call.cell) (Interner.settle before {}).2 :=
    ⟨kept.sound, kept.neat, fun t listed inside =>
      kept.free t listed (List.mem_cons_of_mem _ inside)⟩
  obtain ⟨answers, size⟩ := settle_congr kept' without apart fun t => by
    rw [first, answer]
    simp
  rw [settle_append]
  simp only [Interner.settle, answer, answers, size, and_self]

end Kept

/-- Whatever calls an interner gets, each that can be granted is answered with a bare run of its
kind and text, two answers are in one cell exactly if their calls agree in kind and text, and the
interner keeps as many runs as different ones were granted. A call that is refused changes neither
that number nor any later answer. -/
theorem settle_interns (calls : List Call) (apart : (calls.map Call.cell).Nodup) :
    let (answers, i) := settle calls {}
    List.Forall₂ Call.Answered calls answers ∧
    (∀ c d s t, (c, .ok s) ∈ calls.zip answers → (d, .ok t) ∈ calls.zip answers →
      (s.cell = t.cell ↔ c.kind = d.kind ∧ c.text = d.text)) ∧
    i.size = ((calls.filter fun c => c.Granted).map Call.key).dedup.length ∧
    (i.isEmpty = true ↔ i.size = 0) ∧
    ∀ before c later, calls = before ++ c :: later → ¬c.Granted →
      let (answers', i') := settle before {}
      let (answers'', i'') := settle later i'
      answers = answers' ++ .error c.refusal :: answers'' ∧ i.size = i''.size := by
  obtain ⟨answered, last, held⟩ :=
    (Kept.empty (calls.map Call.cell ++ [])).settle (by simpa using apart)
  refine ⟨answered, ?_, Kept.size_settle apart, beq_iff_eq, ?_⟩
  · intro c d s t first second
    obtain ⟨sameKind, sameText⟩ := (List.forall₂_zip answered first).eq_of_ok
    obtain ⟨sameKind', sameText'⟩ := (List.forall₂_zip answered second).eq_of_ok
    have listed := (held s).2 (.inr (List.of_mem_zip first).2)
    have listed' := (held t).2 (.inr (List.of_mem_zip second).2)
    rw [← sameKind, ← sameText, ← sameKind', ← sameText']
    constructor
    · intro same
      rw [last.neat.cells s listed t listed' same]
      exact ⟨rfl, rfl⟩
    · rintro ⟨kinds, texts⟩
      rw [last.neat.eq_of_agree listed listed' kinds texts]
  · rintro before c later rfl refused
    exact Kept.settle_refused refused apart

def spacesAndCommas : List Call :=
  [⟨0, .whitespaceTrivia, " "⟩, ⟨1, .comma, " "⟩, ⟨2, .disabledTextTrivia, " "⟩,
    ⟨3, .comma, ","⟩, ⟨4, .whitespaceTrivia, " "⟩]

theorem settle_interns_spacesAndCommas : (spacesAndCommas.map Call.cell).Nodup ∧
    (settle spacesAndCommas {}).2.size = 2 ∧
    (settle spacesAndCommas {}).1.map (fun answer => answer.toOption.map Trivia.cell) =
      [some 0, none, some 2, none, some 0] := by
  have apart : (spacesAndCommas.map Call.cell).Nodup := by decide
  obtain ⟨-, -, size, -, -⟩ := settle_interns spacesAndCommas apart
  exact ⟨apart, size.trans (by decide), by decide⟩

end Interner

end GreenTree
