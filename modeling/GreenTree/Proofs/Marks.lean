import GreenTree.Proofs.Obtained

/-!
New marks against those a process has. The source of numbers counts up, so every mark that is made
differs from all that were made before. Reading a tree takes its marks over with their numbers and
does not move the source, so a mark that is made later can be one that was read.
-/

namespace GreenTree

def Element.Carries (t : Element) (a : Annotation) : Prop :=
  ∃ e : Element, e.Part t ∧ a ∈ e.overlay.annotations

/-- What a process has so far. -/
structure Process where
  source : IdSource := {}
  count : Nat := 0
  made : List Annotation := []
  copies : List Annotation := []
  read : List Element := []
  built : List Element := []

namespace Process

/-- Whether a mark came with a tree that was read. -/
def Foreign (p : Process) (a : Annotation) : Prop := ∃ t ∈ p.read, t.Carries a

def Has (p : Process) (a : Annotation) : Prop := a ∈ p.made ∨ a ∈ p.copies ∨ p.Foreign a

def make (p : Process) (kind data : Option String) : Annotation × Process :=
  let (a, source) := p.source.annotation kind data
  (a, { p with source, count := p.count + 1, made := a :: p.made })

/-- Processes after any marks were made and copied and any trees read and put together. -/
inductive Reached : Process → Prop
  | start : Reached {}
  | make {p : Process} (kind data : Option String) : Reached p → Reached (p.make kind data).2
  | copy {p : Process} {a : Annotation} : Reached p → p.Has a →
      Reached { p with copies := a :: p.copies }
  | read {p : Process} {limits : Limits} {bytes : List UInt8} {cell : Nat} {t : Element}
      {session : Reader} : Reached p →
      Reader.tree .standard limits { rest := bytes, nextCell := cell } = .ok t session →
      Reached { p with read := t :: p.read }
  | build {p : Process} {t : Element} : Reached p → (∀ a, t.Carries a → p.Has a) →
      Reached { p with built := t :: p.built }

/-- What holds of the numbers in a process: they were given out one after the other from one on. -/
structure Counted (p : Process) : Prop where
  next : p.source.next = UInt64.ofNat (p.count + 1)
  made : ∀ a ∈ p.made, ∃ k, k < p.count ∧ a.id = UInt64.ofNat (k + 1)
  copies : ∀ a ∈ p.copies, a ∈ p.made ∨ p.Foreign a
  built : ∀ t ∈ p.built, ∀ a, t.Carries a → p.Has a

theorem Foreign.later {p : Process} {a : Annotation} (foreign : p.Foreign a) (t : Element) :
    Foreign { p with read := t :: p.read } a := by
  obtain ⟨t', known, carries⟩ := foreign
  exact ⟨t', List.mem_cons_of_mem t known, carries⟩

theorem Reached.counted {p : Process} (reached : p.Reached) : p.Counted := by
  induction reached with
  | start =>
    refine ⟨rfl, ?_, ?_, ?_⟩
    · intro a impossible
      cases impossible
    · intro a impossible
      cases impossible
    · intro t impossible
      cases impossible
  | @make p kind data _ ih =>
    refine ⟨?_, ?_, ?_, ?_⟩
    · show p.source.next + 1 = _
      rw [ih.next]
      exact (UInt64.ofNat_add (p.count + 1) 1).symm
    · intro a h
      rcases List.mem_cons.1 h with rfl | old
      · exact ⟨p.count, Nat.lt_succ_self _, ih.next⟩
      · obtain ⟨k, less, same⟩ := ih.made a old
        exact ⟨k, Nat.lt_succ_of_lt less, same⟩
    · intro a h
      exact (ih.copies a h).imp (List.mem_cons_of_mem _) id
    · intro t h a carries
      exact (ih.built t h a carries).imp (List.mem_cons_of_mem _) id
  | @copy p a _ has ih =>
    refine ⟨ih.next, ih.made, ?_, ?_⟩
    · intro b h
      rcases List.mem_cons.1 h with rfl | old
      · rcases has with made | copied | foreign
        · exact .inl made
        · exact ih.copies b copied
        · exact .inr foreign
      · exact ih.copies b old
    · intro t h b carries
      rcases ih.built t h b carries with made | copied | foreign
      · exact .inl made
      · exact .inr (.inl (List.mem_cons_of_mem _ copied))
      · exact .inr (.inr foreign)
  | @read p limits bytes cell t session _ run ih =>
    refine ⟨ih.next, ih.made, ?_, ?_⟩
    · intro b h
      exact (ih.copies b h).imp id fun foreign => foreign.later t
    · intro t' h b carries
      exact (ih.built t' h b carries).imp id fun rest => rest.imp id fun foreign => foreign.later t
  | @build p t _ known ih =>
    refine ⟨ih.next, ih.made, ih.copies, ?_⟩
    intro t' h b carries
    rcases List.mem_cons.1 h with rfl | old
    · exact known b carries
    · exact ih.built t' old b carries

theorem Counted.id_make {p : Process} (counted : p.Counted) (few : p.count + 1 < UInt64.size)
    (kind data : Option String) : (p.make kind data).1.id.toNat = p.count + 1 := by
  change p.source.next.toNat = p.count + 1
  rw [counted.next, UInt64.toNat_ofNat', Nat.mod_eq_of_lt few]

theorem Counted.id_of_mem_made {p : Process} (counted : p.Counted) (few : p.count + 1 < UInt64.size)
    {a : Annotation} (known : a ∈ p.made) : a.id.toNat ≤ p.count := by
  obtain ⟨k, less, same⟩ := counted.made a known
  have small : k + 1 < UInt64.size := by omega
  rw [same, UInt64.toNat_ofNat', Nat.mod_eq_of_lt small]
  omega

theorem Counted.foreign_of_id {p : Process} (counted : p.Counted)
    (few : p.count + 1 < UInt64.size) {a : Annotation} (has : p.Has a)
    (same : a.id.toNat = p.count + 1) : p.Foreign a := by
  have notMade : a ∉ p.made := by
    intro known
    have := counted.id_of_mem_made few known
    omega
  rcases has with made | copied | foreign
  · exact absurd made notMade
  · exact (counted.copies a copied).resolve_left notMade
  · exact foreign

theorem Counted.has_of_carries {p : Process} (counted : p.Counted) {t : Element}
    (known : t ∈ p.read ∨ t ∈ p.built) {a : Annotation}
    (carries : t.Carries a) : p.Has a := by
  cases known with
  | inl read => exact .inr (.inr ⟨t, read, carries⟩)
  | inr built => exact counted.built t built a carries

theorem beq_iff_id {a b : Annotation} : (a == b) = true ↔ a.id = b.id := by
  simp

theorem Counted.make_beq_iff {p : Process} (counted : p.Counted) (few : p.count + 1 < UInt64.size)
    (kind data : Option String) {a : Annotation} (has : p.Has a) :
    ((p.make kind data).1 == a) = true ↔ p.Foreign a ∧ a.id.toNat = p.count + 1 := by
  have number := counted.id_make few kind data
  rw [beq_iff_id]
  constructor
  · intro same
    have same : a.id.toNat = p.count + 1 := by rw [← same, number]
    exact ⟨counted.foreign_of_id few has same, same⟩
  · intro clash
    apply UInt64.toNat_inj.1
    rw [number, clash.2]

/-- While numbers last, a new mark has a higher one than all that were made before. So it equals
none of those and no copy of one, and an element has it just where a mark was read that has its
number already. -/
theorem Reached.make_fresh_unless_read {p : Process} (reached : p.Reached)
    (few : p.count + 1 < UInt64.size) (kind data : Option String) :
    (∀ a, p.Has a →
      (((p.make kind data).1 == a) = true ↔ p.Foreign a ∧ a.id.toNat = p.count + 1)) ∧
    ∀ t, t ∈ p.read ∨ t ∈ p.built → ∀ e : Element, e.Part t →
      (e.hasAnnotation (p.make kind data).1 = true ↔
        ∃ a ∈ e.overlay.annotations, p.Foreign a ∧ a.id.toNat = p.count + 1) := by
  have counted := reached.counted
  have meets (a : Annotation) (has : p.Has a) := counted.make_beq_iff few kind data has
  refine ⟨meets, ?_⟩
  intro t known e part
  have number := counted.id_make few kind data
  rw [Element.hasAnnotation, List.any_eq_true]
  constructor
  · intro found
    obtain ⟨a, attached, same⟩ := found
    have same : ((p.make kind data).1 == a) = true := by
      rw [beq_iff_id] at same ⊢
      exact same.symm
    have has := counted.has_of_carries known ⟨e, part, attached⟩
    exact ⟨a, attached, (meets a has).1 same⟩
  · intro found
    obtain ⟨a, attached, -, same⟩ := found
    refine ⟨a, attached, ?_⟩
    rw [beq_iff_id]
    apply UInt64.toNat_inj.1
    rw [number, same]

/-- The stream of a name with the first mark of another process on it. -/
def markedName : List UInt8 :=
  streamMagic ++ [1, 25, 0, 0, 0, 0, 1, 1, 1, 0, 0, 0, 1, 0, 0, 0, 120, 0, 0, 0, 0, 0, 0, 0, 0]

private theorem read_markedName : ∃ t session,
    Reader.tree .standard .standard { rest := markedName, nextCell := 0 } = .ok t session ∧
      t.overlay.annotations = [⟨1, none, none⟩] := by
  have marks : ((Reader.tree .standard .standard).run'
      { rest := markedName, nextCell := 0 }).map (fun t => t.overlay.annotations) =
        some [⟨1, none, none⟩] := by decide +kernel
  unfold EStateM.run' at marks
  split at marks
  · rename_i t session read
    exact ⟨t, session, read, Option.some.inj marks⟩
  · cases marks

/-- A new mark can be one that is there already: the first one that a process makes is the one that
it read. -/
theorem not_always_fresh : ¬ ∀ p : Process, p.Reached → p.count + 1 < UInt64.size →
    ∀ kind data : Option String, (∀ a, p.Has a → ((p.make kind data).1 == a) = false) ∧
      ∀ t, t ∈ p.read ∨ t ∈ p.built → t.hasAnnotation (p.make kind data).1 = false := by
  intro fresh
  obtain ⟨t, session, read, marked⟩ := read_markedName
  have reached : Reached { read := [t] } := .read .start read
  have few : 0 + 1 < UInt64.size := by decide
  have unmarked := (fresh _ reached few none none).2 t (.inl List.mem_cons_self)
  simp [Element.hasAnnotation, marked, make, IdSource.annotation] at unmarked

theorem make_fresh_unless_read_markedName : ∃ (p : Process) (t : Element), p.Reached ∧
    p.count + 1 < UInt64.size ∧ t ∈ p.read ∧ p.Has ⟨1, none, none⟩ ∧
    ((p.make (some "kind") none).1 == ⟨1, none, none⟩) = true ∧
    t.hasAnnotation (p.make (some "kind") none).1 = true := by
  obtain ⟨t, session, read, marked⟩ := read_markedName
  have reached : Reached { read := [t] } := .read .start read
  have few : 0 + 1 < UInt64.size := by decide
  have attached : ⟨1, none, none⟩ ∈ t.overlay.annotations := by
    rw [marked]
    exact List.mem_cons_self
  have foreign : Foreign { read := [t] } ⟨1, none, none⟩ :=
    ⟨t, List.mem_cons_self, t, .self t, attached⟩
  have found := reached.make_fresh_unless_read few (some "kind") none
  have equal := (found.1 ⟨1, none, none⟩ (.inr (.inr foreign))).2 ⟨foreign, rfl⟩
  have onTree := (found.2 t (.inl List.mem_cons_self) t (.self t)).2 ⟨_, attached, foreign, rfl⟩
  exact ⟨_, t, reached, few, List.mem_cons_self, .inr (.inr foreign), equal, onTree⟩

end Process

end GreenTree
