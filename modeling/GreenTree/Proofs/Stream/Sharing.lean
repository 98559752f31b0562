import GreenTree.Element.Sharing
import GreenTree.Proofs.Occurrences
import GreenTree.Proofs.Stream.Ledger
import Mathlib.Data.List.Flatten

/-!
Shared trivia. Trivia with nothing attached come out of the interner of their session, which keeps
one run for each kind and text; trivia with something attached are made anew each time. So two runs
of trivia that a session gave out are one object exactly if nothing is attached to either and they
agree in kind and text, wherever in the stream they stand and however their texts and overlays were
spelled.
-/

namespace GreenTree

/-- Whether two runs of trivia can take each other's place: nothing is attached to either, and they
agree in kind and text. -/
def Trivia.Interchangeable (s t : Trivia) : Prop :=
  s.head.overlay.isEmpty = true ∧ t.head.overlay.isEmpty = true ∧ s.head.kind = t.head.kind ∧
    s.text = t.text

namespace Reader

/-- What holds of the trivia that a session gave out, one entry for each place, and of those that it
shares: the bare ones are among the shared ones, and every other one has a cell of its own. -/
structure Shared (given : List Trivia) (r : Reader) : Prop where
  sound : r.interner.Sound
  neat : r.interner.Neat
  below : ∀ t ∈ r.interner.entries, t.cell < r.nextCell
  bare : ∀ t ∈ given, t.head.overlay.isEmpty = true → t ∈ r.interner.entries
  own : ∀ t ∈ given, t.head.overlay.isEmpty = false →
    t.cell < r.nextCell ∧ ∀ s ∈ r.interner.entries, s.cell ≠ t.cell
  apart : given.Pairwise fun s t =>
    s.head.overlay.isEmpty = false → t.head.overlay.isEmpty = false → s.cell ≠ t.cell

namespace Shared

variable {given : List Trivia} {r : Reader}

theorem start (bytes : List UInt8) (cell : Nat) :
    Shared [] { rest := bytes, nextCell := cell } where
  sound := Interner.sound_empty
  neat := .empty
  below _ listed := absurd listed List.not_mem_nil
  bare _ none := absurd none List.not_mem_nil
  own _ none := absurd none List.not_mem_nil
  apart := .nil

theorem leaves {r' : Reader} (shared : Shared given r) (same : r'.supply = r.supply) :
    Shared given r' := by
  obtain ⟨cells, entries⟩ := Prod.mk.inj same
  obtain ⟨sound, neat, below, bare, own, apart⟩ := shared
  rw [← entries] at sound neat below bare own
  rw [← cells] at below own
  exact ⟨sound, neat, below, bare, own, apart⟩

theorem fewer {given' : List Trivia} (shared : Shared given r) (fewer : given'.Sublist given) :
    Shared given' r where
  sound := shared.sound
  neat := shared.neat
  below := shared.below
  bare t mem := shared.bare t (fewer.subset mem)
  own t mem := shared.own t (fewer.subset mem)
  apart := shared.apart.sublist fewer

theorem later (shared : Shared given r) : Shared given { r with nextCell := r.nextCell + 1 } where
  sound := shared.sound
  neat := shared.neat
  below t mem := Nat.lt_succ_of_lt (shared.below t mem)
  bare := shared.bare
  own t mem attached :=
  ⟨Nat.lt_succ_of_lt (shared.own t mem attached).1, (shared.own t mem attached).2⟩
  apart := shared.apart

theorem granted (shared : Shared given r) {kind : Kind} {text : String} {t : Trivia} {i : Interner}
    (asked : Interner.ask r.nextCell kind text r.interner = .ok t i) :
    Shared (given ++ [t]) { r with nextCell := r.nextCell + 1, interner := i } := by
  have listed (s : Trivia) := Interner.mem_entries_of_ask asked (s := s)
  have free (s : Trivia) (mem : s ∈ r.interner.entries) : s.cell ≠ r.nextCell :=
    Nat.ne_of_lt (shared.below s mem)
  obtain ⟨⟨-, meant⟩, sound⟩ := shared.sound.ask asked
  have nothing : t.head.overlay.isEmpty = true := by rw [(TriviaBlueprint.mk.inj meant).2.2]; rfl
  refine ⟨sound, (shared.neat.ask free).1 t i asked, ?_, ?_, ?_, ?_⟩
  · intro s mem
    rcases (listed s).1 mem with old | rfl
    · exact Nat.lt_succ_of_lt (shared.below s old)
    · rcases Interner.cell_of_ask asked with old | new
      · exact Nat.lt_succ_of_lt (shared.below s old)
      · exact new ▸ Nat.lt_succ_self _
  · exact List.forall_mem_append.2
      ⟨fun s mem bare => (listed s).2 (.inl (shared.bare s mem bare)),
      List.forall_mem_singleton.2 fun _ => (listed t).2 (.inr rfl)⟩
  · refine List.forall_mem_append.2 ⟨fun s mem attached => ?_,
      List.forall_mem_singleton.2 fun attached => by simp [nothing] at attached⟩
    obtain ⟨small, away⟩ := shared.own s mem attached
    refine ⟨Nat.lt_succ_of_lt small, fun u mem' => ?_⟩
    rcases (listed u).1 mem' with old | rfl
    · exact away u old
    · rcases Interner.cell_of_ask asked with old | new
      · exact away u old
      · exact new ▸ (Nat.ne_of_lt small).symm
  · refine List.pairwise_append.2 ⟨shared.apart, List.pairwise_singleton _ _,
      fun s _ u mem _ attached => ?_⟩
    rw [List.mem_singleton.1 mem, nothing] at attached
    cases attached

theorem denied (shared : Shared given r) {kind : Kind} {text : String} {cause : Fault}
    {i : Interner} (asked : Interner.ask r.nextCell kind text r.interner = .error cause i) :
    Shared given { r with nextCell := r.nextCell + 1, interner := i } := by
  have free (s : Trivia) (mem : s ∈ r.interner.entries) : s.cell ≠ r.nextCell :=
    Nat.ne_of_lt (shared.below s mem)
  have neat := (shared.neat.ask free).2 cause i asked
  obtain ⟨-, -, rfl⟩ := Interner.ask_eq_error_iff.1 asked
  obtain ⟨sound, -, below, bare, own, apart⟩ := shared.later
  rw [Interner.Sound, ← Interner.entries_opened kind] at sound
  simp only [← Interner.entries_opened kind r.interner] at below bare own
  exact ⟨sound, neat, below, bare, own, apart⟩

theorem made (shared : Shared given r) {t : Trivia} (new : t.cell = r.nextCell)
    (attached : t.head.overlay.isEmpty = false) :
    Shared (given ++ [t]) { r with nextCell := r.nextCell + 1 } := by
  obtain ⟨sound, neat, below, bare, own, apart⟩ := shared.later
  refine ⟨sound, neat, below, ?_, ?_, ?_⟩
  · exact List.forall_mem_append.2
      ⟨bare, List.forall_mem_singleton.2 fun bare => by simp [attached] at bare⟩
  · exact List.forall_mem_append.2 ⟨own, List.forall_mem_singleton.2 fun _ =>
      ⟨new ▸ Nat.lt_succ_self _, fun s mem => new ▸ Nat.ne_of_lt (shared.below s mem)⟩⟩
  · refine List.pairwise_append.2 ⟨apart, List.pairwise_singleton _ _,
      fun s mem u mem' attached _ => ?_⟩
    rw [List.mem_singleton.1 mem', new]
    exact Nat.ne_of_lt (shared.own s mem attached).1

theorem pairwise (shared : Shared given r) :
    given.Pairwise fun s t => s.cell = t.cell ↔ s.Interchangeable t := by
  unfold Trivia.Interchangeable
  refine shared.apart.imp_of_mem fun {s t} mem mem' apart => ?_
  cases bare : s.head.overlay.isEmpty <;> cases bare' : t.head.overlay.isEmpty
  · simpa using apart bare bare'
  · simpa using ((shared.own s mem bare).2 t (shared.bare t mem' bare')).symm
  · simpa using (shared.own t mem' bare').2 s (shared.bare s mem bare)
  · have listed := shared.bare s mem bare
    have listed' := shared.bare t mem' bare'
    constructor
    · intro same
      rw [shared.neat.cells s listed t listed' same]
      exact ⟨rfl, rfl, rfl, rfl⟩
    · rintro ⟨-, -, sameKind, sameText⟩
      rw [shared.neat.eq_of_agree listed listed' sameKind sameText]

end Shared

/-- Whatever a session makes or shares goes on to be shared as it should. -/
theorem shared_ledger : Elements fun given r => Shared (given.flatMap Element.allTrivia) r where
  leaves shared same _ := shared.leaves same
  left := id
  back shared same _ := shared.leaves same
  fewer shared := shared.fewer ((List.sublist_append_left _ _).flatMap _)
  later := Shared.later
  denied shared asked := shared.denied asked
  visit _ shared := by
    rw [List.append_nil]
    exact shared.leaves rfl
  granted := by
    intro given r kind text t i shared asked
    rw [List.append_nil] at shared
    simpa using shared.granted asked
  trivia := by
    intro given r kind text overlay t shared attached made
    obtain ⟨width, rfl⟩ := Trivia.eq_of_make made
    rw [List.append_nil] at shared
    simpa using shared.made rfl attached
  token := by
    intro given r kind missing text leading trailing overlay t shared made
    obtain ⟨width, before, behind, rfl⟩ := Token.eq_of_make made
    rw [List.nil_append, ← List.map_eq_flatMap] at shared
    simpa [List.flatMap_map] using shared.later
  node := by
    intro given children r kind missing overlay n shared made
    obtain ⟨width, rfl⟩ := Node.eq_of_make made
    rw [List.nil_append, List.flatMap_singleton'] at shared
    simpa using shared.later

/-- Sessions with the elements that they have given out, in order. A request that fails gives
none. -/
inductive Gave (limits : Limits) : List Element → Reader → Prop
  | start (bytes : List UInt8) (cell : Nat) : Gave limits [] { rest := bytes, nextCell := cell }
  | answered {es : List Element} {r r' : Reader} {request : Request} {a : request.Answer} :
      Gave limits es r →
      serve .standard limits request r = .ok a r' → Gave limits (es ++ request.elements a) r'
  | failed {es : List Element} {r r' : Reader} {request : Request} {failure : ReadFailure} :
      Gave limits es r →
      serve .standard limits request r = .error failure r' → Gave limits es r'

theorem Gave.shared {limits : Limits} {es : List Element} {r : Reader} (gave : Gave limits es r) :
    Shared (es.flatMap Element.allTrivia) r := by
  induction gave with
  | start bytes cell => exact .start bytes cell
  | @answered es r r' request a _ run shared =>
    exact (serve_tracks shared_ledger limits request es r (by simpa using shared)).1 a r' run
  | @failed es r r' request failure _ run shared =>
    exact (serve_tracks shared_ledger limits request es r (by simpa using shared)).2 failure r' run

/-- Of the trivia in a tree that was read, and of those in everything that a session gave out one
after the other, two are one object exactly if they are interchangeable. -/
theorem shared_iff_interchangeable (limits : Limits) :
    (∀ bytes cell e r, tree .standard limits { rest := bytes, nextCell := cell } = .ok e r →
      e.allTrivia.Pairwise fun s t => s.cell = t.cell ↔ s.Interchangeable t) ∧
    ∀ es r, Gave limits es r →
      (es.flatMap Element.allTrivia).Pairwise fun s t =>
        s.cell = t.cell ↔ s.Interchangeable t := by
  constructor
  · intro bytes cell e r run
    have shared := (tree_tracks shared_ledger limits [] _ (.start bytes cell)).1 e r run
    simpa using shared.pairwise
  · intro es r gave
    exact gave.shared.pairwise

def blanks : List UInt8 :=
  [12, 0, 0, 0, 0, 0, 0, 1, 0, 0, 0, 44, 1, 0, 0, 0, 0, 0, 0, 0, 0, 0, 0, 1, 0, 0, 0, 32,
    2, 0, 0, 0, 0, 0, 0, 0, 1, 0, 1, 0, 1, 1, 0, 0, 0, 0, 0, 0, 0, 0, 1, 1, 5, 0, 0, 1, 1, 0, 0, 0,
    0, 0, 0, 0, 0, 0, 1, 1, 0, 0, 0]

theorem shared_iff_interchangeable_blanks :
    (∃ e r, tree .standard .standard { rest := streamMagic ++ 1 :: blanks } = .ok e r ∧
    e.sharing = [0, 0, 2] ∧
      e.allTrivia.Pairwise fun s t => s.cell = t.cell ↔ s.Interchangeable t) ∧
    ∃ e t r, Gave .standard [e, .trivia t] r ∧
      Element.firstPlaces ((e.allTrivia ++ [t]).map Trivia.cell) = [0, 0, 2, 0] ∧
      (e.allTrivia ++ [t]).Pairwise fun s t => s.cell = t.cell ↔ s.Interchangeable t := by
  constructor
  · have read : ((tree .standard .standard).run' { rest := streamMagic ++ 1 :: blanks }).map
      Element.sharing =
        some [0, 0, 2] := by decide +kernel
    unfold EStateM.run' at read
    split at read
    · rename_i e r run
      exact ⟨e, r, run, Option.some.inj read,
        (shared_iff_interchangeable .standard).1 _ _ e r run⟩
    · cases read
  · have read : ((do
        let e : Element ← serve .standard .standard (.element .all "green")
        let t : Trivia ← serve .standard .standard .trivia
        return Element.firstPlaces ((e.allTrivia ++ [t]).map Trivia.cell) : Read (List Nat)).run'
          { rest := blanks }) =
        some [0, 0, 2, 0] := by decide +kernel
    unfold EStateM.run' at read
    split at read
    · rename_i places r run
      obtain ⟨e, r₁, run₁, run⟩ := EStateM.bind_eq_ok_iff.1 run
      obtain ⟨t, r₂, run₂, run⟩ := EStateM.bind_eq_ok_iff.1 run
      obtain ⟨rfl, -⟩ := EStateM.pure_eq_ok_iff.1 run
      have start : Gave .standard [] { rest := blanks } := .start blanks 0
      have second : Gave .standard [e, .trivia t] r₂ := (start.answered run₁).answered run₂
      have apart := (shared_iff_interchangeable .standard).2 _ _ second
      rw [List.flatMap_cons, List.flatMap_singleton, Element.allTrivia_trivia] at apart
      exact ⟨e, t, r₂, second, Option.some.inj read, apart⟩
    · cases read

end Reader

end GreenTree
