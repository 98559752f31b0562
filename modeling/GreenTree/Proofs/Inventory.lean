import GreenTree.Element.Path
import GreenTree.Proofs.Obtained

/-!
Inventories of objects. What is in use is closed under parts, every object in it lives in a cell of
its own, and all cells from some number on are free. Making an element in the first free cell from
parts in use keeps it so: the new element is the only object in its cell.
-/

namespace GreenTree

/-- Objects in use: with an object everything in it, no two in one cell, and none in a cell from
`next` on. -/
structure Inventory (known : Element → Prop) (next : Nat) : Prop where
  closed : ∀ {d e : Element}, known e → d.Part e → known d
  below : ∀ {e : Element}, known e → e.cell < next
  single : ∀ {a b : Element}, known a → known b → a.cell = b.cell → a = b

/-- Whether an element is in a cell and holds nothing but what is in use already. -/
structure Element.NewIn (known : Element → Prop) (cell : Nat) (e : Element) : Prop where
  cell : e.cell = cell
  parts : ∀ d : Element, d.Part e → d = e ∨ known d

namespace Inventory

variable {known : Element → Prop} {next : Nat}

theorem none (next : Nat) : Inventory (fun _ => False) next where
  closed impossible := impossible.elim
  below impossible := impossible.elim
  single impossible := impossible.elim

theorem later (inventory : Inventory known next) {next' : Nat} (more : next ≤ next') :
    Inventory known next' where
  closed := inventory.closed
  below used := Nat.lt_of_lt_of_le (inventory.below used) more
  single := inventory.single

theorem insert (inventory : Inventory known next) {e : Element} (new : e.NewIn known next) :
    Inventory (fun d => d = e ∨ known d) (next + 1) where
  closed := by
    intro c d used part
    rcases used with same | used
    · exact new.parts c (same ▸ part)
    · exact .inr (inventory.closed used part)
  below := by
    intro d used
    rcases used with same | used
    · rw [same, new.cell]
      omega
    · have small := inventory.below used
      omega
  single := by
    intro a b usedA usedB same
    have away {d : Element} (used : known d) : d.cell ≠ e.cell := by
      have small := inventory.below used
      have cell := new.cell
      omega
    rcases usedA with isA | usedA
    · rcases usedB with isB | usedB
      · rw [isA, isB]
      · rw [isA] at same
        exact absurd same.symm (away usedB)
    · rcases usedB with isB | usedB
      · rw [isB] at same
        exact absurd same (away usedA)
      · exact inventory.single usedA usedB same

end Inventory

section New

variable {known : Element → Prop} {next cell : Nat} {overlay : Overlay}

theorem Trivia.new_of_make {kind : Kind} {text : String} {t : Trivia}
    (made : make cell kind text overlay = .ok t) : (Element.trivia t).NewIn known cell := by
  obtain ⟨width, rfl⟩ := eq_of_make made
  exact ⟨rfl, fun d part => .inl (Element.part_trivia_iff.1 part)⟩

theorem Token.new_of_make {kind : Kind} {missing : Bool} {text : String}
    {leading trailing : List Trivia} {t : Token}
    (used : ∀ s ∈ leading ++ trailing, known (.trivia s))
    (made : make cell kind missing text leading trailing overlay = .ok t) :
    (Element.token t).NewIn known cell := by
  obtain ⟨width, before, behind, rfl⟩ := eq_of_make made
  refine ⟨rfl, fun d part => ?_⟩
  rcases Element.part_token_iff.1 part with same | ⟨s, inside, rfl⟩
  · exact .inl same
  · exact .inr (used s inside)

theorem Node.new_of_make (inventory : Inventory known next) {kind : Kind} {missing : Bool}
    {children : List Element} {n : Node Element} (used : ∀ c ∈ children, known c)
    (made : make cell kind missing children overlay = .ok n) :
    (Element.node n).NewIn known cell := by
  obtain ⟨width, rfl⟩ := eq_of_make made
  refine ⟨rfl, fun d part => ?_⟩
  rcases Element.part_node_iff.1 part with same | ⟨c, inside, below⟩
  · exact .inl same
  · exact .inr (inventory.closed (used c inside) below)

theorem Node.new_of_replaceChild (inventory : Inventory known next) {n n' : Node Element}
    {index : Nat} {child : Element} (used : known (.node n)) (usedChild : known child)
    (made : n.replaceChild cell index child = .ok n') : (Element.node n').NewIn known cell := by
  rw [replaceChild_eq_make] at made
  split at made
  · have old : ∀ c ∈ n.children, known c :=
      fun c inside => inventory.closed used (.child inside (.self c))
    exact new_of_make inventory (forall_mem_set old usedChild index) made
  · cases made

theorem Element.new_of_withOverlay (inventory : Inventory known next) {e e' : Element}
    (used : known e) (made : e.withOverlay cell overlay = .ok e') : e'.NewIn known cell := by
  cases e with
  | node n =>
    obtain ⟨n', built, rfl⟩ := map_eq_ok_iff.1 made
    rw [Node.withOverlay_eq_make] at built
    exact Node.new_of_make inventory
      (fun c inside => inventory.closed used (.child inside (.self c))) built
  | token t =>
    obtain ⟨t', built, rfl⟩ := map_eq_ok_iff.1 made
    rw [Token.withOverlay_eq_make] at built
    exact Token.new_of_make
      (fun s inside => inventory.closed used (part_token_iff.2 (.inr ⟨s, inside, rfl⟩))) built
  | trivia t =>
    obtain ⟨t', built, rfl⟩ := map_eq_ok_iff.1 made
    exact Trivia.new_of_make built

theorem Interner.entries_empty (known : Element → Prop) :
    ∀ s ∈ ({} : Interner).entries, known (.trivia s) :=
  fun _ shared => absurd shared List.not_mem_nil

/-- After an interner has answered, its answer and everything that it shares are in use. -/
theorem Inventory.ask (inventory : Inventory known cell) {i i' : Interner} {kind : Kind}
    {text : String} {t : Trivia} (used : ∀ s ∈ i.entries, known (.trivia s))
    (run : Interner.ask cell kind text i = .ok t i') :
    ∃ known' : Element → Prop, (∀ e, known e → known' e) ∧ known' (.trivia t) ∧
      Inventory known' (cell + 1) ∧ ∀ s ∈ i'.entries, known' (.trivia s) := by
  have same := Interner.kind_of_ask run
  rcases Interner.ask_eq_ok_iff.1 run with ⟨found, rfl⟩ | ⟨-, made, rfl⟩
  · refine ⟨known, fun _ inUse => inUse, used t (Interner.find?_eq_some found).1,
      inventory.later (Nat.le_succ _), ?_⟩
    rwa [Interner.entries_opened]
  · refine ⟨_, fun _ old => .inr old, .inl rfl, inventory.insert (Trivia.new_of_make made), ?_⟩
    intro s shared
    rcases Interner.mem_entries_put.1 (same ▸ shared) with old | last
    · exact .inr (used s old)
    · exact .inl (congrArg Element.trivia last)

end New

end GreenTree
