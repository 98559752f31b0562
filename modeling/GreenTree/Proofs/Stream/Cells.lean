import GreenTree.Proofs.Inventory
import GreenTree.Proofs.Stream.Ledger

/-!
Cells of what is read. A session makes everything anew in cells that are not in use, except for the
trivia that it shares, which it keeps. So whatever it gives out, and whatever it keeps after an
error, adds to the objects in use without putting two of them in one cell.
-/

namespace GreenTree.Reader

/-- Whether the shared trivia of a session are in use and its next cells are free. -/
structure Keeps (known : Element → Prop) (r : Reader) : Prop where
  inventory : Inventory known r.nextCell
  shared : ∀ t ∈ r.interner.entries, known (.trivia t)

/-- Whether a session keeps to objects in use that are at least the known ones and those that it
gave. -/
def Adds (known gives : Element → Prop) (r : Reader) : Prop :=
  ∃ known' : Element → Prop, (∀ e, known e → known' e) ∧ (∀ e, gives e → known' e) ∧
    r.Keeps known'

theorem Keeps.adds {known gives : Element → Prop} {r : Reader} (keeps : r.Keeps known)
    (used : ∀ e, gives e → known e) : r.Adds known gives :=
  ⟨known, fun _ old => old, used, keeps⟩

variable {known : Element → Prop} {given held : List Element} {r : Reader}

private theorem Adds.join (adds : r.Adds known (· ∈ given ++ held)) {e : Element}
    (new : ∀ known', Inventory known' r.nextCell → (∀ d ∈ held, known' d) →
      e.NewIn known' r.nextCell) :
    Adds known (· ∈ given ++ [e]) { r with nextCell := r.nextCell + 1 } := by
  obtain ⟨known', old, used, keeps⟩ := adds
  have joined := new known' keeps.inventory fun d mem => used d (List.mem_append_right _ mem)
  refine ⟨_, fun d before => .inr (old d before), fun d mem => ?_, keeps.inventory.insert joined,
    fun s shared => .inr (keeps.shared s shared)⟩
  rcases List.mem_append.1 mem with before | last
  · exact .inr (used d (List.mem_append_left _ before))
  · exact .inl (List.mem_singleton.1 last)

private theorem Adds.leaves (adds : r.Adds known (· ∈ given)) {r' : Reader}
    (same : r'.supply = r.supply) : r'.Adds known (· ∈ given) := by
  obtain ⟨known', old, used, keeps⟩ := adds
  obtain ⟨cells, shared⟩ := Prod.mk.inj same
  exact ⟨known', old, used, cells ▸ keeps.inventory, shared ▸ keeps.shared⟩

/-- Everything that a session makes or shares adds to the objects in use. -/
theorem adds_ledger (known : Element → Prop) :
    Elements fun given r => r.Adds known (· ∈ given) where
  leaves adds same _ := adds.leaves same
  left := id
  back adds same _ := adds.leaves same
  fewer := by
    intro given more r adds
    obtain ⟨known', old, used, keeps⟩ := adds
    exact ⟨known', old, fun e mem => used e (List.mem_append_left more mem), keeps⟩
  later := by
    intro given r adds
    obtain ⟨known', old, used, keeps⟩ := adds
    exact ⟨known', old, used, keeps.inventory.later (Nat.le_succ _), keeps.shared⟩
  visit _ adds := by
    rw [List.append_nil]
    exact adds.leaves rfl
  granted := by
    intro given r kind text t i adds asked
    rw [List.append_nil] at adds
    obtain ⟨known', old, used, keeps⟩ := adds
    obtain ⟨all, more, answer, inventory, shared⟩ := keeps.inventory.ask keeps.shared asked
    refine ⟨all, fun e before => more e (old e before), fun e mem => ?_, inventory, shared⟩
    rcases List.mem_append.1 mem with before | last
    · exact more e (used e before)
    · exact List.mem_singleton.1 last ▸ answer
  denied := by
    intro given r kind text cause i adds asked
    obtain ⟨known', old, used, keeps⟩ := adds
    obtain ⟨-, -, rfl⟩ := Interner.ask_eq_error_iff.1 asked
    exact ⟨known', old, used, keeps.inventory.later (Nat.le_succ _),
      by simpa using keeps.shared⟩
  trivia := by
    intro given r kind text overlay t adds _ made
    exact adds.join fun known' inventory _ => Trivia.new_of_make made
  token := by
    intro given r kind missing text leading trailing overlay t adds made
    rw [List.nil_append, ← List.map_eq_flatMap] at adds
    exact adds.join fun known' inventory used =>
      Token.new_of_make (fun s inside => used _ (List.mem_map_of_mem inside)) made
  node := by
    intro given children r kind missing overlay n adds made
    rw [List.nil_append, List.flatMap_singleton'] at adds
    exact adds.join fun known' inventory used => Node.new_of_make inventory used made

theorem Keeps.serve (keeps : r.Keeps known) (limits : Limits) (request : Request) :
    (∀ a r', serve .standard limits request r = .ok a r' →
      r'.Adds known (· ∈ request.elements a)) ∧
      ∀ f r', serve .standard limits request r = .error f r' → r'.Adds known (· ∈ []) :=
  serve_tracks (adds_ledger known) limits request [] r (keeps.adds nofun)

theorem Keeps.tree (keeps : r.Keeps known) {r' : Reader} {limits : Limits} {e : Element}
    (run : tree .standard limits r = .ok e r') : r'.Adds known fun d => d = e := by
  have adds := (tree_tracks (adds_ledger known) limits [] r (keeps.adds nofun)).1 e r' run
  simpa using adds

end GreenTree.Reader
