import GreenTree.Proofs.Stream.Moving

/-!
Records begun. Before a session begins a record it has read at least six bytes of it, and it notes
how many records are open around it. So what a session has begun since some moment is bounded by the
bytes that it has read since, whether a reader succeeds or fails in whatever depth.
-/

namespace GreenTree

def Fault.miscounts : Fault → Bool
  | .sumOverflow | .differenceOverflow => true
  | _ => false

theorem Trivia.miscounts_of_make {cell : Nat} {kind : Kind} {text : String} {overlay : Overlay}
    {cause : Fault} (refused : make cell kind text overlay = .error cause) :
    cause.miscounts = false := by
  rcases cause_of_make refused with ⟨-, rfl⟩ | ⟨-, -, rfl⟩ <;> rfl

namespace Grammar

variable {limits : Limits} {p : List UInt8}

theorem Attached.length_pos {α : Type} {member : α → List UInt8 → Prop} {as : List α}
    (attached : Attached limits member as p) : 1 ≤ p.length := by
  cases attached <;> simp

theorem Header.six_le {kind : Kind} {missing : Bool} {overlay : Overlay}
    (header : Header limits kind missing overlay p) : 6 ≤ p.length := by
  obtain ⟨-, diagnostics, annotations⟩ := header
  have := diagnostics.length_pos
  have := annotations.length_pos
  simp only [List.length_append, Bytes.length_littleEndian]
  omega

end Grammar

namespace Reader

variable {α β : Type} {limits : Limits} {depth : Nat}

/-- What lies between two states of a session. It has begun some records, each at a depth within the
limit and no deeper than the records begun before allow, and for each it has read six bytes. -/
structure Spent (limits : Limits) (r : Reader) (begun : List Visit) (r' : Reader) : Prop where
  visits : r'.visits.toList = r.visits.toList ++ begun
  bytes : 6 * begun.length + r'.rest.length ≤ r.rest.length
  allowed : ∀ v ∈ begun, v.depth < limits.maxDepth.toNat
  climbs : ∀ i v, begun[i]? = some v → v.depth ≤ r.depth + i

namespace Spent

theorem aside {r s : Reader} (visits : s.visits = r.visits)
    (shorter : s.rest.length ≤ r.rest.length) : Spent limits r [] s := by
  refine ⟨by rw [visits, List.append_nil], ?_, nofun, nofun⟩
  simpa using shorter

theorem of_onward {r s : Reader} (onward : Onward r s) : Spent limits r [] s :=
  aside onward.visits onward.rest.length_le

theorem trans {r s t : Reader} {begun begun' : List Visit} (first : Spent limits r begun s)
    (level : s.depth = r.depth) (second : Spent limits s begun' t) :
    Spent limits r (begun ++ begun') t where
  visits := by rw [second.visits, first.visits, List.append_assoc]
  bytes := by
    have := first.bytes
    have := second.bytes
    rw [List.length_append]
    omega
  allowed v inside := (List.mem_append.1 inside).elim (first.allowed v) (second.allowed v)
  climbs i v there := by
    rw [List.getElem?_append] at there
    split at there
    · exact first.climbs i v there
    · have := second.climbs _ v there
      omega

theorem opened {r s t : Reader} {begun : List Visit} (room : r.depth < limits.maxDepth.toNat)
    (head : Onward r s) (six : 6 + s.rest.length ≤ r.rest.length) (kind : Kind)
    (spent : Spent limits
      { s with visits := s.visits.push ⟨kind, s.depth⟩, depth := s.depth + 1 } begun t)
    (level : Nat) : Spent limits r (⟨kind, s.depth⟩ :: begun) { t with depth := level } where
  visits := by
    rw [spent.visits, Array.toList_push, head.visits, List.append_assoc, List.singleton_append]
  bytes := by
    have := spent.bytes
    rw [List.length_cons]
    dsimp only at this ⊢
    omega
  allowed := List.forall_mem_cons.2 ⟨head.depth ▸ room, spent.allowed⟩
  climbs i v there := by
    have level := head.depth
    cases i with
    | zero =>
      cases there
      exact Nat.le_of_eq level
    | succ i =>
      have := spent.climbs i v there
      dsimp only at this
      omega

end Spent

/-- Whether a reader has read six bytes for every record that it has begun, however it ends, and if
that is by a fault, has not gone past the limit, while no counter has failed it. -/
structure Pays (limits : Limits) (depth : Nat) (read : Read α) : Prop where
  spent : ∀ {r}, r.Fit limits depth → ∃ begun, Spent limits r begun (stateAfter (read r))
  fault : depth ≤ limits.maxDepth.toNat → ∀ {r cause r'}, r.Fit limits depth →
    read r = .error (.fault cause) r' →
      r'.depth ≤ limits.maxDepth.toNat ∧ cause.miscounts = false

theorem Pays.within {read : Read α} {post : α → Prop}
    (follows : Follows (fun _ => Pays limits) limits depth read post)
    (within : depth ≤ limits.maxDepth.toNat) {r : Reader} (fit : r.Fit limits depth) :
    (stateAfter (read r)).depth ≤ limits.maxDepth.toNat := by
  cases run : read r with
  | ok a r' => exact (follows.gives.ok fit run).1.depth ▸ within
  | error failure r' =>
    cases failure with
    | error e => exact (follows.gives.error fit run).depth ▸ within
    | fault cause => exact (follows.holds.fault within fit run).1

namespace Pays

theorem of_moves {read : Read α} (moves : Moves read) : Pays limits depth read where
  spent fit := ⟨[], .of_onward (moves.state _)⟩
  fault := by
    intro within r cause r' fit run
    have onward := moves.state r
    rw [run] at onward
    obtain rfl := moves.fault r cause r' run
    exact ⟨(onward.depth.trans fit.depth) ▸ within, rfl⟩

theorem bind {read : Read α} {next : α → Read β} {post : α → Prop}
    (gives : Gives limits depth read post) (head : Pays limits depth read)
    (tail : ∀ a, post a → Pays limits depth (next a)) : Pays limits depth (read >>= next) where
  spent := by
    intro r fit
    obtain ⟨begun, spent⟩ := head.spent fit
    rw [stateAfter_bind]
    cases run : read r with
    | ok a s =>
      rw [run] at spent
      obtain ⟨fit', given⟩ := gives.ok fit run
      obtain ⟨begun', spent'⟩ := (tail a given).spent fit'
      exact ⟨_, spent.trans (fit'.depth.trans fit.depth.symm) spent'⟩
    | error f s =>
      rw [run] at spent
      exact ⟨begun, spent⟩
  fault := by
    intro within r cause r' fit run
    rcases EStateM.bind_eq_error_iff.1 run with run | ⟨a, s, run, rest⟩
    · exact head.fault within fit run
    · obtain ⟨fit', given⟩ := gives.ok fit run
      exact (tail a given).fault within fit' rest

theorem throw {cause : Fault} (counts : cause.miscounts = false) :
    Pays limits depth (throw (.fault cause) : Read α) where
  spent _ := ⟨[], .of_onward (.refl _)⟩
  fault within {r cause r'} fit run := by
    cases run
    exact ⟨fit.depth ▸ within, counts⟩

section

variable {registry : Registry} {inner : Inner} {allowed : KindSet} {expected : String}
  {post : RecordHeader × RecordReader → Element → Prop} (room : depth < limits.maxDepth.toNat)
  (head : Follows (fun _ => Pays limits) limits depth (header registry limits allowed expected)
    (registry.Heads allowed))
  (inside : ∀ opening, registry.Heads allowed opening → Follows (fun _ => Pays limits) limits
    (depth + 1) (contents limits inner opening.1 opening.2) (post opening))

include room head inside

/-- The header of a record takes the six bytes, and what is read in the record is read one record
deeper. -/
private theorem opens {r s : Reader} {opening : RecordHeader × RecordReader}
    (fit : r.Fit limits depth) (run : header registry limits allowed expected r = .ok opening s) :
    let below :=
      { s with visits := s.visits.push ⟨opening.1.kind, s.depth⟩, depth := s.depth + 1 }
    6 + s.rest.length ≤ r.rest.length ∧ below.Fit limits (depth + 1) ∧
      recordWith registry limits inner allowed expected r =
        outside (contents limits inner opening.1 opening.2 below) := by
  obtain ⟨fit', heads⟩ := head.gives.ok fit run
  obtain ⟨-, p, _, rfl, ⟨⟨-, -, heading⟩, -⟩, split⟩ :=
    (header_parses registry allowed expected room).sound fit.toReady run
  have six := heading.header.six_le
  have noted : Fit limits depth { s with visits := s.visits.push ⟨opening.1.kind, s.depth⟩ } :=
    ⟨⟨fit'.depth, fit'.interned⟩, fit'.short⟩
  refine ⟨?_, noted.deeper, recordWith_of_ok run ?_⟩
  · rw [split, List.length_append]
    omega
  · exact (inside opening heads).gives.stays (limits.lt_maxSize room) noted

theorem record : Pays limits depth (recordWith registry limits inner allowed expected) where
  spent := by
    intro r fit
    have onward := ((Moves.plain limits).header registry allowed expected).state r
    cases run : header registry limits allowed expected r with
    | ok opening s =>
      rw [run] at onward
      obtain ⟨six, fit', same⟩ := opens room head inside fit run
      obtain ⟨begun, spent⟩ := (inside opening (head.gives.ok fit run).2).holds.spent fit'
      obtain ⟨level, left⟩ := stateAfter_outside (contents limits inner opening.1 opening.2 _)
      rw [same, left]
      exact ⟨_, spent.opened (fit.depth ▸ room) onward six opening.1.kind level⟩
    | error f s =>
      rw [run] at onward
      rw [recordWith_of_error run]
      exact ⟨[], .of_onward onward⟩
  fault := by
    intro within r cause r' fit failed
    cases run : header registry limits allowed expected r with
    | ok opening s =>
      obtain ⟨-, fit', same⟩ := opens room head inside fit run
      rw [same, outside_eq_fault_iff] at failed
      exact (inside opening (head.gives.ok fit run).2).holds.fault room fit' failed
    | error f s =>
      rw [recordWith_of_error run] at failed
      cases failed
      exact head.holds.fault within fit run

end

theorem closed : Closed limits fun _ => Pays limits where
  pure _ a := of_moves (.pure a)
  fail _ e := of_moves ((Moves.plain limits).fail e)
  bind := bind
  look _ each := {
    spent {r} fit := (each r fit).spent fit
    fault within {r _ _} fit run := (each r fit).fault within fit run }
  change {_ f} blind begun _ := {
    spent {r} _ := by
      have kept : (f r).rest = r.rest := by simpa using congrArg rest (blind r r.rest)
      exact ⟨[], .aside (begun r) (Nat.le_of_eq (congrArg List.length kept))⟩
    fault _ {_ _ _} _ run := nomatch run }
  take _ count := of_moves (.take count)
  diagnostics _ := of_moves (Moves.plain limits).diagnostics
  annotations _ := of_moves (Moves.plain limits).annotations
  record := record

theorem serve {registry : Registry} (only : registry.OnlyStandard)
    (within : depth ≤ limits.maxDepth.toNat) (request : Request) :
    Follows (fun _ => Pays limits) limits depth (serve registry limits request) fun _ => True := by
  refine .serve closed (.of_only only) within request ?_
  intro kind text cell i cause j refused
  exact throw (Trivia.miscounts_of_make (Interner.ask_eq_error_iff.1 refused).2.1)

end Pays

def Called (registry : Registry) (limits : Limits) (r : Reader) (request : Request)
    (r' : Reader) : Prop :=
  (∃ a, serve registry limits request r = .ok a r') ∨
    ∃ e, serve registry limits request r = .error (.error e) r'

variable {registry : Registry} {r r' : Reader}

theorem Called.spent {request : Request} (called : Called registry limits r request r')
    (only : registry.OnlyStandard) (within : depth ≤ limits.maxDepth.toNat)
    (fit : r.Fit limits depth) : r'.Fit limits depth ∧ ∃ begun, Spent limits r begun r' := by
  have follows := Pays.serve only within request
  have spent := follows.holds.spent fit
  rcases called with ⟨a, run⟩ | ⟨e, run⟩
  · rw [run] at spent
    exact ⟨(follows.gives.ok fit run).1, spent⟩
  · rw [run] at spent
    exact ⟨follows.gives.error fit run, spent⟩

theorem spent_of_calls {requests : List Request}
    (calls : Chain (Called registry limits) r requests r') (only : registry.OnlyStandard)
    (within : depth ≤ limits.maxDepth.toNat) (fit : r.Fit limits depth) :
    r'.Fit limits depth ∧ ∃ begun, Spent limits r begun r' := by
  induction calls with
  | nil => exact ⟨fit, [], .of_onward (.refl _)⟩
  | cons first _ ih =>
    obtain ⟨fit', begun, spent⟩ := first.spent only within fit
    obtain ⟨last, begun', spent'⟩ := ih fit'
    exact ⟨last, _, spent.trans (fit'.depth.trans fit.depth.symm) spent'⟩

end Reader

end GreenTree
