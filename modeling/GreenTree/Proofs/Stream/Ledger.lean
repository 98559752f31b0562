import GreenTree.Proofs.Stream.Contracts
import GreenTree.Proofs.Stream.Moving

/-!
Ledgers of what is read. Most steps of a session move on in its bytes and texts and leave the rest
alone. The others note records, take cells, share trivia and make elements out of those that were
given before, and each of these enters something or puts it in the place of what was entered before.
What holds of a session and of the entries so far, and is kept by each of these, is kept by whole
records; where a reader fails, less may be left of it.
-/

namespace GreenTree

namespace Reader

variable {α β ι : Type}

def supply (r : Reader) : Nat × Interner := (r.nextCell, r.interner)

/-- What holds of a session and of what was entered so far, and goes on to hold whatever is noted,
made or shared next: the beginning of a record enters `opens`, and what is made from its contents
has `entries` in place of that and of the entries of its parts. After a failure, `Left` holds of
what was entered before the reader that failed. -/
structure Ledger (opens : Kind → List ι) (entries : Element → List ι)
    (Holds Left : List ι → Reader → Prop) : Prop where
  leaves {given : List ι} {r r' : Reader} : Holds given r → r'.supply = r.supply →
    r'.visits = r.visits → Holds given r'
  left {given : List ι} {r : Reader} : Holds given r → Left given r
  back {given : List ι} {r r' : Reader} : Left given r → r'.supply = r.supply →
    r'.visits = r.visits → Left given r'
  fewer {given more : List ι} {r : Reader} : Left (given ++ more) r → Left given r
  later {given : List ι} {r : Reader} : Left given r →
    Left given { r with nextCell := r.nextCell + 1 }
  denied {given : List ι} {r : Reader} {kind : Kind} {text : String} {cause : Fault}
    {i : Interner} :
    Left given r → Interner.ask r.nextCell kind text r.interner = .error cause i →
    Left given { r with nextCell := r.nextCell + 1, interner := i }
  visit {given : List ι} {r : Reader} (kind : Kind) : Holds given r →
    Holds (given ++ opens kind) { r with visits := r.visits.push ⟨kind, r.depth⟩ }
  granted {given : List ι} {r : Reader} {kind : Kind} {text : String} {t : Trivia} {i : Interner} :
    Holds (given ++ opens kind) r → Interner.ask r.nextCell kind text r.interner = .ok t i →
    Holds (given ++ entries (.trivia t)) { r with nextCell := r.nextCell + 1, interner := i }
  trivia {given : List ι} {r : Reader} {kind : Kind} {text : String} {overlay : Overlay}
    {t : Trivia} :
    Holds (given ++ opens kind) r → overlay.isEmpty = false →
    Trivia.make r.nextCell kind text overlay = .ok t →
    Holds (given ++ entries (.trivia t)) { r with nextCell := r.nextCell + 1 }
  token {given : List ι} {r : Reader} {kind : Kind} {missing : Bool} {text : String}
    {leading trailing : List Trivia} {overlay : Overlay} {t : Token} :
    Holds (given ++ (opens kind ++ (leading ++ trailing).flatMap fun t => entries (.trivia t)))
      r →
    Token.make r.nextCell kind missing text leading trailing overlay = .ok t →
    Holds (given ++ entries (.token t)) { r with nextCell := r.nextCell + 1 }
  node {given : List ι} {children : List Element} {r : Reader} {kind : Kind} {missing : Bool}
    {overlay : Overlay} {n : Node Element} :
    Holds (given ++ (opens kind ++ children.flatMap entries)) r →
    Node.make r.nextCell kind missing children overlay = .ok n →
    Holds (given ++ entries (.node n)) { r with nextCell := r.nextCell + 1 }

/-- Whether a reader that uses up some entries puts others in their place. If it fails, those that
it was to use are left out. -/
def Tracks (Holds Left : List ι → Reader → Prop) (held : List ι) (read : Read α)
    (gives : α → List ι) : Prop :=
  ∀ given r, Holds (given ++ held) r →
    (∀ a r', read r = .ok a r' → Holds (given ++ gives a) r') ∧
    ∀ f r', read r = .error f r' → Left given r'

namespace Tracks

variable {Holds Left : List ι → Reader → Prop} {held : List ι}

theorem bind {read : Read α} {next : α → Read β} {gives : α → List ι}
    {gives' : β → List ι} (first : Tracks Holds Left held read gives)
    (second : ∀ a, Tracks Holds Left (gives a) (next a) gives') :
    Tracks Holds Left held (read >>= next) gives' := by
  intro given r holds
  obtain ⟨found, failed⟩ := first given r holds
  constructor
  · intro b r' run
    obtain ⟨a, t, run, rest⟩ := EStateM.bind_eq_ok_iff.1 run
    exact (second a given t (found a t run)).1 b r' rest
  · intro f r' run
    rcases EStateM.bind_eq_error_iff.1 run with run | ⟨a, t, run, rest⟩
    · exact failed f r' run
    · exact (second a given t (found a t run)).2 f r' rest

theorem pure {a : α} {gives : α → List ι} (same : gives a = held) :
    Tracks Holds Left held (pure a) gives := by
  refine fun given r holds => ⟨fun b r' run => ?_, fun f r' run => ?_⟩
  · cases run
    exact same ▸ holds
  · cases run

theorem look {next : Reader → Read α} {gives : α → List ι}
    (each : ∀ r, Tracks Holds Left held (next r) gives) :
    Tracks Holds Left held (get >>= next) gives :=
  fun given r holds => each r given r holds

variable {opens : Kind → List ι} {entries : Element → List ι}
  (ledger : Ledger opens entries Holds Left)

include ledger

theorem fail (e : ReadError) (gives : α → List ι) : Tracks Holds Left held (fail e) gives := by
  refine fun given r holds => ⟨fun b r' run => ?_, fun f r' run => ?_⟩
  · cases run
  · cases run
    exact ledger.fewer (ledger.left holds)

theorem fail_bind (e : ReadError) (next : β → Read α) (gives : α → List ι) :
    Tracks Holds Left held (Reader.fail e >>= next) gives :=
  fail ledger e gives

theorem frame {read : Read α} {gives : α → List ι} (tracks : Tracks Holds Left [] read gives) :
    Tracks Holds Left held read fun a => held ++ gives a := by
  intro given r holds
  obtain ⟨found, failed⟩ := tracks (given ++ held) r (by rwa [List.append_nil])
  refine ⟨fun a r' run => ?_, fun f r' run => ledger.fewer (failed f r' run)⟩
  rw [← List.append_assoc]
  exact found a r' run

theorem of_supply {read : Read α} (same : ∀ r, (stateAfter (read r)).supply = r.supply)
    (begun : ∀ r, (stateAfter (read r)).visits = r.visits) :
    Tracks Holds Left held read fun _ => held := by
  intro given r holds
  have same := same r
  have begun := begun r
  constructor
  · intro a r' run
    rw [run] at same begun
    exact ledger.leaves holds same begun
  · intro f r' run
    rw [run] at same begun
    exact ledger.fewer (ledger.left (ledger.leaves holds same begun))

theorem of_moves {read : Read α} (moves : Moves read) :
    Tracks Holds Left held read fun _ => held := by
  refine of_supply ledger (fun r => ?_) fun r => (moves.state r).visits
  rw [supply, (moves.state r).same]
  rfl

theorem made {make : Nat → Except Fault α} {wrap : α → Element}
    (new : ∀ given r a, Holds (given ++ held) r → make r.nextCell = .ok a →
      Holds (given ++ entries (wrap a)) { r with nextCell := r.nextCell + 1 }) :
    Tracks Holds Left held (do
      let cell ← freshCell
      return wrap (← built (make cell))) entries := by
  intro given r holds
  have took : (do
      let cell ← freshCell
      return wrap (← built (make cell)) : Read Element) r =
        (built (make r.nextCell) >>= fun a => Pure.pure (wrap a))
          { r with nextCell := r.nextCell + 1 } := rfl
  rw [took]
  cases made : make r.nextCell with
  | ok a =>
    refine ⟨fun e r' run => ?_, fun f r' run => ?_⟩
    · obtain ⟨rfl, rfl⟩ := EStateM.pure_eq_ok_iff.1 run
      exact new given r a holds made
    · cases run
  | error cause =>
    have left := ledger.fewer (ledger.later (ledger.left holds))
    refine ⟨fun e r' run => ?_, fun f r' run => ?_⟩
    · cases cause <;> cases run
    · cases cause <;> cases run <;> exact left

theorem intern (kind : Kind) (text : String) :
    Tracks Holds Left (opens kind) (intern kind text) fun t => entries (.trivia t) := by
  intro given r holds
  rw [intern_eq]
  cases asked : Interner.ask r.nextCell kind text r.interner with
  | ok t i =>
    refine ⟨fun s r' run => ?_, fun f r' run => ?_⟩
    · cases run
      exact ledger.granted holds asked
    · cases run
  | error cause i =>
    refine ⟨fun s r' run => ?_, fun f r' run => ?_⟩
    · cases run
    · cases run
      exact ledger.denied (ledger.fewer (ledger.left holds)) asked

theorem visit (kind : Kind) : Tracks Holds Left [] (visit kind) fun _ => opens kind := by
  refine fun given r holds => ⟨fun a r' run => ?_, fun f r' run => ?_⟩
  · cases run
    exact ledger.visit kind (by rwa [List.append_nil] at holds)
  · cases run

private theorem repeatInto {item : Read α} {gives : α → List ι}
    (each : Tracks Holds Left [] item gives) (count : Nat) (done : Array α) :
    Tracks Holds Left (done.toList.flatMap gives) (repeatInto item count done)
      fun as => as.toList.flatMap gives := by
  induction count generalizing done with
  | zero => exact pure rfl
  | succ count ih =>
    rw [GreenTree.repeatInto]
    refine (frame ledger each).bind fun a => ?_
    have more : done.toList.flatMap gives ++ gives a = (done.push a).toList.flatMap gives := by simp
    exact more ▸ ih (done.push a)

theorem repeated {item : Read α} {gives : α → List ι} (each : Tracks Holds Left [] item gives)
    (count : Nat) : Tracks Holds Left [] (repeated count item) fun as => as.flatMap gives :=
  (repeatInto ledger each count #[]).bind fun _ => pure rfl

theorem nested {inside : Read α} {gives : α → List ι}
    (tracks : Tracks Holds Left held inside gives) :
    Tracks Holds Left held (nested inside) gives := by
  intro given r holds
  have going (r : Reader) : stateAfter (enter r) =
      { r with depth := (stateAfter (enter r)).depth } := by
    unfold enter
    split <;> rfl
  have coming (r : Reader) : stateAfter (leave r) =
      { r with depth := (stateAfter (leave r)).depth } := by
    unfold leave
    split <;> rfl
  have entered : Tracks Holds Left held enter fun _ => held :=
    of_supply ledger (fun r => by rw [going r]; rfl) fun r => by rw [going r]
  obtain ⟨found, failed⟩ := (entered.bind fun _ => tracks) given r holds
  unfold Reader.nested
  cases run : (do enter; inside : Read α) r with
  | ok a t =>
    have left : Tracks Holds Left (gives a) leave fun _ => gives a :=
      of_supply ledger (fun r => by rw [coming r]; rfl) fun r => by rw [coming r]
    exact (left.bind fun _ => pure rfl) given t (found a t run)
  | error failure t =>
    cases failure with
    | error e =>
      have back := failed _ t run
      refine ⟨fun a r' last => ?_, fun f r' last => ?_⟩
      · obtain ⟨_, _, -, impossible⟩ := EStateM.bind_eq_ok_iff.1 last
        cases impossible
      · have after : (do leave; Reader.fail e : Read α) t = .error f r' := last
        have state : r' = { t with depth := r'.depth } := by
          rcases EStateM.bind_eq_error_iff.1 after with run | ⟨_, s, run, failed⟩
          · have := coming t
            rwa [run] at this
          · cases failed
            have := coming t
            rwa [run] at this
        rw [state]
        exact ledger.back back rfl rfl
    | fault cause =>
      refine ⟨fun a r' run => ?_, fun f r' last => ?_⟩
      · cases run
      · cases last
        exact failed _ _ run

def Inside (entries : Element → List ι) (Holds Left : List ι → Reader → Prop)
    (inner : Inner) : Prop :=
  ∀ allowed expected, Tracks Holds Left [] (inner allowed expected) entries

variable {inner : Inner} (limits : Limits)

theorem triviaRecord (inside : Inside entries Holds Left inner) :
    Tracks Holds Left [] (triviaRecord inner) fun t => entries (.trivia t) := by
  refine (inside .trivia "trivia").bind fun e => ?_
  cases e with
  | trivia t => exact pure rfl
  | token t => exact fail ledger _ _
  | node n => exact fail ledger _ _

theorem triviaList (inside : Inside entries Holds Left inner) :
    Tracks Holds Left [] (triviaList inner) fun ts => ts.flatMap fun t => entries (.trivia t) :=
  (of_moves ledger ((Moves.plain .standard).fixed 4)).bind fun count =>
    repeated ledger (triviaRecord ledger inside) count

theorem triviaContents (h : RecordHeader) :
    Tracks Holds Left (opens h.kind) (triviaContents limits h) entries := by
  unfold Reader.triviaContents
  dsimp only
  split
  · exact fail_bind ledger _ _ _
  · refine (of_moves ledger (Moves.plain limits).text).bind fun text => ?_
    split
    · exact (intern ledger h.kind text).bind fun t => pure rfl
    · rename_i attached
      have some : h.overlay.isEmpty = false := by simpa using attached
      exact made ledger fun given r t holds made => ledger.trivia holds some made

theorem tokenContents (inside : Inside entries Holds Left inner) (h : RecordHeader) :
    Tracks Holds Left (opens h.kind) (tokenContents limits inner h) entries := by
  unfold Reader.tokenContents
  simp only [Token.ofParts_eq_make]
  split
  · exact fail_bind ledger _ _ _
  · refine (of_moves ledger (Moves.plain limits).text).bind fun text =>
      (frame ledger (triviaList ledger inside)).bind fun leading =>
        (frame ledger (triviaList ledger inside)).bind fun trailing =>
          made ledger fun given r t holds made => ledger.token ?_ made
    rwa [List.flatMap_append, ← List.append_assoc (opens h.kind)]

theorem nodeContents (inside : Inside entries Holds Left inner) (h : RecordHeader) :
    Tracks Holds Left (opens h.kind) (nodeContents inner h) entries := by
  unfold Reader.nodeContents
  simp only [Node.ofParts_eq_make]
  split
  · exact fail_bind ledger _ _ _
  · exact (of_moves ledger ((Moves.plain .standard).fixed 4)).bind fun count =>
      (frame ledger (repeated ledger (inside .children "node or token") count)).bind fun children =>
        made ledger fun given r n holds made => ledger.node holds made

theorem contents (inside : Inside entries Holds Left inner) (h : RecordHeader) :
    Tracks Holds Left (opens h.kind) (contents limits inner h (.standard h.kind)) entries := by
  unfold RecordReader.standard
  split
  · exact triviaContents ledger limits h
  · split
    · exact tokenContents ledger limits inside h
    · exact nodeContents ledger inside h

theorem recordWith {registry : Registry} (only : registry.OnlyStandard)
    (inside : Inside entries Holds Left inner) :
    Inside entries Holds Left (recordWith registry limits inner) := by
  intro allowed expected given r holds
  have head : Tracks Holds Left [] (header registry limits allowed expected) fun _ => [] :=
    of_moves ledger ((Moves.plain limits).header registry allowed expected)
  obtain ⟨found, failed⟩ := head given r holds
  have behind (opening : RecordHeader × RecordReader) {s : Reader}
      (run : header registry limits allowed expected r = .ok opening s) :=
    only _ _ (header_eq_ok_iff.1 run).2.2.1 ▸
      ((visit ledger opening.1.kind).bind fun _ =>
        nested ledger (contents ledger limits inside opening.1)) given s (found opening s run)
  constructor
  · intro e r' run
    obtain ⟨opening, s, run, rest⟩ := EStateM.bind_eq_ok_iff.1 run
    exact (behind opening run).1 e r' rest
  · intro f r' run
    rcases EStateM.bind_eq_error_iff.1 run with run | ⟨opening, s, run, rest⟩
    · exact failed f r' run
    · exact (behind opening run).2 f r' rest

theorem record {registry : Registry} (only : registry.OnlyStandard) (levels : Nat) :
    Inside entries Holds Left (record registry limits levels) := by
  induction levels with
  | zero => exact fun allowed expected => fail ledger _ _
  | succ levels ih => exact recordWith ledger limits only ih

theorem element {registry : Registry} (only : registry.OnlyStandard) :
    Inside entries Holds Left (element registry limits) :=
  fun allowed expected => look fun _ => record ledger limits only _ allowed expected

end Tracks

end Reader

def Request.elements : (request : Request) → request.Answer → List Element
  | .element _ _, e => [e]
  | .trivia, t | .intern _ _, t => [.trivia t]
  | _, _ => []

namespace Reader

abbrev Elements (Holds : List Element → Reader → Prop) : Prop :=
  Ledger (fun _ => []) (fun e => [e]) Holds Holds

variable {Holds : List Element → Reader → Prop} (ledger : Elements Holds)

include ledger

theorem serve_tracks (limits : Limits) (request : Request) :
    Tracks Holds Holds [] (serve .standard limits request) request.elements := by
  have whole := Tracks.element ledger limits Registry.standard_onlyStandard
  have plain := Moves.plain limits
  have quiet {α : Type} {read : Read α} (moves : Moves read) :
      Tracks Holds Holds [] read fun _ => [] := .of_moves ledger moves
  cases request with
  | byte => exact quiet (plain.fixed 1)
  | half => exact quiet (plain.fixed 2)
  | word => exact quiet (plain.fixed 4)
  | flag => exact quiet plain.flag
  | length => exact quiet (plain.fixed 4)
  | text => exact quiet plain.text
  | diagnostics => exact quiet plain.diagnostics
  | annotations => exact quiet plain.annotations
  | element allowed expected => exact whole allowed expected
  | trivia => exact .triviaRecord ledger whole
  | intern kind text => exact .intern ledger kind text

theorem tree_tracks (limits : Limits) :
    Tracks Holds Holds [] (tree .standard limits) fun e => [e] := by
  have plain := Moves.plain limits
  refine (Tracks.of_moves ledger (plain.take 4)).bind fun magic => ?_
  dsimp only
  split
  · exact .fail_bind ledger _ _ _
  · refine (Tracks.of_moves ledger (plain.fixed 1)).bind fun version => ?_
    split
    · exact .fail_bind ledger _ _ _
    · exact Tracks.element ledger limits Registry.standard_onlyStandard .all "green"

end Reader

end GreenTree
