import GreenTree.Proofs.Assembly
import GreenTree.Proofs.Occurrences
import GreenTree.Proofs.Stream.Acceptance
import GreenTree.Proofs.Stream.Levels
import GreenTree.Proofs.Stream.Moments
import GreenTree.Proofs.Stream.Openings

/-!
What reading costs. A record takes ten bytes at least, so a tree has no more than a tenth as many
elements as it takes bytes, and a list that claims to be longer than that ends with the bytes.
Records are read in terms of the records in them, and there is only one way to do so, since none is
deeper than the limit allows.
-/

namespace GreenTree

theorem Element.length_occurrences (e : Element) :
    e.occurrences.length = e.blueprint.records.length := by
  induction e using Element.induction with
  | node n ih =>
    rw [occurrences, occurrencesOf_eq, blueprint, blueprints_eq, Blueprint.records,
      Blueprint.recordsIn_eq, List.length_cons, List.length_append, List.length_singleton,
      List.length_flatMap, List.length_flatMap,
      List.map_map, List.map_congr_left ih]
    rfl
  | token t => simp [occurrences, blueprint, Blueprint.records, Nat.add_assoc]
  | trivia t => rfl

theorem Element.occurrences_pos (e : Element) : 0 < e.occurrences.length := by
  cases e <;> simp [occurrences]

namespace Grammar

variable {limits : Limits} {texts texts' : List String} {p : List UInt8}

theorem Text.five_le {text : String} (spelled : Text limits texts p text texts') :
    5 ≤ p.length := by
  cases spelled with
  | inline =>
    simp only [List.length_cons, List.length_append, Bytes.length_littleEndian]
    omega
  | reference =>
    simp only [List.length_cons, Bytes.length_littleEndian]
    omega

theorem Many.ten_le {α : Type} {phrase : Phrase α} {as : List α}
    (many : Many phrase texts p as texts') (parts : α → Nat)
    (each : ∀ texts p a texts', phrase texts p a texts' → 10 * parts a ≤ p.length) :
    10 * (as.map parts).sum ≤ p.length := by
  induction many with
  | nil => exact Nat.le_refl 0
  | cons head _ ih =>
    have := each _ _ _ _ head
    rw [List.map_cons, List.sum_cons, List.length_append]
    omega

theorem TriviaRecord.ten_le {t : TriviaBlueprint} (record : TriviaRecord limits texts p t texts') :
    10 ≤ p.length := by
  obtain ⟨-, header, text, -⟩ := record
  have := header.six_le
  have := text.five_le
  rw [List.length_append]
  omega

theorem Counted.ten_le {ts : List TriviaBlueprint}
    (counted : Counted (TriviaRecord limits) texts p ts texts') :
    10 * ts.length ≤ p.length := by
  obtain ⟨-, many⟩ := counted
  have := many.ten_le (fun _ => 1) fun _ _ _ _ record => record.ten_le
  have ones : (ts.map fun _ => 1).sum = ts.length := by simp
  rw [List.length_append]
  omega

/-- A record takes ten bytes for itself and for each record in it. -/
theorem Record.ten_le {d : Blueprint} (record : Record limits texts p d texts') :
    10 * d.records.length ≤ p.length := by
  refine Record.induction (P := fun _ p d _ => 10 * d.records.length ≤ p.length) ?_ ?_ ?_ record
  · intro texts p t texts' record
    exact record.ten_le
  · intro _ _ _ _ header p q r _ _ _ leading trailing _ _ head text before behind _
    have := head.six_le
    have := text.five_le
    have := before.ten_le
    have := behind.ten_le
    simp only [Blueprint.records, List.length_append, List.length_map, List.length_singleton]
    omega
  · intro _ _ header p _ _ children _ _ head _ _ many _
    have := head.six_le
    have := many.ten_le (fun d => d.records.length) fun _ _ _ _ h => h.2
    simp only [Blueprint.records, Blueprint.recordsIn_eq, List.length_append, List.length_flatMap,
      List.length_singleton, Bytes.length_littleEndian]
    omega

end Grammar

namespace OverlayBlock

variable {α β : Type}

/-- Whether a decoder that succeeds has taken a byte at least. -/
def Takes (decode : Decode α) : Prop :=
  ∀ {s a t}, decode s = .ok a t → t.rest.length < s.rest.length

namespace Takes

theorem bind {first : Decode α} {next : α → Decode β} (head : Takes first)
    (tail : ∀ a, Moves (next a)) :
    Takes (first >>= next) := by
  intro s b t run
  obtain ⟨a, u, run, rest⟩ := EStateM.bind_eq_ok_iff.1 run
  have behind := ((tail a).rest u).length_le
  rw [rest] at behind
  exact Nat.lt_of_le_of_lt behind (head run)

theorem byte : Takes (fixed 1) := by
  intro s n t run
  obtain ⟨_, u, paid, run⟩ := EStateM.bind_eq_ok_iff.1 run
  obtain ⟨bytes, v, taken, last⟩ := EStateM.bind_eq_ok_iff.1 run
  obtain rfl : v = t := (EStateM.pure_eq_ok_iff.1 last).2
  have same : u.rest = s.rest := by
    unfold spend at paid
    split at paid <;> cases paid
    rfl
  unfold take at taken
  split at taken
  · rename_i found
    cases taken
    obtain ⟨split, length⟩ := Bytes.append_of_split? found
    rw [← same, split, List.length_append, length]
    exact Nat.lt_add_of_pos_left Nat.one_pos
  · cases taken

theorem number : Takes number := by
  refine bind byte fun n => ?_
  split
  · exact .pure _
  · exact Moves.closed.fixed _
  · exact .refuse _
  · exact .refuse _

theorem numberOf (bytes : Nat) : Takes (numberOf bytes) := by
  refine bind number fun n => ?_
  split
  · exact .pure _
  · exact .refuse _

theorem text : Takes text := bind number Moves.ofLength

theorem diagnostic : Takes diagnostic :=
  bind (numberOf 2) fun _ => Moves.closed.severity.bind fun _ =>
    (Moves.closed.numberOf 4).bind fun _ =>
    (Moves.closed.numberOf 4).bind fun _ =>
      (Moves.closed.list (Moves.closed.text Moves.closed.number)).bind fun _ =>
      .pure _

theorem annotation : Takes annotation :=
  bind number fun _ => Moves.closed.option.bind fun _ => Moves.closed.option.bind fun _ => .pure _

theorem repeated_eq {member : Decode α} (takes : Takes member) {s : State} {count : Nat}
    (many : s.rest.length < count) :
    repeated count member s = repeated (s.rest.length + 1) member s :=
  repeated_eq_of_drains (fun s => s.rest.length)
    (fun _ run => ⟨trivial, takes run⟩) trivial many

end Takes

end OverlayBlock

namespace Reader

open Grammar

variable {limits : Limits} {depth : Nat} {r r' : Reader}

theorem ten_le_of_element (within : depth ≤ limits.maxDepth.toNat) {allowed : KindSet}
    {expected : String} {e : Element} (ready : r.Ready depth)
    (run : element .standard limits allowed expected r = .ok e r') :
    r'.Ready depth ∧ r'.rest.length + 10 * e.occurrences.length ≤ r.rest.length := by
  obtain ⟨ready', p, d, ⟨-, same⟩, ⟨record, -, -⟩, split⟩ :=
    (element_parses within allowed expected).sound ready run
  have least := record.ten_le
  rw [← same, ← e.length_occurrences] at least
  rw [split, List.length_append]
  exact ⟨ready', by omega⟩

theorem ten_le_of_triviaRecord (within : depth ≤ limits.maxDepth.toNat) {t : Trivia}
    (ready : r.Ready depth) (run : triviaRecord (element .standard limits) r = .ok t r') :
    r'.Ready depth ∧ r'.rest.length + 10 ≤ r.rest.length := by
  obtain ⟨e, s, read, last⟩ := EStateM.bind_eq_ok_iff.1 run
  obtain ⟨ready', least⟩ := ten_le_of_element within ready read
  cases e with
  | trivia u =>
    cases last
    exact ⟨ready', least⟩
  | token u => cases last
  | node n => cases last

/-- Whether reading whole records comes to an end in a session. They are read in terms of the
records in them, and not in two ways; and of a list that claims to have more members than there are
bytes for, no more are read. -/
structure Settles (registry : Registry) (limits : Limits) (r : Reader) : Prop where
  solves : ∀ allowed expected, element registry limits allowed expected r =
    recordWith registry limits (element registry limits) allowed expected r
  unique : ∀ inner : Inner, (∀ allowed expected s, inner allowed expected s =
      recordWith registry limits inner allowed expected s) →
    ∀ allowed expected, inner allowed expected r = element registry limits allowed expected r
  children : ∀ count, r.rest.length / 10 < count →
    repeated count (element registry limits .children "node or token") r =
      repeated (r.rest.length / 10 + 1) (element registry limits .children "node or token") r
  trivia : ∀ count, r.rest.length / 10 < count →
    repeated count (triviaRecord (element registry limits)) r =
      repeated (r.rest.length / 10 + 1) (triviaRecord (element registry limits)) r

theorem Fit.settles (fit : r.Fit limits depth) (within : depth ≤ limits.maxDepth.toNat) :
    Settles .standard limits r where
  solves allowed expected := element_solves .standard limits allowed expected r
  unique inner solves allowed expected := by rw [solves_iff.1 solves]
  children count many := by
    refine repeated_eq_of_drains (fun s => s.rest.length / 10) (fun {s e t} ready read => ?_)
      fit.toReady many
    obtain ⟨ready', least⟩ := ten_le_of_element within ready read
    have := e.occurrences_pos
    exact ⟨ready', by omega⟩
  trivia count many := by
    refine repeated_eq_of_drains (fun s => s.rest.length / 10) (fun {s t s'} ready read => ?_)
      fit.toReady many
    obtain ⟨ready', least⟩ := ten_le_of_triviaRecord within ready read
    exact ⟨ready', by omega⟩

theorem Spent.deep_le {begun : List Visit} (spent : Spent limits r begun r') (level : r.depth = 0) :
    ∀ v ∈ begun, 6 * (v.depth + 1) ≤ r.rest.length := by
  intro v inside
  obtain ⟨i, bound, rfl⟩ := List.getElem_of_mem inside
  have := spent.climbs i _ (List.getElem?_eq_getElem bound)
  have := spent.bytes
  omega

/-- Whatever calls were answered or refused before: reading comes to an end in every session, be it
between two calls or inside some records; an element that is read took ten bytes for each occurrence
in it; and at each moment, by the time that some bytes of a call were read, no more than a sixth as
many records were begun, none of them deeper in others than that, and so it is over all calls
together. -/
theorem reading_bounded (limits : Limits) {bytes : List UInt8} {cell : Nat}
    {requests : List Request} {r : Reader}
    (calls : Chain (Called .standard limits) { rest := bytes, nextCell := cell } requests r) :
    r.Fit limits 0 ∧
    (∀ depth (s : Reader), s.Fit limits depth → depth ≤ limits.maxDepth.toNat →
      Settles .standard limits s) ∧
    (∀ (s : OverlayBlock.State) count, s.rest.length < count →
      repeated count OverlayBlock.diagnostic s =
        repeated (s.rest.length + 1) OverlayBlock.diagnostic s ∧
      repeated count OverlayBlock.annotation s =
        repeated (s.rest.length + 1) OverlayBlock.annotation s ∧
      repeated count OverlayBlock.text s = repeated (s.rest.length + 1) OverlayBlock.text s) ∧
    (∀ allowed expected (e : Element) r', serve .standard limits (.element allowed expected) r =
      .ok e r' → r'.rest.length + 10 * e.occurrences.length ≤ r.rest.length) ∧
    6 * r.visits.size + r.rest.length ≤ bytes.length ∧
    ∀ request, ∃ begun,
      let r' := stateAfter (serve .standard limits request r)
      r'.visits.toList = r.visits.toList ++ begun ∧
      6 * begun.length + r'.rest.length ≤ r.rest.length ∧
      (∀ v ∈ begun, 6 * (v.depth + 1) ≤ r.rest.length) ∧
      ∀ n, ∃ sofar, sofar <+: begun ∧ 6 * sofar.length ≤ n ∧
        (stateAfter
          (serve .standard limits request { r with rest := r.rest.take n })).visits.toList =
            r.visits.toList ++ sofar := by
  have only := Registry.standard_onlyStandard
  have within : 0 ≤ limits.maxDepth.toNat := Nat.zero_le _
  obtain ⟨fit, before, total⟩ := spent_of_calls calls only within (.start limits bytes cell)
  refine ⟨fit, fun depth s fit within => fit.settles within, ?_, ?_, ?_, fun request => ?_⟩
  · exact fun s count many => ⟨OverlayBlock.Takes.diagnostic.repeated_eq many,
      OverlayBlock.Takes.annotation.repeated_eq many, OverlayBlock.Takes.text.repeated_eq many⟩
  · intro allowed expected e r' run
    exact (ten_le_of_element within fit.toReady run).2
  · have listed : r.visits.toList = before := total.visits
    have := total.bytes
    rw [← Array.length_toList, listed]
    exact this
  · have pays := (Pays.serve only within request).holds
    obtain ⟨begun, spent⟩ := pays.spent fit
    refine ⟨begun, spent.visits, spent.bytes, spent.deep_le fit.depth, fun n => ?_⟩
    let cut : Reader := { r with rest := r.rest.take n }
    have fit : cut.Fit limits 0 := ⟨⟨fit.depth, fit.interned⟩, fit.short⟩
    have whole : cut.extend (r.rest.drop n) = r := by
      simp only [extend, cut, List.take_append_drop]
    obtain ⟨sofar, spent'⟩ := pays.spent fit
    have first := (Unfolds.serve only within request).holds.cut (r.rest.drop n) fit
    rw [whole, spent.visits, spent'.visits, List.prefix_append_right_inj] at first
    have fewer : cut.rest.length ≤ n := List.length_take_le _ _
    have := spent'.bytes
    exact ⟨sofar, first, by omega, spent'.visits⟩

/-- A list that claims to have as many members as a number can say, and a comma. -/
def claimedList : List UInt8 :=
  [31, 0, 0, 0, 0, 0, 255, 255, 255, 255] ++
    [12, 0, 0, 0, 0, 0, 0, 1, 0, 0, 0, 44, 0, 0, 0, 0, 0, 0, 0, 0]

theorem reading_bounded_claimedList :
    let limits : Limits := { maxDepth := 1 }
    let request : Request := .element .all "green"
    ∃ r, Chain (Called .standard limits) { rest := claimedList } [request] r ∧
      r.visits.size = 1 ∧
      6 * 1 + r.rest.length ≤ 30 ∧ Settles .standard limits r ∧
      ∃ (e : Element) (r' : Reader), serve .standard limits request r = .ok e r' ∧
        r'.rest.length + 10 * e.occurrences.length ≤ r.rest.length := by
  intro limits request
  have read : (match serve .standard limits request { rest := claimedList } with
      | .error (.error _) r => r.visits.size == 1 &&
        match serve .standard limits request r with
        | .ok _ _ => true
        | .error _ _ => false
      | _ => false) = true := by decide +kernel
  split at read
  · rename_i e r refused
    split at read
    · rename_i a r' answered
      have begun : r.visits.size = 1 := by simpa using read
      have calls : Chain (Called .standard limits) { rest := claimedList } [request] r :=
        .cons (.inr ⟨e, refused⟩) (.nil r)
      obtain ⟨fit, settles, -, tenth, sixth, -⟩ := reading_bounded limits calls
      exact ⟨r, calls, begun, begun ▸ sixth, settles 0 r fit (Nat.zero_le _), a, r', answered,
        tenth .all "green" a r' answered⟩
    · simp at read
  · cases read

end Reader

end GreenTree
