import GreenTree.Placed.Search
import GreenTree.Proofs.Placed.Positions
import GreenTree.Proofs.SummaryBits

/-!
Searches find everything. The reference for a search looks at every element in source order,
wherever it stands, and skips none. A search that skips what lacks a bit agrees with it as soon as
nothing is to be found in what lacks the bit: what is skipped is as wide as its text, so everything
behind it is still met at its own position.
-/

namespace GreenTree

namespace Element

def standingTrivia (start : Nat) : List Trivia → List (Nat × Element)
  | [] => []
  | t :: ts => (start, .trivia t) :: standingTrivia (start + t.text.utf8ByteSize) ts

mutual

/-- The element and everything below it in source order, a token before its trivia, each with the
position where its full text starts if that of the element starts at `start`. -/
def standing (start : Nat) : Element → List (Nat × Element)
  | .node n => (start, .node n) :: standingAll start n.children
  | .token t =>
    (start, .token t) :: (standingTrivia start t.leading ++
      standingTrivia (start + t.leadingText.utf8ByteSize + t.text.utf8ByteSize) t.trailing)
  | .trivia t => [(start, .trivia t)]

def standingAll (start : Nat) : List Element → List (Nat × Element)
  | [] => []
  | c :: cs => standing start c ++ standingAll (start + c.fullText.utf8ByteSize) cs

end

theorem mem_standingTrivia {ts : List Trivia} {start position : Nat} {d : Element}
    (mem : (position, d) ∈ standingTrivia start ts) : ∃ t ∈ ts, d = .trivia t := by
  induction ts generalizing start with
  | nil => cases mem
  | cons t ts ih =>
    rcases List.mem_cons.1 mem with here | behind
    · exact ⟨t, List.mem_cons_self, congrArg Prod.snd here⟩
    · obtain ⟨s, inTs, same⟩ := ih behind
      exact ⟨s, List.mem_cons_of_mem t inTs, same⟩

private theorem mem_standingAll {cs : List Element} {start position : Nat} {d : Element}
    (mem : (position, d) ∈ standingAll start cs) :
    ∃ c ∈ cs, ∃ start, (position, d) ∈ standing start c := by
  induction cs generalizing start with
  | nil => cases mem
  | cons c cs ih =>
    rcases List.mem_append.1 mem with here | behind
    · exact ⟨c, List.mem_cons_self, start, here⟩
    · obtain ⟨b, inCs, found⟩ := ih behind
      exact ⟨b, List.mem_cons_of_mem c inCs, found⟩

theorem part_of_mem_standing {e d : Element} {start position : Nat}
    (mem : (position, d) ∈ standing start e) : d.Part e := by
  induction e using Element.induction generalizing start with
  | node n parts =>
    rcases List.mem_cons.1 mem with here | below
    · obtain rfl : d = .node n := congrArg Prod.snd here
      exact .self _
    · obtain ⟨c, inChildren, _, found⟩ := mem_standingAll below
      exact .child inChildren (parts c inChildren found)
  | token t =>
    rcases List.mem_cons.1 mem with here | below
    · obtain rfl : d = .token t := congrArg Prod.snd here
      exact .self _
    · rcases List.mem_append.1 below with before | behind
      · obtain ⟨s, inLeading, rfl⟩ := mem_standingTrivia before
        exact .leading inLeading
      · obtain ⟨s, inTrailing, rfl⟩ := mem_standingTrivia behind
        exact .trailing inTrailing
  | trivia t =>
    obtain rfl : d = .trivia t := congrArg Prod.snd (List.mem_singleton.1 mem)
    exact .self _

theorem exists_mem_standingTrivia {ts : List Trivia} {t : Trivia} (inside : t ∈ ts)
    (start : Nat) :
    ∃ position, (position, .trivia t) ∈ standingTrivia start ts := by
  induction ts generalizing start with
  | nil => cases inside
  | cons s ts ih =>
    rcases List.mem_cons.1 inside with rfl | behind
    · exact ⟨start, List.mem_cons_self⟩
    · obtain ⟨position, found⟩ := ih behind (start + s.text.utf8ByteSize)
      exact ⟨position, List.mem_cons_of_mem _ found⟩

theorem exists_standing_subset {cs : List Element} {c : Element} (inside : c ∈ cs) (start : Nat) :
    ∃ position, c.standing position ⊆ standingAll start cs := by
  induction cs generalizing start with
  | nil => cases inside
  | cons b cs ih =>
    rcases List.mem_cons.1 inside with rfl | behind
    · exact ⟨start, List.subset_append_left _ _⟩
    · obtain ⟨position, below⟩ := ih behind (start + b.fullText.utf8ByteSize)
      exact ⟨position, List.subset_append_of_subset_right _ below⟩

theorem exists_mem_standing {d e : Element} (part : d.Part e) (start : Nat) :
    ∃ position, (position, d) ∈ e.standing start := by
  induction part generalizing start with
  | self e => cases e <;> exact ⟨start, List.mem_cons_self⟩
  | child inside _ ih =>
    obtain ⟨first, below⟩ := exists_standing_subset inside start
    obtain ⟨position, found⟩ := ih first
    exact ⟨position, List.mem_cons_of_mem _ (below found)⟩
  | leading inside =>
    obtain ⟨position, found⟩ := exists_mem_standingTrivia inside start
    exact ⟨position, List.mem_cons_of_mem _ (List.mem_append_left _ found)⟩
  | @trailing t s inside =>
    obtain ⟨position, found⟩ := exists_mem_standingTrivia inside
      (start + t.leadingText.utf8ByteSize + t.text.utf8ByteSize)
    exact ⟨position, List.mem_cons_of_mem _ (List.mem_append_right _ found)⟩

end Element

theorem StandsAt.standingTrivia {source : String} {ts : List Trivia} {start position : Nat}
    {d : Element} (stands : StandsAt source start (String.join (ts.map Trivia.text)))
    (mem : (position, d) ∈ Element.standingTrivia start ts) :
    StandsAt source position d.fullText := by
  induction ts generalizing start with
  | nil => cases mem
  | cons t ts ih =>
    rw [List.map_cons, String.join_cons] at stands
    rcases List.mem_cons.1 mem with here | behind
    · obtain ⟨rfl, rfl⟩ := Prod.mk.inj here
      rw [Element.fullText_trivia]
      exact stands.left
    · exact ih stands.right behind

private theorem StandsAt.standingAll {source : String} {cs : List Element} {start position : Nat}
    {d : Element} (stands : StandsAt source start (String.join (cs.map Element.fullText)))
    (parts : ∀ c ∈ cs, ∀ {start}, StandsAt source start c.fullText →
      (position, d) ∈ c.standing start → StandsAt source position d.fullText)
    (mem : (position, d) ∈ Element.standingAll start cs) :
    StandsAt source position d.fullText := by
  induction cs generalizing start with
  | nil => cases mem
  | cons c cs ih =>
    obtain ⟨first, others⟩ := List.forall_mem_cons.1 parts
    rw [List.map_cons, String.join_cons] at stands
    rcases List.mem_append.1 mem with here | behind
    · exact first stands.left here
    · exact ih stands.right others behind

theorem StandsAt.standing {source : String} {e d : Element} {start position : Nat}
    (stands : StandsAt source start e.fullText) (mem : (position, d) ∈ e.standing start) :
    StandsAt source position d.fullText := by
  induction e using Element.induction generalizing start with
  | node n parts =>
    rcases List.mem_cons.1 mem with here | below
    · obtain ⟨rfl, rfl⟩ := Prod.mk.inj here
      exact stands
    · rw [Element.fullText_node] at stands
      exact stands.standingAll (fun c inChildren _ => parts c inChildren) below
  | token t =>
    rcases List.mem_cons.1 mem with here | below
    · obtain ⟨rfl, rfl⟩ := Prod.mk.inj here
      exact stands
    · rw [Element.fullText_token] at stands
      rcases List.mem_append.1 below with before | behind
      · exact stands.left.left.standingTrivia before
      · have last := stands.right
        rw [String.utf8ByteSize_append, ← Nat.add_assoc] at last
        exact last.standingTrivia behind
  | trivia t =>
    obtain ⟨rfl, rfl⟩ := Prod.mk.inj (List.mem_singleton.1 mem)
    exact stands

namespace Search

variable {α : Type} {wanted : Summary} {pick : Nat → Element → Except Fault (List α)}

def picks (pick : Nat → Element → Except Fault (List α)) :
    List (Nat × Element) → Except Fault (List α)
  | [] => .ok []
  | (position, e) :: es => do
    let first ← pick position e
    let rest ← picks pick es
    return first ++ rest

theorem picks_append (es fs : List (Nat × Element)) : picks pick (es ++ fs) = (do
    let first ← picks pick es
    let rest ← picks pick fs
    return first ++ rest) := by
  induction es with
  | nil =>
    change picks pick fs = picks pick fs >>= fun rest => .ok rest
    cases picks pick fs <;> rfl
  | cons e es ih =>
    obtain ⟨position, e⟩ := e
    rw [List.cons_append, picks, picks, ih]
    cases pick position e with
    | error cause => rfl
    | ok first =>
      cases picks pick es with
      | error cause => rfl
      | ok more =>
        change (picks pick fs >>= fun rest => _) >>= _ = picks pick fs >>= _
        cases picks pick fs with
        | error cause => rfl
        | ok rest => exact congrArg Except.ok (List.append_assoc first more rest).symm

theorem picks_eq_nil {es : List (Nat × Element)}
    (nothing : ∀ position e, (position, e) ∈ es → pick position e = .ok []) :
    picks pick es = .ok [] := by
  induction es with
  | nil => rfl
  | cons e es ih =>
    obtain ⟨position, e⟩ := e
    have rest := ih fun q d mem => nothing q d (List.mem_cons_of_mem _ mem)
    rw [picks, nothing position e List.mem_cons_self, rest]
    rfl

/-- Whether a step that has room for a width moves on by it and finds what is to be picked from the
given elements. -/
def Meets (pick : Nat → Element → Except Fault (List α)) (step : Step α Unit) (width : Nat)
    (es : Nat → List (Nat × Element)) : Prop :=
  ∀ s : Search α, s.position + width ≤ maxSize → step.run s = (do
    let more ← picks pick (es s.position)
    return ((), ⟨s.position + width, s.found ++ more⟩))

private theorem append_found (found : Array α) (more rest : List α) :
    found ++ more ++ rest = found ++ (more ++ rest) := by
  apply Array.ext'
  simp

theorem meets_nothing : Meets pick (pure () : Step α Unit) 0 fun _ => [] := by
  intro s room
  simp [picks]
  rfl

theorem meets_advance (width : Nat) :
    Meets pick (advance width : Step α Unit) width fun _ => [] := by
  intro s room
  simp [advance, addSize_eq_ok room, picks]

theorem Meets.seq {first second : Step α Unit} {width width' : Nat}
    {es fs : Nat → List (Nat × Element)} (meets : Meets pick first width es)
    (meets' : Meets pick second width' fs) :
    Meets pick (do first; second) (width + width') fun position =>
      es position ++ fs (position + width) := by
  intro s room
  have here := meets s (by omega)
  rw [StateT.run_bind, here, picks_append]
  cases picks pick (es s.position) with
  | error cause => rfl
  | ok more =>
    have behind :=
      meets' ⟨s.position + width, s.found ++ more⟩ (by simpa [Nat.add_assoc] using room)
    simp only [bind_assoc, pure_bind]
    change second.run ⟨s.position + width, s.found ++ more⟩ = _
    rw [behind]
    cases picks pick (fs (s.position + width)) with
    | error cause => rfl
    | ok rest =>
      have last : Search.mk (s.position + width + width') (s.found ++ more ++ rest) =
          ⟨s.position + (width + width'), s.found ++ (more ++ rest)⟩ := by
        rw [append_found, Nat.add_assoc]
      exact congrArg (fun last => Except.ok ((), last)) last

theorem Meets.of_enter {e : Element} {inside : Step α Unit} {es : Nat → List (Nat × Element)}
    (meets : Meets pick inside e.fullWidth es)
    (quiet : e.summary.contains wanted = false → ∀ start position d,
      (position, d) ∈ (start, e) :: es start → pick position d = .ok []) :
    Meets pick (do if ← enter wanted pick e then inside) e.fullWidth fun position =>
      (position, e) :: es position := by
  intro s room
  cases bits : e.summary.contains wanted with
  | true =>
    have entered : (enter wanted pick e).run s = (do
        let more ← pick s.position e
        return (true, ⟨s.position, s.found ++ more⟩)) := by
      simp [Search.enter, bits]
    rw [StateT.run_bind, entered, picks]
    cases pick s.position e with
    | error cause => rfl
    | ok first =>
      have below := meets ⟨s.position, s.found ++ first⟩ room
      change inside.run ⟨s.position, s.found ++ first⟩ = _
      rw [below]
      cases picks pick (es s.position) with
      | error cause => rfl
      | ok rest =>
        have last : Search.mk (s.position + e.fullWidth) (s.found ++ first ++ rest) =
            ⟨s.position + e.fullWidth, s.found ++ (first ++ rest)⟩ := by
          rw [append_found]
        exact congrArg (fun last => Except.ok ((), last)) last
  | false =>
    have none := picks_eq_nil (quiet bits s.position)
    have entered : (enter wanted pick e).run s =
        .ok (false, ⟨s.position + e.fullWidth, s.found⟩) := by
      simp [enter, bits, advance, addSize_eq_ok room]
    have last : Search.mk (s.position + e.fullWidth) (s.found ++ ([] : List α)) =
        ⟨s.position + e.fullWidth, s.found⟩ := by
      simp
    rw [StateT.run_bind, entered, none]
    exact congrArg (fun last => Except.ok ((), last)) last.symm

private theorem meets_walkAll {cs : List Element} (sound : ∀ c ∈ cs, c.Sound)
    (parts : ∀ c ∈ cs, Meets pick ((walker wanted pick).walk c) c.fullWidth
      fun position => c.standing position) :
    Meets pick ((walker wanted pick).walkAll cs) (cs.map Element.fullWidth).sum
      fun position => Element.standingAll position cs := by
  induction cs with
  | nil => exact meets_nothing
  | cons c cs ih =>
    obtain ⟨soundC, soundCs⟩ := List.forall_mem_cons.1 sound
    obtain ⟨first, others⟩ := List.forall_mem_cons.1 parts
    have all := first.seq (ih soundCs others)
    simp only [soundC.fullWidth_eq] at all
    rw [List.map_cons, List.sum_cons, soundC.fullWidth_eq]
    exact all

/-- Whether nothing is to be picked from what lacks the wanted bits, nor from anything in it. -/
def Quiet (wanted : Summary) (pick : Nat → Element → Except Fault (List α)) : Prop :=
  ∀ e d : Element, e.Sound → e.summary.contains wanted = false → d.Part e →
    ∀ position, pick position d = .ok []

theorem Quiet.of_bits {β : Type} {has : Element → List β}
    (exact : ∀ e : Element, e.Sound →
      (e.summary.contains wanted = true ↔ ∃ d : Element, d.Part e ∧ has d ≠ []))
    (bare : ∀ position d, has d = [] → pick position d = .ok []) : Quiet wanted pick := by
  intro e d sound lacks part position
  apply bare
  by_contra some
  have set := (exact e sound).2 ⟨d, part, some⟩
  rw [lacks] at set
  cases set

theorem Quiet.standing (quiet : Quiet wanted pick) {e : Element} (sound : e.Sound)
    (lacks : e.summary.contains wanted = false) (start position : Nat) (d : Element)
    (mem : (position, d) ∈ e.standing start) : pick position d = .ok [] :=
  quiet e d sound lacks (Element.part_of_mem_standing mem) position

private theorem meets_walkTrivia (quiet : Quiet wanted pick) {ts : List Trivia}
    (sound : ∀ t ∈ ts, t.Sound) : Meets pick ((walker wanted pick).walkTrivia ts)
      (ts.map fun t => t.head.fullWidth).sum fun position =>
      Element.standingTrivia position ts := by
  induction ts with
  | nil => exact meets_nothing
  | cons t ts ih =>
    obtain ⟨first, others⟩ := List.forall_mem_cons.1 sound
    have here : Meets pick ((walker wanted pick).trivia t) t.head.fullWidth fun position =>
        [(position, .trivia t)] :=
      Meets.of_enter (e := .trivia t) (meets_advance _) (quiet.standing (.trivia first))
    have all := here.seq (ih others)
    simp only [first.fullWidth] at all
    rw [List.map_cons, List.sum_cons, first.fullWidth]
    exact all

theorem meets_walk (quiet : Quiet wanted pick) {e : Element} (sound : e.Sound) :
    Meets pick ((walker wanted pick).walk e) e.fullWidth fun position => e.standing position := by
  induction sound with
  | @node n own parts ih =>
    have inside := meets_walkAll parts ih
    rw [← own.fullWidth] at inside
    exact Meets.of_enter (e := .node n) inside (quiet.standing (.node own parts))
  | @token t own =>
    have leading := meets_walkTrivia quiet own.leading
    have trailing := meets_walkTrivia quiet own.trailing
    have inside := leading.seq ((meets_advance t.text.utf8ByteSize).seq trailing)
    have width : (t.leading.map fun s => s.head.fullWidth).sum + (t.text.utf8ByteSize +
        (t.trailing.map fun s => s.head.fullWidth).sum) = (Element.token t).fullWidth := by
      have total := own.fullWidth
      rw [own.leadingWidth, own.trailingWidth] at total
      rw [Element.fullWidth, Element.head, total, Nat.add_assoc]
    rw [width, ← own.leadingWidth, ← own.size_leadingText] at inside
    exact Meets.of_enter (e := .token t) inside (quiet.standing (.token own))
  | @trivia t own =>
    exact Meets.of_enter (e := .trivia t) (meets_advance _) (quiet.standing (.trivia own))

/-- A search finds what is picked from everything that stands in the element. -/
theorem run_eq_picks (quiet : Quiet wanted pick) {e : Element} (sound : e.Sound) {position : Nat}
    (room : position + e.fullWidth ≤ maxSize) :
    run wanted pick position e = picks pick (e.standing position) := by
  rw [run, meets_walk quiet sound { position } room]
  cases picks pick (e.standing position) with
  | error cause => rfl
  | ok found =>
    have all : ((#[] : Array α) ++ found).toList = found := by simp
    exact congrArg Except.ok all

end Search

theorem Diagnostic.rangeAt_eq (d : Diagnostic) (start : Nat) : d.rangeAt start =
    let range : Span := ⟨start + d.offset.toNat, start + d.offset.toNat + d.width.toNat⟩
    if range.stop ≤ maxSize then .ok range else .error .sumOverflow := by
  rw [rangeAt]
  by_cases fits : start + d.offset.toNat + d.width.toNat ≤ maxSize
  · have first : start + d.offset.toNat ≤ maxSize := Nat.le_trans (Nat.le_add_right _ _) fits
    rw [addSize_eq_ok first, if_pos fits]
    exact Span.ofLength_eq_ok fits
  · rw [if_neg fits]
    by_cases first : start + d.offset.toNat ≤ maxSize
    · rw [addSize_eq_ok first]
      exact Span.ofLength_eq_error (Nat.lt_of_not_le fits)
    · rw [addSize_eq_error (Nat.lt_of_not_le first)]
      rfl

def Element.ownDiagnostics (position : Nat) (e : Element) : List (Span × Diagnostic) :=
  e.overlay.diagnostics.map fun d =>
    (⟨position + d.offset.toNat, position + d.offset.toNat + d.width.toNat⟩, d)

def Element.standingDiagnostics (start : Nat) (e : Element) : List (Span × Diagnostic) :=
  (e.standing start).flatMap fun (position, d) => d.ownDiagnostics position

private def inRange (found : List (Span × Diagnostic)) :
    Except Fault (List (Span × Diagnostic)) :=
  if ∀ r ∈ found, r.1.stop ≤ maxSize then .ok found else .error .sumOverflow

private theorem inRange_append (found more : List (Span × Diagnostic)) :
    inRange (found ++ more) = (do
      let first ← inRange found
      let rest ← inRange more
      return first ++ rest) := by
  unfold inRange
  simp only [List.forall_mem_append]
  by_cases first : ∀ r ∈ found, r.1.stop ≤ maxSize
  · by_cases rest : ∀ r ∈ more, r.1.stop ≤ maxSize
    · rw [if_pos ⟨first, rest⟩, if_pos first, if_pos rest]
      rfl
    · rw [if_neg fun all => rest all.2, if_pos first, if_neg rest]
      rfl
  · rw [if_neg fun all => first all.1, if_neg first]
    rfl

private theorem inRange_eq_ok_iff {found : List (Span × Diagnostic)} :
    inRange found = .ok found ↔ ∀ r ∈ found, r.1.stop ≤ maxSize := by
  by_cases all : ∀ r ∈ found, r.1.stop ≤ maxSize
  · rw [inRange, if_pos all]
    exact iff_of_true rfl all
  · rw [inRange, if_neg all]
    exact iff_of_false nofun all

private theorem inRange_eq_error_iff {found : List (Span × Diagnostic)} :
    inRange found = .error .sumOverflow ↔ ∃ r ∈ found, maxSize < r.1.stop := by
  by_cases all : ∀ r ∈ found, r.1.stop ≤ maxSize
  · rw [inRange, if_pos all]
    refine iff_of_false nofun fun ⟨r, mem, large⟩ => ?_
    have small := all r mem
    omega
  · rw [inRange, if_neg all]
    refine iff_of_true rfl ?_
    by_contra none
    exact all fun r mem => Nat.le_of_not_lt fun large => none ⟨r, mem, large⟩

private theorem inRange_singleton (r : Span × Diagnostic) :
    inRange [r] = if r.1.stop ≤ maxSize then .ok [r] else .error .sumOverflow := by
  simp [inRange]

namespace PlacedNode

private def pickDiagnostics (start : Nat) (e : Element) :
    Except Fault (List (Span × Diagnostic)) :=
  e.overlay.diagnostics.mapM fun d => return (← d.rangeAt start, d)

private theorem pickDiagnostics_eq (start : Nat) (e : Element) :
    pickDiagnostics start e = inRange (e.ownDiagnostics start) := by
  rw [pickDiagnostics, Element.ownDiagnostics]
  induction e.overlay.diagnostics with
  | nil => rfl
  | cons d ds ih =>
    rw [List.mapM_cons, ih, List.map_cons, ← List.singleton_append, inRange_append, d.rangeAt_eq,
      inRange_singleton]
    by_cases fits : start + d.offset.toNat + d.width.toNat ≤ maxSize
    · rw [if_pos fits, if_pos fits]
      rfl
    · rw [if_neg fits, if_neg fits]
      rfl

private theorem picks_eq (es : List (Nat × Element)) : Search.picks pickDiagnostics es =
    inRange (es.flatMap fun (position, d) => d.ownDiagnostics position) := by
  induction es with
  | nil => rfl
  | cons e es ih =>
    obtain ⟨position, e⟩ := e
    rw [Search.picks, ih, pickDiagnostics_eq, List.flatMap_cons, inRange_append]

private theorem quiet_pickDiagnostics :
    Search.Quiet ({ diagnostics := true } : Summary) pickDiagnostics := by
  apply Search.Quiet.of_bits
  · intro e sound
    rw [e.summary.contains_diagnostics]
    exact sound.summaryExact.diagnostics
  · intro position d bare
    rw [pickDiagnostics, bare]
    rfl

private theorem diagnostics_eq {n : PlacedNode} (sound : n.element.Sound)
    (room : n.offset + n.element.fullWidth ≤ maxSize) :
    n.diagnostics = inRange (n.element.standingDiagnostics n.offset) := by
  have found := Search.run_eq_picks quiet_pickDiagnostics sound room
  rw [picks_eq] at found
  exact found

def Reports (n : PlacedNode) (found : List (Span × Diagnostic)) : Prop :=
  n.diagnostics = if ∀ r ∈ found, r.1.stop ≤ maxSize then .ok found else .error .sumOverflow

theorem reports_standing {n : PlacedNode} (sound : n.element.Sound)
    (room : n.offset + n.element.fullWidth ≤ maxSize) :
    n.Reports (n.element.standingDiagnostics n.offset) :=
  diagnostics_eq sound room

end PlacedNode

/-- The diagnostics of a node that is reached from the root of a tree are those on everything in it,
in source order, each placed behind all text before its element. They are found exactly if all of
them end at positions. -/
theorem Element.Obtained.reached_diagnostics {root : Node Element}
    (obtained : (Element.node root).Obtained) {path : List Nat} {n : PlacedNode}
    (reached : PlacedElement.Reached root path (.node n)) :
    let start := (Element.node root).bytesBefore path
    let expected := n.element.standingDiagnostics start
    (n.diagnostics = .ok expected ↔ ∀ r ∈ expected, r.1.stop ≤ maxSize) ∧
      (n.diagnostics = .error .sumOverflow ↔ ∃ r ∈ expected, maxSize < r.1.stop) ∧
      ∀ position d, (position, d) ∈ n.element.standing start →
        StandsAt (Element.node root).fullText position d.fullText := by
  intro start expected
  have sound := obtained.sound
  have placing := reached.placing sound
  have small : (Element.node root).fullText.utf8ByteSize ≤ maxSize :=
    sound.fullWidth_eq ▸ sound.fits
  have offset : n.offset = start := placing.offset
  have stands : StandsAt (Element.node root).fullText n.offset n.element.fullText := placing.stands
  have found := n.diagnostics_eq placing.sound (placing.le.trans small)
  rw [offset] at found stands
  refine ⟨?_, ?_, fun position d mem => stands.standing mem⟩
  · rw [found, inRange_eq_ok_iff]
  · rw [found, inRange_eq_error_iff]

theorem Element.reached_diagnostics_lastPosition :
    let far : Diagnostic := ⟨⟨7⟩, .warning, 4294967294, 1, []⟩
    let marked : Token :=
      ⟨1, ⟨.comma, { diagnostics := true }, 1, ⟨[far], []⟩⟩, ",", [], [], 0, 0⟩
    let part : Node Element :=
      ⟨2, ⟨.listNode, { diagnostics := true }, 1, .empty⟩, [.token marked]⟩
    let root : Node Element :=
      ⟨3, ⟨.listNode, { diagnostics := true }, 2, .empty⟩, [.node part, .node part]⟩
    let first : PlacedNode := ⟨⟨part, 0, 0⟩, [⟨root, 0, 0⟩]⟩
    let second : PlacedNode := ⟨⟨part, 1, 1⟩, [⟨root, 0, 0⟩]⟩
    (Element.node root).Obtained ∧ PlacedElement.Reached root [0] (.node first) ∧
      PlacedElement.Reached root [1] (.node second) ∧
        first.diagnostics = .ok [(⟨4294967294, 4294967295⟩, far)] ∧
          second.diagnostics = .error .sumOverflow := by
  intro far marked part root first second
  let comma : Token := ⟨0, ⟨.comma, {}, 1, .empty⟩, ",", [], [], 0, 0⟩
  have madeComma : Token.plain 0 .comma "," = .ok comma := rfl
  have madeMarked : (Element.token comma).withDiagnostics 1 [far] = .ok (.token marked) := by
    simp only [comma, marked]
    rfl
  have madePart : Node.plain 2 .listNode [.token marked] = .ok part := rfl
  have madeRoot : Node.plain 3 .listNode [.node part, .node part] = .ok root := rfl
  have obtainedComma : (Element.token comma).Obtained := .token (by simp) (by simp) madeComma
  have obtainedMarked : (Element.token marked).Obtained :=
    .withDiagnostics obtainedComma (by simp [Overlay.Addressable, Overlay.texts, far]) madeMarked
  have obtainedPart : (Element.node part).Obtained := .node (by simpa using obtainedMarked) madePart
  have obtained : (Element.node root).Obtained := .node (by simpa using obtainedPart) madeRoot
  have placed : (PlacedNode.root root).childrenWithTokens = .ok [.node first, .node second] := rfl
  have toFirst : PlacedElement.Reached root [0] (.node first) :=
    .childWithTokens (i := 0) .root placed rfl
  have toSecond : PlacedElement.Reached root [1] (.node second) :=
    .childWithTokens (i := 1) .root placed rfl
  have inFirst : first.element.standingDiagnostics ((Element.node root).bytesBefore [0]) =
      [(⟨4294967294, 4294967295⟩, far)] := by decide +kernel
  have inSecond : second.element.standingDiagnostics ((Element.node root).bytesBefore [1]) =
      [(⟨4294967295, 4294967296⟩, far)] := by decide +kernel
  have found := (obtained.reached_diagnostics toFirst).1
  have refused := (obtained.reached_diagnostics toSecond).2.1
  rw [inFirst] at found
  rw [inSecond] at refused
  refine ⟨obtained, toFirst, toSecond, found.2 (by decide), refused.2 (by decide)⟩

end GreenTree
