import GreenTree.Proofs.Stream.Bounds
import GreenTree.Proofs.Stream.Ledger
import GreenTree.Proofs.Stream.Lockstep
import GreenTree.Proofs.Walking

/-!
What writers and readers count. Both note a record for each occurrence of an element, before what is
in it, whatever moment of the record they choose for that; and both know the texts that were spelled
out, which are the texts of the element without repetitions if texts are shared, and all of them if
not.
-/

namespace GreenTree

def Element.kinds (e : Element) : List Kind := e.occurrences.map kind

namespace Element

theorem kinds_node (n : Node Element) :
    (Element.node n).kinds = n.head.kind :: n.children.flatMap kinds := by
  rw [kinds, occurrences, occurrencesOf_eq, List.map_cons, List.map_flatMap]
  rfl

theorem kinds_token (t : Token) : (Element.token t).kinds =
    t.head.kind :: (t.leading ++ t.trailing).map fun s => s.head.kind := by
  rw [kinds, occurrences, List.map_cons, List.map_map]
  rfl

theorem kinds_trivia (t : Trivia) : (Element.trivia t).kinds = [t.head.kind] := rfl

end Element

namespace Writer

variable {α β : Type} {limits : Limits}

def Begins (step : Write α) (ks : List Kind) : Prop :=
  ∀ w a w', step w = .ok a w' → w'.records.toList = w.records.toList ++ ks

namespace Begins

theorem bind {step : Write α} {next : α → Write β} {ks ks' : List Kind}
    (first : Begins step ks) (second : ∀ a, Begins (next a) ks') :
    Begins (step >>= next) (ks ++ ks') := by
  intro w b w'' run
  obtain ⟨a, w', run, rest⟩ := EStateM.bind_eq_ok_iff.1 run
  rw [second a w' b w'' rest, first w a w' run, List.append_assoc]

theorem none {step : Write α} (same : ∀ w a w', step w = .ok a w' → w'.records = w.records) :
    Begins step [] := by
  intro w a w' run
  rw [same w a w' run, List.append_nil]

theorem fail (e : WriteError) (ks : List Kind) : Begins (throw e : Write α) ks := nofun

theorem bytes (bs : List UInt8) : Begins (bytes bs) [] := by
  refine none fun w _ w' run => ?_
  simp only [Writer.bytes] at run
  split at run
  · cases run
    rfl
  · cases run

theorem fixed (width n : Nat) : Begins (fixed width n) [] := bytes _

theorem length (n : Nat) : Begins (length n) [] := by
  unfold Writer.length
  split
  · exact fixed 4 n
  · exact fail _ _

theorem block (bs : List UInt8) : Begins (block limits bs) [] := by
  refine none fun w _ w' run => ?_
  simp only [Writer.block] at run
  split at run
  · cases run
  · split at run
    · rename_i wrote
      cases run
      simpa using bytes bs _ _ _ wrote
    · cases run
    · cases run

theorem overlay (o : Overlay) : Begins (overlay limits o) [] := by
  have attached (absent : Bool) (bs : List UInt8) : Begins (attached limits absent bs) [] := by
    refine (fixed 1 _).bind fun _ => ?_
    cases absent with
    | true => exact none fun _ _ _ run => by cases run; rfl
    | false => exact block bs
  exact (attached _ _).bind fun _ => attached _ _

theorem text (s : String) : Begins (text limits s) [] := by
  unfold Writer.text
  dsimp only
  split
  · exact nofun
  · have looked : ∀ next : Writer → Write Unit, (∀ w, Begins (next w) []) →
        Begins (get >>= next) [] :=
      fun _ each w => each w w
    refine looked _ fun w => ?_
    split
    · exact (bytes _).bind fun _ => fixed 4 _
    · refine (bytes _).bind fun _ => (length _).bind fun _ => (bytes _).bind fun _ => ?_
      split
      · split
        · exact none fun _ _ _ run => by cases run; rfl
        · exact fail _ _
      · exact none fun _ _ _ run => by cases run; rfl

theorem forM {item : α → Write Unit} {ks : α → List Kind} {as : List α}
    (each : ∀ a ∈ as, Begins (item a) (ks a)) : Begins (as.forM item) (as.flatMap ks) := by
  induction as with
  | nil => exact none fun _ _ _ run => by cases run; rfl
  | cons a as ih =>
    obtain ⟨first, others⟩ := List.forall_mem_cons.1 each
    exact first.bind fun _ => ih others

private theorem element_of_contents {e : Element} {ks : List Kind}
    (contents : Begins (contents limits e) ks) :
    Begins (element limits e) (e.kind :: ks) := by
  have start : Begins (begin e.kind) [e.kind] := by
    intro w _ w' run
    cases run
    exact Array.toList_push
  rw [element_eq]
  exact start.bind fun _ => (fixed 2 _).bind fun _ => (fixed 2 _).bind fun _ =>
    (overlay _).bind fun _ => contents

theorem element (e : Element) : Begins (element limits e) e.kinds := by
  induction e using Element.induction with
  | node n parts =>
    rw [Element.kinds_node]
    refine element_of_contents ((length _).bind fun _ => ?_)
    rw [elements_eq]
    exact forM parts
  | token t =>
    have triviaList (ts : List Trivia) :
        Begins (triviaList limits ts) (ts.map fun s => s.head.kind) := by
      rw [List.map_eq_flatMap]
      refine (length _).bind fun _ => forM fun s _ => ?_
      exact element_of_contents (e := .trivia s) (text s.text)
    rw [Element.kinds_token, List.map_append]
    exact element_of_contents ((text _).bind fun _ => (triviaList _).bind fun _ => triviaList _)
  | trivia t => exact element_of_contents (text t.text)

end Begins

/-! ### Texts -/

private theorem foldl_learn_of_shared (share : limits.shareStrings = true) {texts : List String}
    (neat : texts.Nodup) (told : List String) : (told.foldl (learn limits) texts).Nodup ∧
      ∀ s, s ∈ told.foldl (learn limits) texts ↔ s ∈ texts ∨ s ∈ told := by
  induction told generalizing texts with
  | nil => exact ⟨neat, fun s => by simp⟩
  | cons t told ih =>
    rw [List.foldl_cons]
    by_cases old : t ∈ texts
    · have same : learn limits texts t = texts := if_pos ⟨share, old⟩
      obtain ⟨neat', members⟩ := ih neat
      rw [same]
      refine ⟨neat', fun s => ?_⟩
      rw [members, List.mem_cons]
      exact ⟨fun h => h.imp_right .inr,
        fun h => h.elim .inl fun h => h.elim (fun h => .inl (h ▸ old)) .inr⟩
    · have more : learn limits texts t = texts ++ [t] := if_neg fun h => old h.2
      obtain ⟨neat', members⟩ := ih (List.nodup_append.2
        ⟨neat, List.nodup_singleton t, fun s mem u one => by
          rw [List.mem_singleton.1 one]
          exact fun same => old (same ▸ mem)⟩)
      rw [more]
      refine ⟨neat', fun s => ?_⟩
      rw [members, List.mem_append, List.mem_singleton, List.mem_cons, or_assoc]

theorem length_learnt_of_shared (share : limits.shareStrings = true) (told : List String) :
    (told.foldl (learn limits) []).length = told.dedup.length := by
  obtain ⟨neat, members⟩ := foldl_learn_of_shared share List.nodup_nil told
  refine ((List.perm_ext_iff_of_nodup neat told.nodup_dedup).2 fun s => ?_).length_eq
  rw [members, List.mem_dedup]
  simp

theorem length_learnt_of_unshared (unshared : limits.shareStrings = false) (told : List String) :
    (told.foldl (learn limits) []).length = told.length := by
  have each (texts : List String) : told.foldl (learn limits) texts = texts ++ told := by
    induction told generalizing texts with
    | nil => exact (List.append_nil texts).symm
    | cons t told ih =>
      have more : learn limits texts t = texts ++ [t] := if_neg fun h => by
        rw [unshared] at h; cases h.1
      rw [List.foldl_cons, more, ih, List.append_assoc]
      rfl
  rw [each, List.nil_append]

end Writer

/-- The texts that a record makes known are known from its bytes: under limits that are wide enough
for both sides it is read in one way. -/
theorem Grammar.Record.texts_unique {w r : Limits} {p : List UInt8} {d : Blueprint}
    {texts texts' : List String} (record : Record w [] p d texts) (record' : Record r [] p d texts')
    (low : d.height ≤ r.maxDepth.toNat) :
    texts = texts' := by
  obtain ⟨maxStringLength, left, right⟩ : ∃ m, w.maxStringLength ≤ m ∧
      r.maxStringLength ≤ m :=
    (UInt32.le_total _ _).elim (fun le => ⟨_, le, UInt32.le_refl _⟩) fun le =>
      ⟨_, UInt32.le_refl _, le⟩
  obtain ⟨maxOverlayBytes, left', right'⟩ : ∃ m, w.maxOverlayBytes ≤ m ∧
      r.maxOverlayBytes ≤ m :=
    (UInt64.le_total _ _).elim (fun le => ⟨_, le, UInt64.le_refl _⟩) fun le =>
      ⟨_, UInt64.le_refl _, le⟩
  let wide : Limits := { r with maxStringLength, maxOverlayBytes }
  have parses : Reader.ReadsWithin 0 wide _ _ := Reader.element_parses (Nat.zero_le _)
  have ready := Reader.ready_start p 0
  have split : p = p ++ [] := (List.append_nil p).symm
  obtain ⟨e, s, read, -, rfl, -⟩ := (parses .all "green").complete ready
    ⟨record.widen left left', low, KindSet.contains_all _⟩ split
  obtain ⟨e', s', read', -, rfl, -⟩ := (parses .all "green").complete ready
    ⟨record'.widen right right', low, KindSet.contains_all _⟩ split
  cases read.symm.trans read'
  rfl

namespace Reader

def begun (r : Reader) : List Kind := r.visits.toList.map Visit.kind

/-- A reader that succeeds begins a record for each occurrence in what it gives. -/
theorem begun_ledger :
    Ledger (fun kind => [kind]) Element.kinds (fun ks r => r.begun = ks) fun _ _ => True where
  leaves same _ visits := by rwa [begun, visits]
  left _ := trivial
  back _ _ _ := trivial
  fewer _ := trivial
  later _ := trivial
  denied _ _ := trivial
  visit {given r} kind same := by
    rw [← same, begun, begun, Array.toList_push, List.map_append]
    rfl
  granted {given r kind text t i} same asked := by
    rw [Element.kinds_trivia, Interner.kind_of_ask asked]
    exact same
  trivia {given r kind text overlay t} same _ made := by
    obtain ⟨width, rfl⟩ := Trivia.eq_of_make made
    exact same
  token {given r kind missing text leading trailing overlay t} same made := by
    obtain ⟨width, before, behind, rfl⟩ := Token.eq_of_make made
    rw [Element.kinds_token, List.map_eq_flatMap]
    exact same
  node {given children r kind missing overlay n} same made := by
    obtain ⟨width, rfl⟩ := Node.eq_of_make made
    rw [Element.kinds_node]
    exact same

variable {limits : Limits} {allowed : KindSet} {expected : String} {r r' : Reader} {e : Element}

theorem element_of_allowed (run : element .standard limits allowed expected r = .ok e r') :
    element .standard limits .all "green" r = .ok e r' := by
  have wider (levels : Nat) (run : record .standard limits levels allowed expected r = .ok e r') :
      record .standard limits levels .all "green" r = .ok e r' := by
    cases levels with
    | zero => cases run
    | succ levels =>
      obtain ⟨opening, s, opened, rest⟩ := EStateM.bind_eq_ok_iff.1 run
      obtain ⟨room, -, found, more⟩ := header_eq_ok_iff.1 opened
      have opened : header .standard limits .all "green" r = .ok opening s :=
        header_eq_ok_iff.2 ⟨room, KindSet.contains_all _, found, more⟩
      exact EStateM.bind_eq_ok_iff.2 ⟨opening, s, opened, rest⟩
  exact wider _ run

end Reader

namespace Element

theorem Obtained.written_and_read {e : Element} (obtained : e.Obtained) {w r : Limits}
    {sink : ByteSink} {out : Writer} (written : Writer.element w e { sink } = .ok () out)
    {p suffix : List UInt8}
    (behind : out.sink.written.toList = sink.written.toList ++ p) {cell : Nat} {allowed : KindSet}
    {expected : String} {e' : Element} {session : Reader}
    (read : Reader.element .standard r allowed expected { rest := p ++ suffix, nextCell := cell } =
      .ok e' session) :
    e'.Realizes e.blueprint ∧ session.rest = suffix ∧ out.records.toList = e.kinds ∧
    session.begun = e'.kinds ∧
      (w.shareStrings = true → out.texts = session.texts) ∧
      session.texts = e.texts.foldl (Writer.learn w) [] := by
  have sound := obtained.sound
  have start : Lockstep.Agree w r 0 { sink } { rest := p ++ suffix, nextCell := cell } :=
    ⟨Reader.ready_start _ _, ⟨fun _ => rfl, Nat.zero_le _⟩, List.forall_mem_nil _⟩
  have answer := (Lockstep.element_reads (w := w) sound (Nat.zero_add r.maxDepth.toNat) .all "green"
    (KindSet.contains_all _)).answers start written behind rfl
  have whole := Reader.element_of_allowed read
  rcases answer.ok_or_error with ⟨-, e'', session', given, realizes, agree, rest⟩ |
    ⟨v, -, session', refused⟩
  · obtain ⟨rfl, rfl⟩ := EStateM.Result.ok.inj (given.symm.trans whole)
    have begun := (Reader.Tracks.element Reader.begun_ledger r Registry.standard_onlyStandard
      allowed expected [] _ rfl).1 _ _ read
    obtain ⟨q, texts, wrote, ⟨record, rfl⟩, -⟩ :=
      (Writer.element_learns w sound).of_ok start.knows written
    obtain ⟨-, q', d, means, ⟨record', low, -⟩, split⟩ :=
      (Reader.element_parses (Nat.zero_le _) .all "green").sound start.ready whole
    obtain rfl : p = q := List.append_cancel_left (behind.symm.trans wrote)
    obtain rfl : p = q' := List.append_cancel_right (split.trans (congrArg (q' ++ ·) rest))
    obtain rfl : e.blueprint = d := realizes.2.symm.trans means.2
    exact ⟨realizes, rest, Writer.Begins.element e _ _ _ written, begun, agree.knows.same,
      (record.texts_unique record' low).symm⟩
  · cases refused.symm.trans whole

theorem length_texts (e : Element) : e.texts.length = e.allTokens.length + e.allTrivia.length := by
  rw [texts, allTokens_eq, allTrivia_eq]
  induction e.occurrences with
  | nil => rfl
  | cons d ds ih => cases d <;> simp only [text?, token?, trivia?, List.filterMap_cons,
      List.length_cons, ih] <;> omega

/-- A fresh writer and a fresh reader of what it has written count as many records as the element
has occurrences. Where texts are shared both count its distinct texts; where they are not the reader
counts one for each token and each run of trivia. Either way the element is read as it was. -/
theorem Obtained.counts_agree {e : Element} (obtained : e.Obtained) {w r : Limits} {sink : ByteSink}
    {out : Writer} (written : Writer.element w e { sink } = .ok () out) {p suffix : List UInt8}
    (behind : out.sink.written.toList = sink.written.toList ++ p) {cell : Nat} {allowed : KindSet}
    {expected : String} {e' : Element} {session : Reader}
    (read : Reader.element .standard r allowed expected { rest := p ++ suffix, nextCell := cell } =
      .ok e' session) :
    e'.Verbatim e ∧ session.rest = suffix ∧
    out.records.size = e.occurrences.length ∧ session.visits.size = e.occurrences.length ∧
    (w.shareStrings = true →
      out.strings.size = e.texts.dedup.length ∧ session.strings.size = e.texts.dedup.length) ∧
    (w.shareStrings = false → session.strings.size =
      e.allTokens.length + e.allTrivia.length) := by
  obtain ⟨realizes, rest, noted, begun, same, texts⟩ :=
    obtained.written_and_read written behind read
  have count : session.strings.size = (e.texts.foldl (Writer.learn w) []).length :=
    congrArg List.length texts
  refine ⟨realizes.1.verbatim obtained.sound realizes.2, rest, ?_, ?_, fun share => ?_,
    fun unshared => ?_⟩
  · rw [← Array.length_toList, noted, kinds, List.length_map]
  · have size := congrArg List.length begun
    rw [Reader.begun, List.length_map, Array.length_toList, kinds, List.length_map] at size
    rw [size, length_occurrences, length_occurrences, realizes.2]
  · have known : out.strings.size = session.strings.size := congrArg List.length (same share)
    rw [known, count, Writer.length_learnt_of_shared share]
    exact ⟨rfl, rfl⟩
  · rw [count, Writer.length_learnt_of_unshared unshared, length_texts]

private theorem exists_read_markedComma (shareStrings : Bool) : ∃ out p e session,
    Writer.element { shareStrings } markedComma {} = .ok () out ∧
    out.sink.written.toList = [] ++ p ∧
      Reader.element .standard { shareStrings } .all "green" { rest := p ++ [255], nextCell := 9 } =
        .ok e session := by
  have sound := obtained_markedComma.sound
  have fits : (Writer.element { shareStrings } markedComma).run' {} = some () := by
    cases shareStrings <;> decide +kernel
  unfold EStateM.run' at fits
  split at fits
  · rename_i out run
    have knows : Writer.Knows { shareStrings } [] {} := ⟨fun _ => rfl, Nat.zero_le _⟩
    have low : markedComma.blueprint.height ≤ Limits.standard.maxDepth.toNat := by decide
    obtain ⟨p, _, wrote, record, -⟩ :=
      (Writer.element_emits { shareStrings } sound).of_ok knows run
    obtain ⟨e, session, read, -⟩ :=
      (Reader.element_parses (Nat.zero_le _) .all "green").complete
      (Reader.ready_start (p ++ [255]) 9) ⟨record, low, KindSet.contains_all _⟩ rfl
    exact ⟨out, p, e, session, run, wrote, read⟩
  · cases fits

theorem counts_agree_markedComma :
    (∃ out p e session, Writer.element { shareStrings := true } markedComma {} = .ok () out ∧
      Reader.element .standard { shareStrings := true } .all "green"
      { rest := p ++ [255], nextCell := 9 } =
        .ok e session ∧
      out.records.size = 3 ∧ session.visits.size = 3 ∧ out.strings.size = 2 ∧
      session.strings.size = 2) ∧
    ∃ out p e session, Writer.element { shareStrings := false } markedComma {} = .ok () out ∧
      Reader.element .standard { shareStrings := false } .all "green"
      { rest := p ++ [255], nextCell := 9 } =
        .ok e session ∧
      out.records.size = 3 ∧ session.visits.size = 3 ∧ session.strings.size = 3 ∧
      e.Verbatim markedComma := by
  obtain ⟨out, p, e, session, written, behind, read⟩ := exists_read_markedComma true
  obtain ⟨out', p', e', session', written', behind', read'⟩ := exists_read_markedComma false
  obtain ⟨-, -, records, visits, shared, -⟩ :=
    obtained_markedComma.counts_agree written behind read
  obtain ⟨same, -, records', visits', -, unshared⟩ :=
    obtained_markedComma.counts_agree written' behind' read'
  exact ⟨⟨out, p, e, session, written, read, records, visits, (shared rfl).1, (shared rfl).2⟩,
    out', p', e', session', written', read', records', visits', unshared rfl, same⟩

end Element

end GreenTree
