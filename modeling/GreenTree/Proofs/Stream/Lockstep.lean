import GreenTree.Proofs.Stream.Extension
import GreenTree.Proofs.Stream.Writable

/-!
Readers in lockstep with writers. A writer and a reader whose limits need not agree go through an
element side by side: behind each step both know the same texts, and the reader stands where the
writer does. So the reader ends at the first thing in the stream that it has anything against, and
gives the element if there is none.
-/

namespace GreenTree

namespace Writer

def overlay (limits : Limits) (o : Overlay) : Write Unit := do
  attached limits o.diagnostics.isEmpty (OverlayBlock.encodeDiagnostics o.diagnostics)
  attached limits o.annotations.isEmpty (OverlayBlock.encodeAnnotations o.annotations)

def contents (limits : Limits) : Element → Write Unit
  | .node n => do
    length n.children.length
    elements limits n.children
  | .token t => do
    text limits t.text
    triviaList limits t.leading
    triviaList limits t.trailing
  | .trivia t => text limits t.text

theorem element_eq (limits : Limits) (e : Element) : element limits e = (do
    begin e.kind
    fixed 2 e.kind.tag
    fixed 2 e.summary.bits
    overlay limits e.overlay
    contents limits e) := by
  cases e <;> simp [element, token, trivia, head_eq, overlay, contents, Element.kind, Element.head,
    Element.summary, Element.overlay]

end Writer

namespace Lockstep

open Grammar Reader

variable {w r : Limits} {depth : Nat} {α β δ : Type}

/-- Whether a writer and a reader are at the same place. -/
structure Agree (w r : Limits) (depth : Nat) (out : Writer) (session : Reader) : Prop where
  ready : session.Ready depth
  knows : Writer.Knows w session.texts out
  short : ∀ s ∈ session.texts, s.utf8ByteSize ≤ r.maxStringLength.toNat

/-- Whether a reader with nothing against what it reads gives something and goes on, and otherwise
ends in the first that it has against it. -/
def Answers (depth : Nat) (goes : α → Reader → Prop)
    (result : EStateM.Result ReadFailure Reader α) : List ReadError → Prop
  | [] => ∃ a session, result = .ok a session ∧ goes a session
  | v :: _ => ∃ session, result = .error (.error v) session ∧ session.depth = depth

theorem Answers.ok_or_error {goes : α → Reader → Prop}
    {result : EStateM.Result ReadFailure Reader α} {refused : List ReadError}
    (answers : Answers depth goes result refused) :
    (refused = [] ∧ ∃ a session, result = .ok a session ∧ goes a session) ∨
      ∃ v, refused.head? = some v ∧ ∃ session, result = .error (.error v) session := by
  cases refused with
  | nil => exact .inl ⟨rfl, answers⟩
  | cons v others =>
    obtain ⟨session, read, -⟩ := answers
    exact .inr ⟨v, rfl, session, read⟩

/-- Whether a reader reads what a step of a writer writes, but for what it has against it. -/
structure Mirrors (w r : Limits) (depth : Nat) (step : Writer.Write Unit) (reader : Read α)
    (view : α → Prop) (refused : List ReadError) : Prop where
  possible : ∃ a, view a
  emits : Writer.Emits w step fun _ _ _ => True
  answers : ∀ {out out' session p s}, Agree w r depth out session → step out = .ok () out' →
    out'.written = out.written ++ p → session.rest = p ++ s → Answers depth
      (fun a session' => view a ∧ Agree w r depth out' session' ∧ session'.rest = s)
      (reader session) refused

namespace Mirrors

variable {step step' : Writer.Write Unit} {reader : Read α} {view : α → Prop}
  {refused refused' : List ReadError}

theorem congr (mirrors : Mirrors w r depth step reader view refused) (same : refused = refused') :
    Mirrors w r depth step reader view refused' :=
  same ▸ mirrors

theorem weaken (mirrors : Mirrors w r depth step reader view refused) {view' : α → Prop}
    (weaker : ∀ a, view a → view' a) : Mirrors w r depth step reader view' refused where
  possible := by
    obtain ⟨a, means⟩ := mirrors.possible
    exact ⟨a, weaker a means⟩
  emits := mirrors.emits
  answers := by
    intro out out' session p s agree run written split
    have answer := mirrors.answers agree run written split
    cases refused with
    | nil =>
      obtain ⟨a, session', read, means, behind⟩ := answer
      exact ⟨a, session', read, weaker a means, behind⟩
    | cons v others => exact answer

theorem bind {next : α → Read β} {view' : β → Prop}
    (head : Mirrors w r depth step reader view refused)
    (tail : ∀ a, view a → Mirrors w r depth step' (next a) view' refused') :
    Mirrors w r depth (do step; step') (reader >>= next) view' (refused ++ refused') where
  possible := by
    obtain ⟨a, means⟩ := head.possible
    exact (tail a means).possible
  emits := by
    obtain ⟨a, means⟩ := head.possible
    exact (head.emits.bind fun _ => (tail a means).emits).mono fun _ _ _ _ => trivial
  answers := by
    intro out out'' session p s agree run written split
    obtain ⟨_, out', run, run'⟩ := EStateM.bind_eq_ok_iff.1 run
    obtain ⟨a, means⟩ := head.possible
    obtain ⟨q, _, first, -, knows⟩ := head.emits.of_ok agree.knows run
    obtain ⟨q', _, second, -, -⟩ := (tail a means).emits.of_ok knows run'
    obtain rfl : p = q ++ q' := by
      rw [second, first, List.append_assoc] at written
      exact (List.append_cancel_left written).symm
    rw [List.append_assoc] at split
    have answer := head.answers agree run first split
    cases refused with
    | nil =>
      obtain ⟨a, session', read, means, agree', split'⟩ := answer
      have answer' := (tail a means).answers agree' run' second split'
      have joined : (reader >>= next) session = next a session' := by
        change EStateM.bind reader next session = _
        simp only [EStateM.bind, read]
      rw [joined]
      exact answer'
    | cons v others =>
      obtain ⟨session', read, level⟩ := answer
      exact ⟨session', EStateM.bind_eq_error_iff.2 (.inl read), level⟩

theorem of_phrase {view : α → δ → Prop} {phrase : Phrase δ} {d : δ}
    {wrote : List String → List UInt8 → List String → Prop} (possible : ∃ a, view a d)
    (emits : Writer.Emits w step wrote) (parses : Parses depth reader view phrase)
    (accepted : ∀ texts p texts',
      (∀ s ∈ texts, s.utf8ByteSize ≤ r.maxStringLength.toNat) → wrote texts p texts' →
      phrase texts p d texts' ∧
        ∀ s ∈ texts', s.utf8ByteSize ≤ r.maxStringLength.toNat) :
    Mirrors w r depth step reader (view · d) [] where
  possible := possible
  emits := emits.mono fun _ _ _ _ => trivial
  answers := by
    intro out out' session p s agree run written split
    obtain ⟨q, texts', behind, wrote, knows⟩ := emits.of_ok agree.knows run
    obtain rfl : p = q := List.append_cancel_left (written.symm.trans behind)
    obtain ⟨spelled, short⟩ := accepted _ _ _ agree.short wrote
    obtain ⟨a, session', read, means, rfl, rest⟩ := parses.complete agree.ready spelled split
    have ready := (parses.sound agree.ready read).1
    exact ⟨a, session', read, means, ⟨ready, knows, short⟩, rest⟩

theorem of_refusal {view : α → Prop} {view' : α → δ → Prop} {phrase : Phrase δ}
    {wrote : List String → List UInt8 → List String → Prop} {v : ReadError}
    (possible : ∃ a, view a) (emits : Writer.Emits w step wrote)
    (parses : Parses depth reader view' phrase)
    (refuses : ∀ {session : Reader} {p texts' s}, session.Ready depth →
      (∀ s ∈ session.texts, s.utf8ByteSize ≤ r.maxStringLength.toNat) →
      wrote session.texts p texts' → session.rest = p ++ s →
        ∃ session', reader session = .error (.error v) session') :
    Mirrors w r depth step reader view (v :: refused) where
  possible := possible
  emits := emits.mono fun _ _ _ _ => trivial
  answers := by
    intro out out' session p s agree run written split
    obtain ⟨q, texts', behind, wrote, -⟩ := emits.of_ok agree.knows run
    obtain rfl : p = q := List.append_cancel_left (written.symm.trans behind)
    obtain ⟨session', read⟩ := refuses agree.ready agree.short wrote split
    exact ⟨session', read, (parses.failed agree.ready read).depth⟩

theorem of_plain {a : α} {spelling : α → List UInt8 → Prop}
    (emits : Writer.Emits w step fun texts p texts' => spelling a p ∧ texts' = texts)
    (parses : Parses depth reader Eq (plain spelling)) :
    Mirrors w r depth step reader (· = a) [] := by
  apply of_phrase ⟨a, rfl⟩ emits parses
  rintro texts p _ short ⟨spelled, rfl⟩
  exact ⟨⟨spelled, rfl⟩, short⟩

theorem silent {view : α → δ → Prop} {spelling : δ → List UInt8 → Prop} {d : δ}
    (possible : ∃ a, view a d) (parses : Parses depth reader view (plain spelling))
    (none : spelling d []) : Mirrors w r depth (Pure.pure ()) reader (view · d) [] := by
  apply of_phrase possible (.pure ()) parses
  rintro texts _ _ short ⟨rfl, rfl⟩
  exact ⟨⟨none, rfl⟩, short⟩

theorem pure {a : α} (means : view a) :
    Mirrors w r depth (Pure.pure ()) (Pure.pure a) view [] := by
  have parses : Parses depth (Pure.pure a) (fun a (_ : Unit) => view a) _ :=
    Parses.pure (d := ()) means
  exact silent ⟨a, means⟩ parses ⟨rfl, rfl⟩

theorem andThen {next : α → Read β} {view' : β → Prop}
    (head : Mirrors w r depth step reader view [])
    (tail : ∀ a, view a → Mirrors w r depth step' (next a) view' refused) :
    Mirrors w r depth (do step; step') (reader >>= next) view' refused :=
  head.bind tail

theorem start {next : α → Read β} {view' : β → Prop}
    (head : Mirrors w r depth (Pure.pure ()) reader view [])
    (tail : ∀ a, view a → Mirrors w r depth step (next a) view' refused) :
    Mirrors w r depth step (reader >>= next) view' refused :=
  head.andThen tail

theorem finish {next : α → Read β} {view' : β → Prop}
    (head : Mirrors w r depth step reader view refused)
    (tail : ∀ a, view a → Mirrors w r depth (Pure.pure ()) (next a) view' []) :
    Mirrors w r depth step (reader >>= next) view' refused := by
  have both := head.bind tail
  rw [List.append_nil] at both
  simpa using both

end Mirrors

theorem fixed_mirrors {width n : Nat} (small : n < Bytes.capacity width) :
    Mirrors w r depth (Writer.fixed width n) (fixed width) (· = n) [] := by
  apply Mirrors.of_plain ((Writer.fixed_emits width n).mono _) (fixed_parses width)
  rintro texts _ _ ⟨rfl, rfl⟩
  exact ⟨⟨small, rfl⟩, rfl⟩

theorem flag_mirrors (b : Bool) :
    Mirrors w r depth (Writer.flag b) flag (· = b) [] :=
  Mirrors.of_plain (Writer.flag_emits b) flag_parses

theorem length_mirrors (n : Nat) :
    Mirrors w r depth (Writer.length n) length (· = n) [] := by
  apply Mirrors.of_plain ((Writer.length_emits n).mono _) length_parses
  rintro texts _ _ ⟨small, rfl, rfl⟩
  exact ⟨⟨small, rfl⟩, rfl⟩

theorem kind_mirrors (k : Kind) :
    Mirrors w r depth (Writer.fixed 2 k.tag) kind (· = k) [] :=
  Mirrors.of_plain (Writer.fixed_emits 2 k.tag) kind_parses

theorem take_mirrors {bs : List UInt8} {count : Nat} (length : bs.length = count) :
    Mirrors w r depth (Writer.bytes bs) (take count) (· = bs) [] := by
  apply Mirrors.of_plain ((Writer.bytes_emits bs).mono _) (take_parses count)
  rintro texts _ _ ⟨rfl, rfl⟩
  exact ⟨⟨rfl, length⟩, rfl⟩

theorem text_of_long {session : Reader} {s : String} {rest : List UInt8}
    (ready : session.Ready depth) (small : s.utf8ByteSize < Bytes.capacity 4)
    (long : r.maxStringLength.toNat < s.utf8ByteSize)
    (split : session.rest =
      0 :: (Bytes.littleEndian 4 s.utf8ByteSize ++ Utf8.encode s) ++ rest) :
    ∃ session', text r session =
      .error (.error (.stringTooLong s.utf8ByteSize r.maxStringLength.toNat)) session' := by
  have tagged : session.rest =
      [0] ++ (Bytes.littleEndian 4 s.utf8ByteSize ++ (Utf8.encode s ++ rest)) := by
    simpa using split
  obtain ⟨_, session₁, first, rfl, -, split₁⟩ := (fixed_parses 1).complete (d := 0) ready
    ⟨⟨by decide, rfl⟩, rfl⟩ tagged
  have ready₁ := ((fixed_parses 1).sound ready first).1
  obtain ⟨_, session₂, second, rfl, -, -⟩ := (fixed_parses 4).complete ready₁
    ⟨⟨small, rfl⟩, rfl⟩ split₁
  refine ⟨session₂, EStateM.bind_eq_error_iff.2 (.inr ⟨0, session₁, first, ?_⟩)⟩
  refine EStateM.bind_eq_error_iff.2 (.inr ⟨s.utf8ByteSize, session₂, second, ?_⟩)
  dsimp only
  rw [if_pos long]
  rfl

theorem text_mirrors (s : String) :
    Mirrors w r depth (Writer.text w s) (text r) (· = s) (r.refusedText s) := by
  unfold Limits.refusedText
  split
  · rename_i long
    refine Mirrors.of_refusal ⟨s, rfl⟩ (Writer.text_emits w s) (text_parses r) ?_
    intro session p texts' rest ready short spelled split
    cases spelled with
    | inline fits =>
      exact text_of_long ready (Nat.lt_of_le_of_lt fits w.maxStringLength.toNat_lt) long split
    | reference _ found =>
      exact absurd (short s (List.mem_of_getElem? found)) (Nat.not_le.2 long)
  · rename_i fits
    have fits := Nat.le_of_not_lt fits
    apply Mirrors.of_phrase ⟨s, rfl⟩ (Writer.text_emits w s) (text_parses r)
    intro texts p texts' short spelled
    cases spelled with
    | inline =>
      refine ⟨.inline fits, fun t h => ?_⟩
      rcases List.mem_append.1 h with h | h
      · exact short t h
      · rw [List.mem_singleton.1 h]
        exact fits
    | reference small found => exact ⟨.reference small found, short⟩

theorem block_mirrors {decode : OverlayBlock.Decode α} {spelling : α → List UInt8 → Prop}
    (decodes : OverlayBlock.Decodes decode spelling)
    (thrifty : ∀ extra, OverlayBlock.Stable (OverlayBlock.State.enrich extra) .sizeLimit decode)
    {a : α} {bs : List UInt8} (spelled : bs.length < Bytes.capacity 8 → spelling a bs) :
    Mirrors w r depth (Writer.block w bs) (block r decode) (· = a)
      (if r.maxOverlayBytes.toNat < bs.length then [.overlay .sizeLimit] else []) := by
  split
  · rename_i large
    refine Mirrors.of_refusal ⟨a, rfl⟩ (Writer.block_emits w bs) (block_parses r decodes) ?_
    rintro session _ _ rest ready short ⟨rfl, within, rfl⟩ split
    have spelled := spelled (Nat.lt_of_le_of_lt within w.maxOverlayBytes.toNat_lt)
    obtain ⟨t, refused⟩ := decodes.refuses thrifty spelled large rest
    refine ⟨{ session with rest := t.rest }, ?_⟩
    unfold block
    rw [split, refused]
  · rename_i within
    apply Mirrors.of_plain ((Writer.block_emits w bs).mono _) (block_parses r decodes)
    rintro texts _ _ ⟨rfl, written, rfl⟩
    have spelled := spelled (Nat.lt_of_le_of_lt written w.maxOverlayBytes.toNat_lt)
    exact ⟨⟨spelled, Nat.le_of_not_lt within⟩, rfl⟩

theorem attached_mirrors {decode : OverlayBlock.Decode (List α)}
    {member : α → List UInt8 → Prop} {encode : List α → List UInt8} {members : List α}
    (decodes : OverlayBlock.Decodes decode (OverlayBlock.ListSpelling member))
    (thrifty : ∀ extra, OverlayBlock.Stable (OverlayBlock.State.enrich extra) .sizeLimit decode)
    (spelled : (encode members).length < Bytes.capacity 8 →
      OverlayBlock.ListSpelling member members (encode members)) :
    Mirrors w r depth (Writer.attached w members.isEmpty (encode members))
      (do if ← flag then block r decode else pure []) (· = members)
      (r.refusedBlock encode members) := by
  refine ((flag_mirrors (!members.isEmpty)).bind fun present same => (?_ : Mirrors w r depth _ _
    (· = members) (r.refusedBlock encode members)))
  subst same
  cases members with
  | nil => exact Mirrors.pure rfl
  | cons a as => exact (block_mirrors decodes thrifty spelled).congr (by simp [Limits.refusedBlock])

theorem overlay_mirrors {o : Overlay} (small : o.Addressable) :
    Mirrors w r depth (Writer.overlay w o) (overlay r) (· = o)
      (r.refusedBlock OverlayBlock.encodeDiagnostics o.diagnostics ++
        r.refusedBlock OverlayBlock.encodeAnnotations o.annotations) := by
  obtain ⟨diagnostics, annotations⟩ := Overlay.addressable_iff.1 small
  rw [overlay_eq, Writer.overlay]
  apply (attached_mirrors (OverlayBlock.list_decodes OverlayBlock.diagnostic_decodes)
    (fun extra => (OverlayBlock.closed_enrich extra).diagnostics)
    (OverlayBlock.encodeDiagnostics_spelling diagnostics)).bind
  rintro _ rfl
  apply (attached_mirrors (OverlayBlock.list_decodes OverlayBlock.annotation_decodes)
    (fun extra => (OverlayBlock.closed_enrich extra).annotations)
    (OverlayBlock.encodeAnnotations_spelling annotations)).finish
  rintro _ rfl
  exact Mirrors.pure rfl

namespace Mirrors

variable {step : Writer.Write Unit} {reader : Read α} {view : α → Prop}
    {refused : List ReadError}

theorem atDepth {next : Reader → Read α} (mirrors : Mirrors w r depth step reader view refused)
    (same : ∀ session : Reader, session.depth = depth → next session = reader) :
    Mirrors w r depth step (get >>= next) view refused where
  possible := mirrors.possible
  emits := mirrors.emits
  answers := by
    intro out out' session p s agree run written split
    have looked : (get >>= next) session = reader session :=
      congrFun (same session agree.ready.depth) session
    rw [looked]
    exact mirrors.answers agree run written split

theorem nested {inside : Read α} (small : depth < maxSize)
    (mirrors : Mirrors w r (depth + 1) step inside view refused) :
    Mirrors w r depth step (nested inside) view refused where
  possible := mirrors.possible
  emits := mirrors.emits
  answers := by
    intro out out' session p s agree run written split
    have few : session.depth < maxSize := agree.ready.depth ▸ small
    have deeper : Agree w r (depth + 1) out { session with depth := session.depth + 1 } :=
      ⟨agree.ready.deeper, agree.knows, agree.short⟩
    have answer := mirrors.answers deeper run written split
    cases refused with
    | nil =>
      obtain ⟨a, session', read, means, agree', rest⟩ := answer
      have back : Agree w r depth out' { session' with depth := session'.depth - 1 } :=
        ⟨agree'.ready.back, agree'.knows, agree'.short⟩
      have open_ : 0 < session'.depth := by
        rw [agree'.ready.depth]
        omega
      exact ⟨a, _, nested_of_ok few read open_, means, back, rest⟩
    | cons v others =>
      obtain ⟨session', read, level⟩ := answer
      exact ⟨_, nested_of_error few read (by omega), by simp [level]⟩

end Mirrors

private theorem repeatInto_mirrors {item : δ → Writer.Write Unit} {reader : Read α}
    {view : α → δ → Prop} {refused : δ → List ReadError} {ds : List δ}
    (each : ∀ d ∈ ds, Mirrors w r depth (item d) reader (view · d) (refused d))
    (done : Array α) :
    Mirrors w r depth (ds.forM item) (repeatInto reader ds.length done)
      (fun all => ∃ as, all.toList = done.toList ++ as ∧ List.Forall₂ view as ds)
      (ds.flatMap refused) := by
  induction ds generalizing done with
  | nil => exact Mirrors.pure ⟨[], (List.append_nil _).symm, .nil⟩
  | cons d ds ih =>
    obtain ⟨first, others⟩ := List.forall_mem_cons.1 each
    refine first.bind fun a means => (ih others (done.push a)).weaken ?_
    rintro all ⟨as, same, meant⟩
    exact ⟨a :: as, by simpa using same, .cons means meant⟩

theorem counted_mirrors {item : δ → Writer.Write Unit} {reader : Read α}
    {view : α → δ → Prop} {refused : δ → List ReadError} {ds : List δ}
    (each : ∀ d ∈ ds, Mirrors w r depth (item d) reader (view · d) (refused d)) :
    Mirrors w r depth (do
        Writer.length ds.length
        ds.forM item)
      (do repeated (← length) reader) (List.Forall₂ view · ds) (ds.flatMap refused) := by
  apply (length_mirrors ds.length).bind
  rintro _ rfl
  apply (repeatInto_mirrors each #[]).finish
  rintro all ⟨as, same, meant⟩
  apply Mirrors.pure
  rw [same]
  exact meant

def Reads (w r : Limits) (depth : Nat) (inner : Inner) (e : Element) : Prop :=
  ∀ allowed expected, allowed.contains e.kind = true →
    Mirrors w r depth (Writer.element w e) (inner allowed expected) (·.Realizes e.blueprint)
      (e.refusals r depth)

theorem triviaRecord_mirrors {inner : Inner} {t : Trivia}
    (reads : Reads w r depth inner (.trivia t)) (isTrivia : t.head.kind.isTrivia = true) :
    Mirrors w r depth (Writer.trivia w t) (triviaRecord inner) (·.Realizes t.blueprint)
      ((Element.trivia t).refusals r depth) := by
  have record := reads .trivia "trivia" isTrivia
  rw [Writer.element] at record
  apply record.finish
  rintro e ⟨sound, same⟩
  cases sound with
  | trivia own => exact Mirrors.pure ⟨own, Blueprint.trivia.inj same⟩
  | token own => cases same
  | node own parts => cases same

theorem triviaList_mirrors {inner : Inner} {ts : List Trivia}
    (reads : ∀ t ∈ ts, Reads w r depth inner (.trivia t)) (sound : ∀ t ∈ ts, t.Sound) :
    Mirrors w r depth (Writer.triviaList w ts) (triviaList inner)
      (List.Forall₂ Trivia.Realizes · (ts.map Trivia.blueprint))
      (ts.flatMap fun t => (Element.trivia t).refusals r depth) := by
  have each : ∀ t ∈ ts, Mirrors w r depth (Writer.trivia w t) (triviaRecord inner)
      (fun a => a.Realizes t.blueprint) ((Element.trivia t).refusals r depth) :=
    fun t h => triviaRecord_mirrors (reads t h) (sound t h).kind
  apply (counted_mirrors each).weaken
  intro as all
  exact List.forall₂_map_right_iff.2 all

theorem triviaContents_mirrors {t : Trivia} (sound : t.Sound) :
    Mirrors w r depth (Writer.text w t.text)
      (triviaContents r ⟨t.head.kind, t.head.summary, t.head.overlay⟩)
      (·.Realizes (.trivia t.blueprint)) (r.refusedText t.text) := by
  have means : t.Realizes ⟨t.head.kind, t.text, t.head.overlay⟩ := ⟨sound, rfl⟩
  rw [triviaContents_eq sound.kind]
  apply (text_mirrors t.text).finish
  rintro _ rfl
  have made : Parses depth _ _ _ :=
    madeTrivia_parses (h := ⟨t.head.kind, t.head.summary, t.head.overlay⟩)
      sound.overlay sound.kind t.text
  exact Mirrors.silent ⟨.trivia t, means.element⟩ made ⟨rfl, rfl, means.width_le⟩

theorem tokenContents_mirrors {inner : Inner} {t : Token} (sound : t.Sound)
    (reads : ∀ s ∈ t.leading ++ t.trailing, Reads w r depth inner (.trivia s)) :
    Mirrors w r depth (do
        Writer.text w t.text
        Writer.triviaList w t.leading
        Writer.triviaList w t.trailing)
      (tokenContents r inner ⟨t.head.kind, t.head.summary, t.head.overlay⟩)
      (·.Realizes (Element.token t).blueprint) (r.refusedText t.text ++
        (t.leading ++ t.trailing).flatMap fun s => (Element.trivia s).refusals r depth) := by
  have means : (Element.token t).Realizes (Element.token t).blueprint := ⟨.token sound, rfl⟩
  obtain ⟨leading, trailing⟩ := List.forall_mem_append.1 reads
  rw [List.flatMap_append]
  rw [tokenContents_eq inner sound.kind]
  apply (text_mirrors t.text).bind
  rintro _ rfl
  apply (triviaList_mirrors leading sound.leading).bind
  intro ls allLeading
  apply (triviaList_mirrors trailing sound.trailing).finish
  intro ts allTrailing
  have made : Parses depth _ _ _ :=
    madeToken_parses (h := ⟨t.head.kind, t.head.summary, t.head.overlay⟩)
      sound.overlay sound.kind t.text allLeading allTrailing
  exact Mirrors.silent ⟨_, means⟩ made ⟨rfl, rfl, means.width_le⟩

private theorem contains_children {c : Element} (sound : c.Sound) (shape : c.isTrivia = false) :
    KindSet.children.contains c.kind = true := by
  rw [KindSet.contains_children]
  cases sound with
  | node own parts => exact Bool.or_eq_true_iff.2 (.inr own.kind)
  | token own => exact Bool.or_eq_true_iff.2 (.inl own.kind)
  | trivia own => cases shape

theorem nodeContents_mirrors {inner : Inner} {n : Node Element} (sound : (Element.node n).Sound)
    (reads : ∀ c ∈ n.children, Reads w r depth inner c) :
    Mirrors w r depth (do
        Writer.length n.children.length
        Writer.elements w n.children)
      (nodeContents inner ⟨n.head.kind, n.head.summary, n.head.overlay⟩)
      (·.Realizes (Element.node n).blueprint) (n.children.flatMap (Element.refusals r depth)) := by
  have means : (Element.node n).Realizes (Element.node n).blueprint := ⟨sound, rfl⟩
  obtain ⟨own, parts⟩ := Element.sound_node_iff.1 sound
  have each : ∀ c ∈ n.children, Mirrors w r depth (Writer.element w c)
      (inner KindSet.children "node or token") (fun a => a.Realizes c.blueprint)
      (c.refusals r depth) := by
    intro c h
    exact reads c h _ _ (contains_children (parts c h) (own.shape c h))
  rw [Writer.elements_eq, nodeContents_eq inner own.kind]
  apply (counted_mirrors each).finish
  intro es all
  have all : List.Forall₂ Element.Realizes es (n.children.map Element.blueprint) :=
    List.forall₂_map_right_iff.2 all
  have shape : ∀ d ∈ n.children.map Element.blueprint, d.isTrivia = false := by
    simpa using own.shape
  have eq : (Element.node n).blueprint = .node n.head.kind n.head.summary.missing
      (n.children.map Element.blueprint) n.head.overlay := by
    rw [Element.blueprint, Element.blueprints_eq]
  rw [eq] at means ⊢
  have made : Parses depth _ _ _ :=
    madeNode_parses (h := ⟨n.head.kind, n.head.summary, n.head.overlay⟩) own.overlay
      own.kind shape all
  exact Mirrors.silent ⟨_, means⟩ made ⟨rfl, rfl, means.width_le⟩

theorem visit_mirrors (kind : Kind) :
    Mirrors w r depth (pure ()) (visit kind) (fun _ => True) [] where
  possible := ⟨(), trivial⟩
  emits := (Writer.Emits.pure ()).mono fun _ _ _ _ => trivial
  answers := by
    intro out out' session p s agree run written split
    cases run
    obtain rfl : p = [] := (List.append_right_eq_self.1 written.symm)
    exact ⟨(), _, rfl, trivial, ⟨⟨agree.ready.depth, agree.ready.interned⟩, agree.knows,
      agree.short⟩, split⟩

theorem Mirrors.begin {step : Writer.Write Unit} {reader : Read α} {view : α → Prop}
    {refused : List ReadError} (kind : Kind)
    (mirrors : Mirrors w r depth step reader view refused) : Mirrors w r depth (do
        Writer.begin kind
        step) reader view refused where
  possible := mirrors.possible
  emits := ((Writer.begin_emits w kind).bind fun _ => mirrors.emits).mono fun _ _ _ _ => trivial
  answers := by
    intro out out' session p s agree run written split
    have noted : Agree w r depth { out with records := out.records.push kind } session :=
      ⟨agree.ready, ⟨agree.knows.same, agree.knows.few⟩, agree.short⟩
    exact mirrors.answers noted run written split

theorem header_mirrors {e : Element} (addressable : e.overlay.Addressable)
    (room : depth < r.maxDepth.toNat) {allowed : KindSet} (expected : String)
    (here : allowed.contains e.kind = true) :
    Mirrors w r depth (do
        Writer.fixed 2 e.kind.tag
        Writer.fixed 2 e.summary.bits
        Writer.overlay w e.overlay)
      (header .standard r allowed expected)
      (· = (⟨e.kind, e.summary, e.overlay⟩, .standard e.kind))
      (r.refusedBlock OverlayBlock.encodeDiagnostics e.overlay.diagnostics ++
        r.refusedBlock OverlayBlock.encodeAnnotations e.overlay.annotations) := by
  have word : e.summary.bits < Bytes.capacity 2 := Nat.lt_trans e.summary.bits_lt (by decide)
  unfold header
  refine Mirrors.atDepth ?_ fun session level => by rw [level, if_neg (by omega)]
  apply (kind_mirrors e.kind).andThen
  rintro _ rfl
  simp only [here, Bool.not_true, Bool.false_eq_true, if_false]
  apply (fixed_mirrors word).andThen
  rintro _ rfl
  rw [Summary.ofBitsTruncate_bits]
  apply (overlay_mirrors addressable).finish
  rintro _ rfl
  exact Mirrors.pure rfl

theorem recordWith_mirrors {inner : Inner} {e : Element} {refused : List ReadError}
    (addressable : e.overlay.Addressable) (room : depth < r.maxDepth.toNat)
    (inside : Mirrors w r (depth + 1) (Writer.contents w e)
      (contents r inner ⟨e.kind, e.summary, e.overlay⟩ (.standard e.kind))
      (·.Realizes e.blueprint) refused)
    {allowed : KindSet} (expected : String) (here : allowed.contains e.kind = true) :
    Mirrors w r depth (Writer.element w e) (recordWith .standard r inner allowed expected)
      (·.Realizes e.blueprint)
      ((r.refusedBlock OverlayBlock.encodeDiagnostics e.overlay.diagnostics ++
        r.refusedBlock OverlayBlock.encodeAnnotations e.overlay.annotations) ++ refused) := by
  rw [Writer.element_eq]
  unfold recordWith
  apply Mirrors.begin
  have behind (opening : RecordHeader × RecordReader)
      (same : opening = (⟨e.kind, e.summary, e.overlay⟩, .standard e.kind)) :
      Mirrors w r depth (Writer.contents w e)
        (do
          visit opening.1.kind
          nested (contents r inner opening.1 opening.2))
        (·.Realizes e.blueprint) refused := by
    rw [same]
    exact (visit_mirrors e.kind).start fun _ _ => inside.nested (r.lt_maxSize room)
  simpa only [bind_assoc] using (header_mirrors addressable room expected here).bind behind

def contentsRefusals (limits : Limits) (depth : Nat) : Element → List ReadError
  | .node n => n.children.flatMap (Element.refusals limits depth)
  | .token t => limits.refusedText t.text ++
      (t.leading ++ t.trailing).flatMap fun s => (Element.trivia s).refusals limits depth
  | .trivia t => limits.refusedText t.text

theorem refusals_eq (limits : Limits) (depth : Nat) (e : Element) :
    e.refusals limits depth = limits.refusedDepth depth ++
      ((limits.refusedBlock OverlayBlock.encodeDiagnostics e.overlay.diagnostics ++
        limits.refusedBlock OverlayBlock.encodeAnnotations e.overlay.annotations) ++
          contentsRefusals limits (depth + 1) e) := by
  cases e <;> simp [Element.refusals, Element.ownRefusals, Element.ownText, contentsRefusals]

theorem reads_record {e : Element} (sound : e.Sound)
    (inside : ∀ levels, depth + (levels + 1) = r.maxDepth.toNat →
      Mirrors w r (depth + 1) (Writer.contents w e)
        (contents r (record .standard r levels) ⟨e.kind, e.summary, e.overlay⟩
          (.standard e.kind)) (·.Realizes e.blueprint) (contentsRefusals r (depth + 1) e))
    {levels : Nat} (total : depth + levels = r.maxDepth.toNat) :
    Reads w r depth (record .standard r levels) e := by
  intro allowed expected here
  rw [refusals_eq]
  cases levels with
  | zero =>
    have deep : r.maxDepth.toNat ≤ depth := by omega
    rw [Limits.refusedDepth, if_pos deep]
    refine Mirrors.of_refusal ⟨e, sound, rfl⟩ (Writer.element_emits w sound)
      (Parses.fail (.tooDeep r.maxDepth.toNat) Eq) ?_
    intro session p texts' s ready short spelled split
    exact ⟨session, rfl⟩
  | succ levels =>
    have room : depth < r.maxDepth.toNat := by omega
    rw [Limits.refusedDepth, if_neg (Nat.not_le.2 room), List.nil_append, record_succ]
    exact recordWith_mirrors sound.overlay room (inside levels total) expected here

theorem trivia_reads {t : Trivia} (sound : t.Sound) {levels : Nat}
    (total : depth + levels = r.maxDepth.toNat) :
    Reads w r depth (record .standard r levels) (.trivia t) := by
  refine reads_record (.trivia sound) (fun levels _ => ?_) total
  have standard : RecordReader.standard (Element.trivia t).kind = .trivia :=
    RecordReader.standard_of_isTrivia sound.kind
  rw [standard]
  exact triviaContents_mirrors sound

/-- Whole records are read as they are written, wherever records may still nest. -/
theorem element_reads {e : Element} (sound : e.Sound) : ∀ {depth levels : Nat},
    depth + levels = r.maxDepth.toNat → Reads w r depth (record .standard r levels) e := by
  induction sound with
  | @node n own parts ih =>
    intro depth levels total
    refine reads_record (.node own parts) (fun levels total => ?_) total
    have standard : RecordReader.standard (Element.node n).kind = .node :=
      RecordReader.standard_of_isNode own.kind
    rw [standard]
    exact nodeContents_mirrors (.node own parts) fun c h => ih c h (by omega)
  | @token t own =>
    intro depth levels total
    refine reads_record (.token own) (fun levels total => ?_) total
    have standard : RecordReader.standard (Element.token t).kind = .token :=
      RecordReader.standard_of_isToken own.kind
    rw [standard]
    refine tokenContents_mirrors own fun s h => ?_
    rcases List.mem_append.1 h with h | h
    · exact trivia_reads (own.leading s h) (by omega)
    · exact trivia_reads (own.trailing s h) (by omega)
  | trivia own =>
    intro depth levels total
    exact trivia_reads own total

theorem tree_mirrors (w r : Limits) {e : Element} (sound : e.Sound) :
    Mirrors w r 0 (Writer.tree w e) (tree .standard r) (·.Realizes e.blueprint)
      (e.refusals r 0) := by
  unfold Writer.tree tree
  apply (take_mirrors (by decide)).andThen
  rintro _ rfl
  apply (fixed_mirrors (by decide)).andThen
  rintro _ rfl
  refine Mirrors.atDepth ?_ fun session level => by rw [level]
  exact element_reads sound (by omega) .all "green" (KindSet.contains_all _)

theorem tree_answers {e : Element} (sound : e.Sound) {out : Writer}
    (run : Writer.tree w e {} = .ok () out) (suffix : List UInt8) (cell : Nat) :
    Answers 0 (fun e' session => e'.Realizes e.blueprint ∧ session.rest = suffix)
      (tree .standard r { rest := out.sink.written.toList ++ suffix, nextCell := cell })
      (e.refusals r 0) := by
  have start : Agree w r 0 {} { rest := out.sink.written.toList ++ suffix, nextCell := cell } :=
    ⟨ready_start _ _, ⟨fun _ => rfl, Nat.zero_le _⟩, List.forall_mem_nil _⟩
  have answer := (tree_mirrors w r sound).answers start run rfl rfl
  cases refused : e.refusals r 0 with
  | nil =>
    rw [refused] at answer
    obtain ⟨e', session, read, means, -, rest⟩ := answer
    exact ⟨e', session, read, means, rest⟩
  | cons v others =>
    rw [refused] at answer
    exact answer

end Lockstep

/-- To a sink without an end an element is written exactly if its parts are within the limits of the
writer. A reader refuses what was written exactly if records nest too deep for it or a part is not
within its own limits; it ends in the first of that in the order of the stream, and under the limits
of the writer that can only be the depth. -/
theorem Element.Obtained.limits_agree {e : Element} (obtained : e.Obtained) (w r : Limits) :
    ((∃ out, Writer.tree w e {} = .ok () out) ↔
      ∀ d : Element, d.Part e → d.Within w ∧ d.Countable) ∧
    ∀ out, Writer.tree w e {} = .ok () out → ∀ (suffix : List UInt8) (cell : Nat),
      let result :=
        Reader.tree .standard r { rest := out.sink.written.toList ++ suffix, nextCell := cell }
      ((∃ failure session, result = .error failure session) ↔
        r.maxDepth.toNat < e.recordHeight ∨ ∃ d : Element, d.Part e ∧ ¬d.Within r) ∧
      (∀ failure session, result = .error failure session →
        ∃ v, (e.refusals r 0).head? = some v ∧ failure = .error v) ∧
      (e.recordHeight ≤ r.maxDepth.toNat → (∀ d : Element, d.Part e → d.Within r) →
        ∃ e' session, result = .ok e' session ∧ session.rest = suffix ∧ e'.Verbatim e) ∧
      (w = r → ∀ failure session, result = .error failure session →
        failure = .error (.tooDeep r.maxDepth.toNat)) := by
  have writable := Writer.exists_tree_iff w obtained.sound
  refine ⟨writable, fun out run suffix cell => ?_⟩
  have refused : e.refusals r 0 ≠ [] ↔
      r.maxDepth.toNat < e.recordHeight ∨ ∃ d : Element, d.Part e ∧ ¬d.Within r := by
    rw [ne_eq, refusals_eq_nil_iff, Nat.zero_add, not_and_or, Nat.not_le]
    simp only [not_forall, exists_prop]
  rcases (Lockstep.tree_answers (r := r) obtained.sound run suffix cell).ok_or_error with
    ⟨nothing, e', session, read, means, rest⟩ | ⟨v, first, session, read⟩
  · refine ⟨⟨fun failed => ?_, fun other => absurd nothing (refused.2 other)⟩, ?_, ?_, ?_⟩
    · obtain ⟨failure, session, failed⟩ := failed
      cases read.symm.trans failed
    · intro failure session failed
      cases read.symm.trans failed
    · intro _ _
      exact ⟨e', session, read, rest, means.1.verbatim obtained.sound means.2⟩
    · intro same failure session failed
      cases read.symm.trans failed
  · have some : e.refusals r 0 ≠ [] := by
      intro none
      simp [none] at first
    refine ⟨⟨fun _ => refused.1 some, fun _ => ⟨_, session, read⟩⟩, ?_, ?_, ?_⟩
    · intro failure session' failed
      cases read.symm.trans failed
      exact ⟨v, first, rfl⟩
    · intro low within
      exact absurd (refusals_eq_nil_iff.2 ⟨by omega, within⟩) some
    · intro same failure session' failed
      cases read.symm.trans failed
      have within : ∀ d : Element, d.Part e → d.Within r :=
        fun d part => same ▸ (writable.1 ⟨out, run⟩ d part).1
      rw [eq_tooDeep_of_mem_refusals within (List.mem_of_mem_head? first)]

theorem Element.limits_agree_markedComma : ∃ out,
    Writer.tree .standard markedComma {} = .ok () out ∧ ∃ session,
      Reader.tree .standard { maxDepth := 1, maxOverlayBytes := 8 }
        { rest := out.sink.written.toList ++ [255], nextCell := 9 } =
          .error (.error (.overlay .sizeLimit)) session := by
  have fits : (Writer.tree .standard markedComma).run' {} = some () := by decide +kernel
  unfold EStateM.run' at fits
  split at fits
  · rename_i out run
    obtain ⟨-, readers⟩ := obtained_markedComma.limits_agree .standard
      { maxDepth := 1, maxOverlayBytes := 8 }
    obtain ⟨fails, first, -⟩ := readers out run [255] 9
    obtain ⟨failure, session, failed⟩ := fails.2 (.inl (by decide))
    obtain ⟨v, head, rfl⟩ := first failure session failed
    have mark : (markedComma.refusals { maxDepth := 1, maxOverlayBytes := 8 } 0).head? =
        some (.overlay .sizeLimit) := by decide +kernel
    cases mark.symm.trans head
    exact ⟨out, run, session, failed⟩
  · cases fits

end GreenTree
