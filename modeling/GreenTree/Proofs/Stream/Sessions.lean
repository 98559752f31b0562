import GreenTree.Proofs.Stream.Written
import Mathlib.Data.List.Nodup

/-!
Sessions of a writer against sessions of a reader. A caller may write numbers, texts, lists and
elements in any order, and may be refused texts that are too long in between. Then whoever asks a
reader for the same things in the same order gets them, and behind each of them both sides number
the same texts alike.
-/

namespace GreenTree

/-- What a caller can write in one call. -/
inductive Item where
  | byte (n : UInt8)
  | half (n : UInt16)
  | word (n : UInt32)
  | flag (b : Bool)
  | length (n : Nat)
  | text (s : String)
  | diagnostics (ds : List Diagnostic)
  | annotations (as : List Annotation)
  | element (e : Element)

namespace Item

def write (limits : Limits) : Item → Writer.Write Unit
  | .byte n => Writer.fixed 1 n.toNat
  | .half n => Writer.fixed 2 n.toNat
  | .word n => Writer.fixed 4 n.toNat
  | .flag b => Writer.flag b
  | .length n => Writer.length n
  | .text s => Writer.text limits s
  | .diagnostics ds => Writer.diagnostics limits ds
  | .annotations as => Writer.annotations limits as
  | .element e => Writer.element limits e

def request : Item → Request
  | .byte _ => .byte
  | .half _ => .half
  | .word _ => .word
  | .flag _ => .flag
  | .length _ => .length
  | .text _ => .text
  | .diagnostics _ => .diagnostics
  | .annotations _ => .annotations
  | .element _ => .element .all "green"

def IsAnswer : (item : Item) → item.request.Answer → Prop
  | .byte n, (a : Nat) => a = n.toNat
  | .half n, (a : Nat) => a = n.toNat
  | .word n, (a : Nat) => a = n.toNat
  | .flag b, (a : Bool) => a = b
  | .length n, (a : Nat) => a = n
  | .text s, (a : String) => a = s
  | .diagnostics ds, (a : List Diagnostic) => a = ds
  | .annotations as, (a : List Annotation) => a = as
  | .element e, (a : Element) => a.Verbatim e

def Readable (limits : Limits) : Item → Prop
  | .diagnostics ds => Overlay.Addressable { diagnostics := ds }
  | .annotations as => Overlay.Addressable { annotations := as }
  | .element e => e.Obtained ∧ e.recordHeight ≤ limits.maxDepth.toNat
  | _ => True

end Item

namespace Writer

variable {limits : Limits} {α β : Type}

/-- What a session of a writer has written from one state to another. In between it may have been
refused texts. -/
inductive Session (limits : Limits) : Writer → List Item → Writer → Prop
  | nil (w : Writer) : Session limits w [] w
  | written {w w' w'' : Writer} (item : Item) {items : List Item} :
      item.write limits w = .ok () w' → Session limits w' items w'' →
      Session limits w (item :: items) w''
  | refused {w w' w'' : Writer} {s : String} {length limit : Nat} {items : List Item} :
      text limits s w = .error (.stringTooLong length limit) w' → Session limits w' items w'' →
      Session limits w items w''

def NeverTooLong (step : Write α) : Prop :=
  ∀ w w' length limit, step w ≠ .error (.stringTooLong length limit) w'

theorem NeverTooLong.bind {step : Write α} {next : α → Write β} (head : NeverTooLong step)
    (tail : ∀ a, NeverTooLong (next a)) : NeverTooLong (step >>= next) := by
  intro w w' length limit run
  rcases EStateM.bind_eq_error_iff.1 run with run | ⟨a, t, -, run⟩
  · exact head w w' length limit run
  · exact tail a t w' length limit run

theorem bytes_neverTooLong (bs : List UInt8) : NeverTooLong (bytes bs) := by
  intro w w' length limit run
  simp only [bytes] at run
  split at run <;> cases run

theorem length_neverTooLong (n : Nat) : NeverTooLong (length n) := by
  unfold length
  split
  · exact bytes_neverTooLong _
  · intro w w' length limit run
    cases run

theorem eq_of_text_refused {s : String} {w w' : Writer} {length limit : Nat}
    (run : text limits s w = .error (.stringTooLong length limit) w') : w' = w := by
  unfold text at run
  dsimp only at run
  split at run
  · rcases EStateM.bind_eq_error_iff.1 run with thrown | ⟨_, _, thrown, -⟩
    · cases thrown
      rfl
    · cases thrown
  · obtain ⟨_, _, read, run⟩ := (EStateM.bind_eq_error_iff.1 run).resolve_left nofun
    cases read
    cases found : (if limits.shareStrings = true then w.strings.index? s else none) with
    | some index =>
      simp only [found] at run
      exact absurd run
        ((bytes_neverTooLong _).bind (fun _ => bytes_neverTooLong _) w w' length limit)
    | none =>
      simp only [found] at run
      refine absurd run ((bytes_neverTooLong _).bind (fun _ => (length_neverTooLong _).bind
        fun _ => (bytes_neverTooLong _).bind fun _ => ?_) w w' length limit)
      intro t t' length limit last
      split at last
      · split at last <;> cases last
      · cases last

def KeepsDistinct (step : Write α) : Prop :=
  ∀ w a w', w.texts.Nodup → step w = .ok a w' → w'.texts.Nodup

namespace KeepsDistinct

theorem bind {step : Write α} {next : α → Write β} (head : KeepsDistinct step)
    (tail : ∀ a, KeepsDistinct (next a)) : KeepsDistinct (step >>= next) := by
  intro w b w'' distinct run
  obtain ⟨a, w', run, rest⟩ := EStateM.bind_eq_ok_iff.1 run
  exact tail a w' b w'' (head w a w' distinct run) rest

theorem of_same {step : Write α} (same : ∀ {w a w'}, step w = .ok a w' → w'.texts = w.texts) :
    KeepsDistinct step := by
  intro w a w' distinct run
  exact same run ▸ distinct

theorem pure (a : α) : KeepsDistinct (pure a) :=
  of_same fun run => congrArg Writer.texts (EStateM.pure_eq_ok_iff.1 run).2.symm

theorem forM {item : α → Write Unit} {as : List α}
    (each : ∀ a ∈ as, KeepsDistinct (item a)) :
    KeepsDistinct (as.forM item) := by
  induction as with
  | nil => exact pure ()
  | cons a as ih =>
    obtain ⟨first, others⟩ := List.forall_mem_cons.1 each
    exact first.bind fun _ => ih others

theorem fixed (width n : Nat) : KeepsDistinct (fixed width n) :=
  of_same fun run => (bytes_eq_ok run).2

theorem length (n : Nat) : KeepsDistinct (length n) :=
  of_same fun run => (length_eq_ok run).2.2

theorem block (limits : Limits) (bs : List UInt8) : KeepsDistinct (block limits bs) :=
  of_same fun run => (block_eq_ok run).2.2

theorem begin (kind : Kind) : KeepsDistinct (begin kind) := by
  intro w u w' distinct run
  cases run
  exact distinct

theorem text (limits : Limits) (s : String) : KeepsDistinct (text limits s) := by
  intro w u w' distinct run
  obtain ⟨-, ⟨_, _, _, _, same⟩ | ⟨-, unshared, shared⟩⟩ := text_eq_ok run
  · exact same ▸ distinct
  · cases share : limits.shareStrings with
    | false => exact unshared share ▸ distinct
    | true =>
      obtain ⟨new, -, grown⟩ := shared share
      rw [grown]
      simpa using List.Nodup.concat new distinct

theorem attached (limits : Limits) (absent : Bool) (bs : List UInt8) :
    KeepsDistinct (attached limits absent bs) := by
  unfold Writer.attached
  cases absent with
  | true => exact (fixed 1 _).bind fun _ => pure ()
  | false => exact (fixed 1 _).bind fun _ => block limits bs

theorem head (limits : Limits) (h : Head) : KeepsDistinct (head limits h) := by
  rw [head_eq]
  exact (fixed 2 _).bind fun _ => (fixed 2 _).bind fun _ => (attached limits _ _).bind
    fun _ => attached limits _ _

theorem trivia (limits : Limits) (t : Trivia) : KeepsDistinct (trivia limits t) :=
  (begin _).bind fun _ => (head limits _).bind fun _ => text limits _

theorem triviaList (limits : Limits) (ts : List Trivia) : KeepsDistinct (triviaList limits ts) :=
  (length _).bind fun _ => forM fun t _ => trivia limits t

theorem element (limits : Limits) (e : Element) : KeepsDistinct (element limits e) := by
  induction e using Element.induction with
  | node n ih =>
    rw [Writer.element, elements_eq]
    exact (begin _).bind fun _ => (head limits _).bind fun _ => (length _).bind fun _ => forM ih
  | token t =>
    exact (begin _).bind fun _ => (head limits _).bind fun _ => (text limits _).bind
      fun _ => (triviaList limits _).bind fun _ => triviaList limits _
  | trivia t => exact trivia limits t

theorem item (limits : Limits) (item : Item) : KeepsDistinct (item.write limits) := by
  cases item with
  | byte n => exact fixed 1 _
  | half n => exact fixed 2 _
  | word n => exact fixed 4 _
  | flag b => exact fixed 1 _
  | length n => exact length n
  | text s => exact text limits s
  | diagnostics ds => exact block limits _
  | annotations as => exact block limits _
  | element e => exact element limits e

end KeepsDistinct

theorem Session.distinct {w w' : Writer} {items : List Item} (session : Session limits w items w')
    (distinct : w.texts.Nodup) : w'.texts.Nodup := by
  induction session with
  | nil w => exact distinct
  | written item run _ ih => exact ih (KeepsDistinct.item limits item _ () _ distinct run)
  | refused run _ ih => exact ih (eq_of_text_refused run ▸ distinct)

end Writer

def Reader.ReadsBack (limits : Limits) : Reader → List Item → Reader → Prop :=
  Chain fun r item r' => ∃ a, Reader.serve .standard limits item.request r = .ok a r' ∧
    item.IsAnswer a

open Grammar Reader

variable {limits : Limits} {α δ : Type}

/-- Whether what a writer adds between two states leads a reader from one state to another, wherever
it stands. -/
def Exchange (limits : Limits) (w w' : Writer) (reads : Reader → Reader → Prop) : Prop :=
  ∀ texts, Writer.Knows limits texts w → ∃ p texts', w'.written = w.written ++ p ∧
    Writer.Knows limits texts' w' ∧ ∀ (r : Reader) suffix, r.Ready 0 → r.texts = texts →
      r.rest = p ++ suffix → ∃ r', reads r r' ∧ r'.Ready 0 ∧ r'.texts = texts' ∧
      r'.rest = suffix

namespace Exchange

theorem refl (w : Writer) : Exchange limits w w Eq := by
  intro texts knows
  refine ⟨[], texts, (List.append_nil _).symm, knows, fun r suffix ready same split => ?_⟩
  exact ⟨r, rfl, ready, same, split⟩

theorem trans {w w' w'' : Writer} {first second : Reader → Reader → Prop}
    (head : Exchange limits w w' first) (tail : Exchange limits w' w'' second) :
    Exchange limits w w'' fun r r'' => ∃ r', first r r' ∧ second r' r'' := by
  intro texts knows
  obtain ⟨p, texts', written, knows', reads⟩ := head texts knows
  obtain ⟨q, texts'', written', knows'', reads'⟩ := tail texts' knows'
  refine ⟨p ++ q, texts'', by rw [written', written, List.append_assoc], knows'', ?_⟩
  intro r suffix ready same split
  rw [List.append_assoc] at split
  obtain ⟨r', step, ready', same', split'⟩ := reads r _ ready same split
  obtain ⟨r'', step', behind⟩ := reads' r' _ ready' same' split'
  exact ⟨r'', ⟨r', step, step'⟩, behind⟩

theorem mono {w w' : Writer} {reads reads' : Reader → Reader → Prop}
    (exchange : Exchange limits w w' reads) (weaker : ∀ r r', reads r r' → reads' r r') :
    Exchange limits w w' reads' := by
  intro texts knows
  obtain ⟨p, texts', written, knows', each⟩ := exchange texts knows
  refine ⟨p, texts', written, knows', fun r suffix ready same split => ?_⟩
  obtain ⟨r', step, behind⟩ := each r suffix ready same split
  exact ⟨r', weaker r r' step, behind⟩

theorem of_phrase {step : Writer.Write Unit} {reader : Read α} {view : α → δ → Prop}
    {phrase : Phrase δ} {d : δ} {wrote : List String → List UInt8 → List String → Prop}
    (emits : Writer.Emits limits step wrote) (parses : Parses 0 reader view phrase)
    (spelled : ∀ texts p texts', wrote texts p texts' → phrase texts p d texts') {w w' : Writer}
    (run : step w = .ok () w') :
    Exchange limits w w' fun r r' => ∃ a, reader r = .ok a r' ∧ view a d := by
  intro texts knows
  obtain ⟨p, texts', written, wrote, knows'⟩ := emits.of_ok knows run
  refine ⟨p, texts', written, knows', ?_⟩
  rintro r suffix ready rfl split
  obtain ⟨a, r', read, means, same, rest⟩ :=
    parses.complete ready (spelled _ _ _ wrote) split
  exact ⟨r', ⟨a, read, means⟩, (parses.sound ready read).1, same, rest⟩

theorem fixed {width n : Nat} (small : n < Bytes.capacity width) {w w' : Writer}
    (run : Writer.fixed width n w = .ok () w') :
    Exchange limits w w' fun r r' => ∃ a, Reader.fixed width r = .ok a r' ∧ a = n := by
  apply of_phrase (Writer.fixed_emits width n) (fixed_parses width) _ run
  rintro texts _ _ ⟨rfl, rfl⟩
  exact ⟨⟨small, rfl⟩, rfl⟩

theorem block {decode : OverlayBlock.Decode α} {spelling : α → List UInt8 → Prop}
    (decodes : OverlayBlock.Decodes decode spelling) {a : α} {bs : List UInt8}
    (spelled : bs.length < Bytes.capacity 8 → spelling a bs) {w w' : Writer}
    (run : Writer.block limits bs w = .ok () w') :
    Exchange limits w w' fun r r' => ∃ b, Reader.block limits decode r = .ok b r' ∧ b = a := by
  apply of_phrase (Writer.block_emits limits bs) (block_parses limits decodes) _ run
  rintro texts _ _ ⟨rfl, within, rfl⟩
  exact ⟨⟨spelled (Nat.lt_of_le_of_lt within limits.maxOverlayBytes.toNat_lt), within⟩, rfl⟩

theorem element {e : Element} (sound : e.Sound) (depth : e.recordHeight ≤ limits.maxDepth.toNat)
    {w w' : Writer} (run : Writer.element limits e w = .ok () w') :
    Exchange limits w w' fun r r' => ∃ a,
      Reader.element .standard limits .all "green" r = .ok a r' ∧ a.Realizes e.blueprint := by
  apply of_phrase (Writer.element_emits limits sound) (element_parses (Nat.zero_le _) .all "green")
    _ run
  intro texts p texts' record
  exact ⟨record, depth, KindSet.contains_all _⟩

/-- Each item that is written is read back. -/
theorem item {item : Item} (readable : item.Readable limits) {w w' : Writer}
    (run : item.write limits w = .ok () w') : Exchange limits w w' fun r r' => ∃ a,
      Reader.serve .standard limits item.request r = .ok a r' ∧ item.IsAnswer a := by
  cases item with
  | byte n => exact fixed n.toNat_lt run
  | half n => exact fixed n.toNat_lt run
  | word n => exact fixed n.toNat_lt run
  | flag b => exact of_phrase (Writer.flag_emits b) flag_parses (fun _ _ _ => id) run
  | length n =>
    apply of_phrase (Writer.length_emits n) length_parses _ run
    rintro texts _ _ ⟨small, rfl, rfl⟩
    exact ⟨⟨small, rfl⟩, rfl⟩
  | text s =>
    exact of_phrase (Writer.text_emits limits s) (text_parses limits) (fun _ _ _ => id) run
  | diagnostics ds =>
    have small := (Overlay.addressable_iff.1 readable).1
    exact block (OverlayBlock.list_decodes OverlayBlock.diagnostic_decodes)
      (OverlayBlock.encodeDiagnostics_spelling small) run
  | annotations as =>
    have small := (Overlay.addressable_iff.1 readable).2
    exact block (OverlayBlock.list_decodes OverlayBlock.annotation_decodes)
      (OverlayBlock.encodeAnnotations_spelling small) run
  | element e =>
    obtain ⟨obtained, depth⟩ := readable
    apply (element obtained.sound depth run).mono
    rintro r r' ⟨a, read, sound, same⟩
    exact ⟨a, read, sound.verbatim obtained.sound same⟩

end Exchange

theorem Writer.Session.exchange {w w' : Writer} {items : List Item}
    (session : Session limits w items w') (readable : ∀ item ∈ items, item.Readable limits) :
    Exchange limits w w' fun r r' => ReadsBack limits r items r' := by
  induction session with
  | nil w =>
    apply (Exchange.refl w).mono
    rintro r _ rfl
    exact .nil r
  | written item run _ ih =>
    obtain ⟨first, others⟩ := List.forall_mem_cons.1 readable
    apply ((Exchange.item first run).trans (ih others)).mono
    rintro r r'' ⟨r', answered, back⟩
    exact .cons answered back
  | refused run _ ih =>
    obtain rfl := eq_of_text_refused run
    exact ih readable

theorem StringTable.index?_eq_some_iff {t : StringTable} (distinct : t.entries.toList.Nodup)
    {text : String} {index : Nat} :
    t.index? text = some index ↔ t.entries.toList[index]? = some text := by
  constructor
  · exact getElem?_of_index?
  · intro there
    cases found : t.index? text with
    | none => exact absurd (List.mem_of_getElem? there) (index?_eq_none_iff.1 found)
    | some first =>
      have bound : index < t.entries.toList.length := (List.getElem?_eq_some_iff.1 there).1
      have same := there.trans (getElem?_of_index? found).symm
      rw [(List.getElem?_inj bound distinct).1 same]

/-- Whatever a caller writes in a session, a reader under the same limits gives back in the same
order, wherever a session is interrupted. There the reader knows the texts that the writer has
numbered by the same numbers, and a text that the writer is refused for its length changes
nothing. -/
theorem Writer.Session.read_back {sink : ByteSink} {mid out : Writer} {before after : List Item}
    (first : Session limits { sink } before mid) (second : Session limits mid after out)
    (readable : ∀ item ∈ before ++ after, item.Readable limits) (suffix : List UInt8)
    (cell : Nat) :
    ∃ p q session session',
      mid.sink.written.toList = sink.written.toList ++ p ∧
      out.sink.written.toList = mid.sink.written.toList ++ q ∧
      ReadsBack limits { rest := p ++ (q ++ suffix), nextCell := cell } before session ∧
      session.rest = q ++ suffix ∧
      ReadsBack limits session after session' ∧
      session'.rest = suffix ∧
      (limits.shareStrings = true →
        ∀ i s, session.strings.get? i = some s ↔ mid.strings.index? s = some i) ∧
      ∀ s length limit w', text limits s mid = .error (.stringTooLong length limit) w' →
        w' = mid := by
  obtain ⟨readable, readable'⟩ := List.forall_mem_append.1 readable
  have start : Knows limits [] { sink } := ⟨fun _ => rfl, Nat.zero_le _⟩
  obtain ⟨p, texts, written, knows, reads⟩ := first.exchange readable [] start
  obtain ⟨q, texts', written', -, reads'⟩ := second.exchange readable' texts knows
  obtain ⟨session, back, ready, known, rest⟩ :=
    reads _ (q ++ suffix) (ready_start _ cell) rfl rfl
  obtain ⟨session', back', -, -, rest'⟩ := reads' session suffix ready known rest
  refine ⟨p, q, session, session', written, written', back, rest, back', rest', ?_, ?_⟩
  · intro share i s
    have same : mid.texts = session.texts := (knows.same share).trans known.symm
    have distinct := first.distinct List.nodup_nil
    have there : session.strings.get? i = session.texts[i]? := Array.getElem?_toList.symm
    rw [StringTable.index?_eq_some_iff distinct, there, ← same]
    rfl
  · intro s length limit w' refused
    exact eq_of_text_refused refused

theorem Writer.Session.read_back_markedComma :
    let limits : Limits := { maxDepth := 2, maxStringLength := 1 }
    ∃ mid out, Session limits {} [.text ",", .text " "] mid ∧
      Session limits mid [.element .markedComma, .flag true] out ∧
      ∃ p q session session',
        mid.sink.written.toList = p ∧
        out.sink.written.toList = mid.sink.written.toList ++ q ∧
        ReadsBack limits { rest := p ++ (q ++ [255]), nextCell := 9 } [.text ",", .text " "]
          session ∧
        ReadsBack limits session [.element .markedComma, .flag true] session' ∧
        session'.rest = [255] := by
  intro limits
  have fits : ((do
      Writer.text limits ","
      Writer.text limits " "
      Writer.element limits .markedComma
      Writer.flag true : Write Unit).run' {}) = some () := by decide +kernel
  unfold EStateM.run' at fits
  split at fits
  · rename_i out run
    obtain ⟨_, first, run₁, run⟩ := EStateM.bind_eq_ok_iff.1 run
    obtain ⟨_, mid, run₂, run⟩ := EStateM.bind_eq_ok_iff.1 run
    obtain ⟨_, third, run₃, run₄⟩ := EStateM.bind_eq_ok_iff.1 run
    have refused : text limits "ab" mid = .error (.stringTooLong 2 1) mid := rfl
    have before : Session limits {} [.text ",", .text " "] mid :=
      .written (.text ",") run₁ (.written (.text " ") run₂ (.nil mid))
    have after : Session limits mid [.element .markedComma, .flag true] out :=
      .refused refused
        (.written (.element .markedComma) run₃ (.written (.flag true) run₄ (.nil out)))
    have readable : ∀ item ∈ [Item.text ",", .text " "] ++ [.element .markedComma, .flag true],
        item.Readable limits := by
      have deep : Item.Readable limits (.element .markedComma) :=
        ⟨Element.obtained_markedComma, by decide⟩
      simpa [Item.Readable] using deep
    obtain ⟨p, q, session, session', written, written', back, -, back', rest', -⟩ :=
      read_back before after readable [255] 9
    exact ⟨mid, out, before, after, p, q, session, session', written, written',
      back, back', rest'⟩
  · cases fits

end GreenTree
