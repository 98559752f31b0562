import GreenTree.Proofs.Assembly
import GreenTree.Proofs.FullText
import GreenTree.Proofs.Stream.Acceptance

/-!
Streams of descriptions, whatever their widths. A stream may describe more than a size can hold: a
few references to one long text are enough. Reading it stops where building the same from the leaves
up stops, at the first record that is too wide, and otherwise gives the same element. No record
before that is affected, and no width wraps.
-/

namespace GreenTree

namespace Grammar

/-- A record of any class and any width. It differs from a record in that nothing is said of the
widths of tokens and nodes. -/
inductive Draft (limits : Limits) : Phrase Blueprint
  | trivia {texts texts' : List String} {p : List UInt8} {t : TriviaBlueprint} :
      TriviaRecord limits texts p t texts' → Draft limits texts p (.trivia t) texts'
  | token {texts₀ texts₁ texts₂ texts₃ : List String} {header p q r :
      List UInt8} {kind : Kind} {missing : Bool} {text : String} {leading trailing :
      List TriviaBlueprint} {overlay : Overlay} :
      kind.isToken = true → Header limits kind missing overlay header →
      Text limits texts₀ p text texts₁ →
      Counted (TriviaRecord limits) texts₁ q leading texts₂ →
      Counted (TriviaRecord limits) texts₂ r trailing texts₃ →
      Draft limits texts₀ (header ++ (p ++ (q ++ r)))
        (.token kind missing text leading trailing overlay) texts₃
  | node {texts texts' : List String} {header p : List UInt8} {kind : Kind} {missing : Bool}
      {children : List Blueprint} {overlay : Overlay} :
      kind.isNode = true → Header limits kind missing overlay header →
      (∀ c ∈ children, c.isTrivia = false) → children.length < Bytes.capacity 4 →
      Many (Draft limits) texts p children texts' →
      Draft limits texts (header ++ (Bytes.littleEndian 4 children.length ++ p))
        (.node kind missing children overlay) texts'

/-- A stream with a record of any width. -/
inductive DraftStream (limits : Limits) : List UInt8 → Blueprint → Prop
  | mk {p : List UInt8} {d : Blueprint} {texts : List String} : Draft limits [] p d texts →
      DraftStream limits (streamMagic ++ (UInt8.ofNat streamVersion :: p)) d

variable {limits : Limits}

theorem draft_of_record {texts texts' : List String} {p : List UInt8} {d : Blueprint}
    (record : Record limits texts p d texts') : Draft limits texts p d texts' := by
  refine Record.induction ?_ ?_ ?_ record
  · intro texts p t texts' record
    exact .trivia record
  · intro _ _ _ _ _ _ _ _ _ _ _ _ _ _ isToken header text leading trailing _
    exact .token isToken header text leading trailing
  · intro _ _ _ _ _ _ _ _ isNode header shape count many _
    exact .node isNode header shape count (many.mono fun _ _ _ _ h => h.2)

/-- A record is a draft of one that fits: if the whole fits, so does everything in it. -/
theorem record_iff_draft {texts texts' : List String} {p : List UInt8} {d : Blueprint} :
    Record limits texts p d texts' ↔ Draft limits texts p d texts' ∧ d.width ≤ maxSize := by
  constructor
  · intro record
    refine ⟨draft_of_record record, ?_⟩
    cases record with
    | trivia record =>
      cases record
      assumption
    | token isToken header text leading trailing fits => exact fits
    | node isNode header shape count many fits => exact fits
  · rintro ⟨draft, fits⟩
    induction d using Blueprint.induction generalizing texts p texts' with
    | trivia t =>
      cases draft with
      | trivia record => exact .trivia record
    | token kind missing text leading trailing overlay =>
      cases draft with
      | token isToken header spelled first second =>
        exact .token isToken header spelled first second fits
    | node kind missing children overlay ih =>
      cases draft with
      | node isNode header shape count many =>
        have inside : ∀ c ∈ children, c.width ≤ maxSize :=
          fun c child => (Blueprint.width_le_of_child child).trans fits
        have kept := many_and_iff.2 ⟨many, fun c (child : c ∈ children) => child⟩
        exact .node isNode header shape count
          (kept.mono fun _ _ c _ h => ih c h.2 h.1 (inside c h.2)) fits

/-! ### Every description can be written -/

theorem exists_attached {α : Type} {member : α → List UInt8 → Prop}
    {encode : List α → List UInt8} {members : List α}
    (spelled : (encode members).length < Bytes.capacity 8 →
      OverlayBlock.ListSpelling member members (encode members))
    (short : members ≠ [] → (encode members).length ≤ limits.maxOverlayBytes.toNat) :
    ∃ p, Attached limits member members p := by
  by_cases none : members = []
  · subst none
    exact ⟨[0], .absent⟩
  · have within := short none
    have small := Nat.lt_of_le_of_lt within limits.maxOverlayBytes.toNat_lt
    exact ⟨1 :: encode members, .present (spelled small) within⟩

theorem exists_header (kind : Kind) (missing : Bool) {overlay : Overlay}
    (fits : overlay.FitsIn limits) : ∃ p, Header limits kind missing overlay p := by
  obtain ⟨diagnostics, annotations⟩ := Overlay.addressable_iff.1 fits.addressable
  obtain ⟨p, first⟩ := exists_attached
    (OverlayBlock.encodeDiagnostics_spelling diagnostics) fits.diagnostics
  obtain ⟨q, second⟩ := exists_attached
    (OverlayBlock.encodeAnnotations_spelling annotations) fits.annotations
  have bit : missing.toNat.testBit 0 = missing := by
    cases missing <;> rfl
  have small : missing.toNat < Bytes.capacity 2 := by
    cases missing <;> decide
  have header : Header limits kind (missing.toNat.testBit 0) overlay _ := .mk small first second
  rw [bit] at header
  exact ⟨_, header⟩

theorem exists_many {α : Type} {phrase : Phrase α} {as : List α}
    (each : ∀ a ∈ as, ∀ texts, ∃ p texts', phrase texts p a texts') (texts : List String) :
    ∃ p texts', Many phrase texts p as texts' := by
  induction as generalizing texts with
  | nil => exact ⟨[], texts, .nil⟩
  | cons a as ih =>
    obtain ⟨first, others⟩ := List.forall_mem_cons.1 each
    obtain ⟨p, texts', head⟩ := first texts
    obtain ⟨q, texts'', tail⟩ := ih others texts'
    exact ⟨p ++ q, texts'', .cons head tail⟩

theorem exists_triviaRecord {t : TriviaBlueprint} (described : t.Described limits)
    (texts : List String) : ∃ p texts', TriviaRecord limits texts p t texts' := by
  obtain ⟨header, spelled⟩ := exists_header t.kind false described.overlay
  exact ⟨_, _, .mk described.kind spelled (.inline described.text) described.width_le⟩

theorem exists_draft {d : Blueprint} (described : d.Described limits) (texts : List String) :
    ∃ p texts', Draft limits texts p d texts' := by
  induction described generalizing texts with
  | trivia own =>
    obtain ⟨p, texts', record⟩ := exists_triviaRecord own texts
    exact ⟨p, texts', .trivia record⟩
  | @token kind missing text leading trailing overlay isToken short attached few few' parts bare =>
    obtain ⟨front, back⟩ := List.forall_mem_append.1 parts
    obtain ⟨header, spelled⟩ := exists_header kind missing attached
    obtain ⟨q, texts₂, first⟩ := exists_many
      (fun t mem => exists_triviaRecord (front t mem)) (texts ++ [text])
    obtain ⟨r, texts₃, second⟩ := exists_many
      (fun t mem => exists_triviaRecord (back t mem)) texts₂
    exact ⟨_, texts₃, .token isToken spelled (.inline short) (.mk few first)
      (.mk few' second)⟩
  | @node kind children overlay isNode attached few shape parts ih =>
    obtain ⟨header, spelled⟩ := exists_header kind false attached
    obtain ⟨p, texts', many⟩ := exists_many ih texts
    exact ⟨_, texts', .node isNode spelled shape few many⟩

end Grammar

namespace Reader

open Grammar

variable {α β δ : Type} {depth : Nat} {limits : Limits}

/-- What can stand in a stream, with its meaning fixed: the texts before it, its bytes, and the
texts behind it. -/
abbrev Spelled := List String → List UInt8 → List String → Prop

def Spelled.andThen (first second : Spelled) : Spelled := fun texts p texts'' =>
  ∃ q r texts', first texts q texts' ∧ second texts' r texts'' ∧ p = q ++ r

def Spelled.plain (spelling : List UInt8 → Prop) : Spelled := fun texts p texts' =>
  spelling p ∧ texts' = texts

def Spelled.nothing : Spelled := plain (· = [])

def Spelled.token (limits : Limits) (text : String) (leading trailing : List TriviaBlueprint) :
    Spelled :=
  Spelled.andThen (Text limits · · text ·) (Spelled.andThen
    (Counted (TriviaRecord limits) · · leading ·)
    (Counted (TriviaRecord limits) · · trailing ·))

def Spelled.headed (limits : Limits) (kind : Kind) (missing : Bool) (o : Overlay)
    (behind : Spelled) : Spelled :=
  (plain (Header limits kind missing o)).andThen behind

theorem Spelled.headed_of_header {kind : Kind} {missing : Bool} {o : Overlay} {behind : Spelled}
    {texts texts' : List String} {header p : List UInt8}
    (spelled : Header limits kind missing o header) (given : behind texts p texts') :
    headed limits kind missing o behind texts (header ++ p) texts' :=
  ⟨header, p, texts, ⟨spelled, rfl⟩, given, rfl⟩

/-- Whether a reader reads what is spelled if nothing is too wide, and otherwise stops for the first
kind that is blamed. -/
structure Weighs (depth : Nat) (reader : Read α) (view : α → Prop) (spelled : Spelled)
    (wide : List Kind) : Prop where
  ends : ∀ {r : Reader} {p texts s}, r.Ready depth → spelled r.texts p texts →
    r.rest = p ++ s →
    Ends (fun a r' => view a ∧ r'.Ready depth ∧ r'.texts = texts ∧ r'.rest = s)
      (fun r' => r'.depth = depth) (reader r) (wide.map fun k => .error (.widthOverflow k))

namespace Weighs

variable {reader : Read α} {view : α → Prop} {spelled spelled' : Spelled}
    {wide wide' : List Kind}

theorem of_parses {means : α → δ → Prop} {phrase : Phrase δ}
    (parses : Parses depth reader means phrase)
    (accepted : ∀ texts p texts', spelled texts p texts' →
      ∃ d, phrase texts p d texts' ∧ ∀ a, means a d → view a) :
    Weighs depth reader view spelled [] where
  ends := by
    intro r p texts s ready given split
    obtain ⟨d, phrase, sees⟩ := accepted _ _ _ given
    obtain ⟨a, r', run, meant, known, rest⟩ := parses.complete ready phrase split
    exact ⟨a, r', run, sees a meant, (parses.sound ready run).1, known, rest⟩

theorem of_plain {a : α} {spelling : α → List UInt8 → Prop}
    (parses : Parses depth reader Eq (Reader.plain spelling)) :
    Weighs depth reader (· = a) (Spelled.plain (spelling a)) [] :=
  of_parses parses fun _ _ _ given => ⟨a, given, fun _ => id⟩

theorem congr (weighs : Weighs depth reader view spelled wide)
    (given : ∀ texts p texts', spelled' texts p texts' → spelled texts p texts') :
    Weighs depth reader view spelled' wide where
  ends := by
    intro r p texts s ready spelling split
    exact weighs.ends ready (given _ _ _ spelling) split

theorem weaken (weighs : Weighs depth reader view spelled wide) {view' : α → Prop}
    (weaker : ∀ a, view a → view' a) : Weighs depth reader view' spelled wide where
  ends := by
    intro r p texts s ready given split
    apply (weighs.ends ready given split).mono
    intro a r' behind
    exact ⟨weaker a behind.1, behind.2⟩

theorem bind {next : α → Read β} {view' : β → Prop}
    (head : Weighs depth reader view spelled wide)
    (tail : ∀ a, view a → Weighs depth (next a) view' spelled' wide') :
    Weighs depth (reader >>= next) view' (spelled.andThen spelled') (wide ++ wide') where
  ends := by
    intro r _ texts s ready given split
    obtain ⟨p, q, texts', first, second, rfl⟩ := given
    rw [List.append_assoc] at split
    rw [List.map_append]
    apply (head.ends ready first split).bind
    intro a r' behind
    obtain ⟨means, ready', rfl, rest⟩ := behind
    exact (tail a means).ends ready' second rest

theorem pure {a : α} (means : view a) : Weighs depth (Pure.pure a) view Spelled.nothing [] where
  ends := by
    intro r p texts s ready given split
    obtain ⟨rfl, rfl⟩ := given
    exact ⟨a, r, rfl, means, ready, rfl, split⟩

theorem finish {next : α → Read β} {view' : β → Prop}
    (head : Weighs depth reader view spelled wide)
    (tail : ∀ a, view a → Weighs depth (next a) view' Spelled.nothing wide') :
    Weighs depth (reader >>= next) view' spelled (wide ++ wide') := by
  apply (head.bind tail).congr
  intro texts p texts' given
  exact ⟨p, [], texts', given, ⟨rfl, rfl⟩, (List.append_nil p).symm⟩

theorem after {step : Read β} {next : β → Read α}
    (free : ∀ r : Reader, r.Ready depth → ∃ b r', step r = .ok b r' ∧ r'.Ready depth ∧
      r'.texts = r.texts ∧ r'.rest = r.rest)
    (weighs : ∀ b, Weighs depth (next b) view spelled wide) :
    Weighs depth (step >>= next) view spelled wide where
  ends := by
    intro r p texts s ready given split
    obtain ⟨b, r', run, ready', known, rest⟩ := free r ready
    have joined : (step >>= next) r = next b r' := by
      change EStateM.bind step next r = _
      simp only [EStateM.bind, run]
    rw [joined]
    exact (weighs b).ends ready' (known ▸ given) (rest ▸ split)

theorem made {maker : Nat → Except Fault α} {wrap : α → β} {view : β → Prop}
    {d : Blueprint} (makes : MakesIfFits maker (fun a => view (wrap a)) d) : Weighs depth (do
      let cell ← freshCell
      return wrap (← built (maker cell))) view Spelled.nothing d.blamed where
  ends := by
    intro r p texts s ready given split
    obtain ⟨rfl, rfl⟩ := given
    have ready' : Ready depth { r with nextCell := r.nextCell + 1 } :=
      ⟨ready.depth, ready.interned⟩
    rcases makes r.nextCell with ⟨fits, a, run, means⟩ | ⟨wide, refused⟩
    · rw [Blueprint.blamed_eq_nil fits]
      refine ⟨wrap a, { r with nextCell := r.nextCell + 1 }, ?_, means, ready', rfl, split⟩
      refine EStateM.bind_eq_ok_iff.2 ⟨r.nextCell, _, rfl, ?_⟩
      simp only [run]
      rfl
    · rw [Blueprint.blamed_of_lt wide]
      refine ⟨{ r with nextCell := r.nextCell + 1 }, ?_, ready'.depth⟩
      refine EStateM.bind_eq_error_iff.2 (.inr ⟨r.nextCell, _, rfl, ?_⟩)
      simp only [refused]
      rfl

theorem atDepth {next : Reader → Read α} (weighs : Weighs depth reader view spelled wide)
    (same : ∀ r : Reader, r.depth = depth → next r = reader) :
    Weighs depth (get >>= next) view spelled wide where
  ends := by
    intro r p texts s ready given split
    have looked : (get >>= next) r = reader r := congrFun (same r ready.depth) r
    rw [looked]
    exact weighs.ends ready given split

theorem nested (small : depth < maxSize) (weighs : Weighs (depth + 1) reader view spelled wide) :
    Weighs depth (nested reader) view spelled wide where
  ends := by
    intro r p texts s ready given split
    have few : r.depth < maxSize := ready.depth ▸ small
    have inside := weighs.ends ready.deeper given split
    cases wide with
    | nil =>
      obtain ⟨a, r', read, means, ready', known, rest⟩ := inside
      have open_ : 0 < r'.depth := by
        rw [ready'.depth]
        omega
      exact ⟨a, _, nested_of_ok few read open_, means, ready'.back, known, rest⟩
    | cons k others =>
      obtain ⟨r', read, level⟩ := inside
      refine ⟨_, nested_of_error few read (by omega), ?_⟩
      show r'.depth - 1 = depth
      omega

private theorem repeatInto {item : Read α} {means : α → δ → Prop} {phrase : Phrase δ}
    {wide : δ → List Kind} {ds : List δ}
    (each : ∀ d ∈ ds, Weighs depth item (means · d) (phrase · · d ·) (wide d))
    (done : Array α) :
    Weighs depth (repeatInto item ds.length done)
      (fun all => ∃ as, all.toList = done.toList ++ as ∧ List.Forall₂ means as ds)
      (Many phrase · · ds ·) (ds.flatMap wide) := by
  induction ds generalizing done with
  | nil =>
    apply (pure ⟨[], (List.append_nil _).symm, .nil⟩).congr
    intro texts p texts' many
    cases many
    exact ⟨rfl, rfl⟩
  | cons d ds ih =>
    obtain ⟨first, others⟩ := List.forall_mem_cons.1 each
    refine (first.bind fun a meant => (ih others (done.push a)).weaken ?_).congr ?_
    · rintro all ⟨as, same, meants⟩
      exact ⟨a :: as, by simpa using same, .cons meant meants⟩
    · intro texts p texts' many
      cases many with
      | cons head tail => exact ⟨_, _, _, head, tail, rfl⟩

theorem counted {item : Read α} {means : α → δ → Prop} {phrase : Phrase δ}
    {wide : δ → List Kind} {ds : List δ}
    (each : ∀ d ∈ ds, Weighs depth item (means · d) (phrase · · d ·) (wide d)) :
    Weighs depth (do repeated (← length) item) (List.Forall₂ means · ds)
      (Counted phrase · · ds ·) (ds.flatMap wide) := by
  have numbered : Weighs depth length (· = ds.length) _ [] := of_plain length_parses
  have listed : Weighs depth (repeated ds.length item) (List.Forall₂ means · ds)
      (Many phrase · · ds ·) (ds.flatMap wide ++ []) := by
    apply (repeatInto each #[]).finish
    rintro all ⟨as, same, meant⟩
    apply pure
    rw [same]
    exact meant
  rw [List.append_nil] at listed
  apply (numbered.bind fun count same => same ▸ listed).congr
  intro texts p texts' counted
  obtain ⟨few, many⟩ := counted
  exact ⟨_, _, texts, ⟨⟨few, rfl⟩, rfl⟩, many, rfl⟩

theorem tokenContents {levels : Nat} {inner : Inner} {h : RecordHeader}
    (reads : ReadsWithin depth limits levels inner) (small : h.overlay.Addressable)
    (isToken : h.kind.isToken = true) {text : String} {leading trailing : List TriviaBlueprint}
    (low : (Blueprint.token h.kind h.summary.missing text leading trailing h.overlay).height ≤
      levels + 1) (short : text.utf8ByteSize ≤ maxSize) :
    Weighs depth (tokenContents limits inner h)
      (·.Realizes (.token h.kind h.summary.missing text leading trailing h.overlay))
      (Spelled.token limits text leading trailing)
      (Blueprint.token h.kind h.summary.missing text leading trailing h.overlay).blamed := by
  obtain ⟨some, some'⟩ := token_height_le_iff.1 low
  have listed (ts : List TriviaBlueprint) (open_ : ∀ t ∈ ts, 1 ≤ levels) :
      Weighs depth (triviaList inner) (List.Forall₂ Trivia.Realizes · ts)
        (Counted (TriviaRecord limits) · · ts ·) [] :=
    of_parses (triviaList_parses reads) fun _ _ _ counted =>
      ⟨ts, ⟨counted, open_⟩, fun _ => id⟩
  have spelled : Weighs depth (Reader.text limits) (· = text) (Text limits · · text ·) [] :=
    of_parses (text_parses limits) fun _ _ _ given => ⟨text, given, fun _ => id⟩
  rw [tokenContents_eq inner isToken]
  apply spelled.bind
  rintro _ rfl
  apply (listed leading some).bind
  intro ls allLeading
  apply (listed trailing some').finish
  intro ts allTrailing
  exact made (Token.makes small isToken short allLeading allTrailing)

theorem nodeContents {inner : Inner} {h : RecordHeader} (small : h.overlay.Addressable)
    (isNode : h.kind.isNode = true) {children : List Blueprint}
    (shape : ∀ c ∈ children, c.isTrivia = false) {phrase : Phrase Blueprint}
    (each : ∀ c ∈ children, Weighs depth (inner .children "node or token") (·.Realizes c)
      (phrase · · c ·) c.tooWide) :
    Weighs depth (nodeContents inner h)
      (·.Realizes (.node h.kind h.summary.missing children h.overlay))
      (Counted phrase · · children ·)
      (Blueprint.node h.kind h.summary.missing children h.overlay).tooWide := by
  rw [nodeContents_eq inner isNode, Blueprint.tooWide_node]
  apply (counted each).finish
  intro es all
  exact made (Node.makes small isNode shape all)

theorem headed {inner : Inner} (room : depth < limits.maxDepth.toNat) {kind : Kind}
    {missing : Bool} {overlay : Overlay} {view : Element → Prop} {wide : List Kind}
    (inside : ∀ summary : Summary, summary.missing = missing → Weighs (depth + 1)
      (contents limits inner ⟨kind, summary, overlay⟩ (.standard kind)) view spelled wide)
    {allowed : KindSet} (expected : String) (here : allowed.contains kind = true) :
    Weighs depth (recordWith .standard limits inner allowed expected) view
      (Spelled.headed limits kind missing overlay spelled) wide := by
  have opens : Weighs depth (header .standard limits allowed expected)
      (fun opening => ∃ summary : Summary, summary.missing = missing ∧
        opening = (⟨kind, summary, overlay⟩, .standard kind))
      (Spelled.plain (Header limits kind missing overlay)) [] := by
    apply of_parses (header_parses .standard allowed expected room)
    rintro texts p _ ⟨spelled, rfl⟩
    obtain ⟨summary, same, heading⟩ := spelled.exists_heading
    exact ⟨(⟨kind, summary, overlay⟩, .standard kind), ⟨⟨here, rfl, heading⟩, rfl⟩,
      fun _ means => ⟨summary, same, means⟩⟩
  apply opens.bind
  rintro _ ⟨summary, same, rfl⟩
  exact after (visit_free _) fun _ => (inside summary same).nested (limits.lt_maxSize room)

/-- A described record is read unless something in it is too wide, and then reading stops at the
first that is, wherever the record stands. -/
theorem of_described {d : Blueprint} (described : d.Described limits) : ∀ {depth levels : Nat},
    depth + levels = limits.maxDepth.toNat → d.height ≤ levels → ∀ {allowed : KindSet}
    (expected : String), allowed.contains d.kind = true →
    Weighs depth (record .standard limits levels allowed expected) (·.Realizes d)
      (Draft limits · · d ·) d.tooWide := by
  induction described with
  | @trivia t own =>
    intro depth levels total low allowed expected here
    have fits : (Blueprint.trivia t).tooWide = [] := by
      apply Blueprint.tooWide_eq_nil
      intro r mem
      obtain rfl := List.mem_singleton.1 mem
      exact own.width_le
    rw [fits]
    apply of_parses (record_parses total allowed expected)
    intro texts p texts' draft
    have record := record_iff_draft.2 ⟨draft, own.width_le⟩
    exact ⟨_, ⟨record, low, here⟩, fun _ => id⟩
  | @token kind missing text leading trailing overlay isToken short attached few few' parts bare =>
    intro depth levels total low allowed expected here
    have open_ : 0 < levels := Nat.lt_of_lt_of_le (Blueprint.height_pos _) low
    obtain ⟨levels, rfl⟩ := Nat.exists_eq_add_one.2 open_
    have inside (summary : Summary) (same : summary.missing = missing) : Weighs (depth + 1)
        (contents limits (record .standard limits levels) ⟨kind, summary, overlay⟩
          (.standard kind)) (·.Realizes (.token kind missing text leading trailing overlay))
        (Spelled.token limits text leading trailing)
        (Blueprint.token kind missing text leading trailing overlay).blamed := by
      subst same
      rw [RecordReader.standard_of_isToken isToken]
      exact tokenContents (record_parses (by omega)) attached.addressable isToken low
        (short.trans limits.maxStringLength_le)
    rw [Blueprint.tooWide_token fun t mem => (parts t mem).width_le]
    apply (headed (by omega) inside expected here).congr
    intro texts p texts' draft
    cases draft with
    | token _ header spelled first second =>
      exact Spelled.headed_of_header header ⟨_, _, _, spelled,
        ⟨_, _, _, first, second, rfl⟩, rfl⟩
  | @node kind children overlay isNode attached few shape parts ih =>
    intro depth levels total low allowed expected here
    have open_ : 0 < levels := Nat.lt_of_lt_of_le (Blueprint.height_pos _) low
    obtain ⟨levels, rfl⟩ := Nat.exists_eq_add_one.2 open_
    have lower : ∀ c ∈ children, c.height ≤ levels := by
      simp only [Blueprint.height] at low
      exact Blueprint.heights_le_iff.1 (by omega)
    have each : ∀ c ∈ children, Weighs (depth + 1)
        (record .standard limits levels .children "node or token") (·.Realizes c)
        (Draft limits · · c ·) c.tooWide := by
      intro c mem
      have here := (parts c mem).contains_children (shape c mem)
      exact ih c mem (by omega) (lower c mem) "node or token" here
    have inside (summary : Summary) (same : summary.missing = false) : Weighs (depth + 1)
        (contents limits (record .standard limits levels) ⟨kind, summary, overlay⟩
          (.standard kind)) (·.Realizes (.node kind false children overlay))
        (Counted (Draft limits) · · children ·)
        (Blueprint.node kind false children overlay).tooWide := by
      rw [RecordReader.standard_of_isNode isNode, ← same]
      exact nodeContents attached.addressable isNode shape each
    apply (headed (by omega) inside expected here).congr
    intro texts p texts' draft
    cases draft with
    | node _ header _ count many => exact Spelled.headed_of_header header (.mk count many)

theorem expect {reader : Read α} {next : Read β} {view : β → Prop} [BEq α]
    [LawfulBEq α] {a : α} (e : α → ReadError) (head : Weighs depth reader (· = a) spelled [])
    (tail : Weighs depth next view spelled' wide) : Weighs depth (do
      let b ← reader
      if b != a then fail (e b)
      next) view (spelled.andThen spelled') wide := by
  apply head.bind
  rintro _ rfl
  simpa using tail

theorem tree {d : Blueprint} (described : d.Described limits)
    (low : d.height ≤ limits.maxDepth.toNat) :
    Weighs 0 (tree .standard limits) (·.Realizes d)
      (fun texts p texts' => ∃ q, p = streamMagic ++ (UInt8.ofNat streamVersion :: q) ∧
        Draft limits texts q d texts') d.tooWide := by
  have root : Weighs 0 (element .standard limits .all "green") (·.Realizes d)
      (Draft limits · · d ·) d.tooWide :=
    atDepth (of_described described (by omega) low "green" (KindSet.contains_all _))
      fun r level => by rw [level, Nat.sub_zero]
  unfold Reader.tree
  apply (expect (fun _ => .badMagic) (of_plain (take_parses 4))
    (expect .unsupportedVersion (of_plain (fixed_parses 1)) root)).congr
  rintro texts _ texts' ⟨q, rfl, draft⟩
  exact ⟨_, _, texts, ⟨⟨rfl, rfl⟩, rfl⟩,
    ⟨_, q, texts, ⟨⟨by decide, rfl⟩, rfl⟩, draft, rfl⟩, rfl⟩

end Weighs

end Reader

variable {limits : Limits} {d r : Blueprint} {before behind : List Blueprint} {p : List UInt8}

theorem Blueprint.Described.ends (described : d.Described limits)
    (low : d.height ≤ limits.maxDepth.toNat) (stream : Grammar.DraftStream limits p d)
    (suffix : List UInt8) (cell : Nat) :
    Ends (fun e session => e.Realizes d ∧ session.rest = suffix)
    (fun session => session.depth = 0)
    (Reader.tree .standard limits { rest := p ++ suffix, nextCell := cell })
      (d.tooWide.map fun k => .error (.widthOverflow k)) := by
  obtain ⟨draft⟩ := stream
  have ended := (Reader.Weighs.tree described low).ends (Reader.ready_start (_ ++ suffix) cell)
    ⟨_, rfl, draft⟩ rfl
  apply ended.mono
  rintro e session ⟨means, -, -, rest⟩
  exact ⟨means, rest⟩

/-- Reading and building agree on what is too wide. Whatever is described within limits can be
written, in one way or more. If each record of it fits by its exact width, reading any such stream
and building from the leaves up give one element, whose parts are all as wide as they are described.
Otherwise both stop, and both name the kind of the first record that does not fit, in the order in
which records are finished; building stops at that very record, since everything in front of it can
be built by itself and it cannot. -/
theorem Blueprint.Described.reading_agrees_with_building (described : d.Described limits)
    (low : d.height ≤ limits.maxDepth.toNat) :
    (∃ p, Grammar.DraftStream limits p d) ∧
    ∀ p, Grammar.DraftStream limits p d → ∀ (suffix : List UInt8) (cell firstCell : Nat),
      let read := Reader.tree .standard limits { rest := p ++ suffix, nextCell := cell }
      let built := d.assemble firstCell
      ((∀ r ∈ d.records, r.width ≤ maxSize) ∧ ∃ e session e' last,
        read = .ok e session ∧ session.rest = suffix ∧ built = .ok e' last ∧ e.Verbatim e' ∧
        e.blueprint = d ∧ ∀ c : Element, c.Part e → c.fullWidth = c.blueprint.width) ∨
      ∃ before r behind, d.records = before ++ r :: behind ∧
        (∀ s ∈ before, s.width ≤ maxSize) ∧ maxSize < r.width ∧
        (∃ session, read = .error (.error (.widthOverflow r.kind)) session) ∧
        (∃ last, built = .error (.tooWide r.kind) last) ∧
        (Fault.tooWide r.kind).message = "width of " ++ r.kind.name ++ " does not fit in a u32" ∧
        (∀ s ∈ before, ∀ cell, ∃ e last, s.assemble cell = .ok e last ∧
          e.blueprint = s ∧ e.fullWidth = s.width) ∧
        ∀ cell, ∃ last, r.assemble cell = .error (.tooWide r.kind) last := by
  constructor
  · obtain ⟨p, texts, draft⟩ := Grammar.exists_draft described []
    exact ⟨_, .mk draft⟩
  intro p stream suffix cell firstCell read built
  have ended := described.ends low stream suffix cell
  rcases d.fits_or_first_wide with fit | ⟨before, r, behind, split, fit, wide⟩
  · rw [Blueprint.tooWide_eq_nil fit] at ended
    obtain ⟨e, session, run, ⟨sound, same⟩, rest⟩ := ended
    obtain ⟨e', last, run', sound', same'⟩ := described.exists_assemble fit firstCell
    refine .inl ⟨fit, e, session, e', last, run, rest, run', ?_, same, ?_⟩
    · exact sound.verbatim sound' (same.trans same'.symm)
    · intro c part
      exact (Element.Sound.part part sound).width_blueprint.symm
  · rw [Blueprint.tooWide_eq_cons split fit wide] at ended
    obtain ⟨session, run, -⟩ := ended
    have inside : ∀ s ∈ before ++ r :: behind, s ∈ d.records := fun s mem => split ▸ mem
    refine .inr ⟨before, r, behind, split, fit, wide, ⟨session, run⟩,
      described.assemble_overflows split fit wide firstCell, rfl, ?_, ?_⟩
    · intro s mem cell
      have own := described.record (inside s (List.mem_append_left _ mem))
      obtain ⟨e, last, run, sound, same⟩ := own.exists_assemble
        (fun q below => fit q (Blueprint.records_subset_of_mem split mem below)) cell
      exact ⟨e, last, run, same, by rw [← same, sound.width_blueprint]⟩
    · intro cell
      have own := described.record (inside r (by simp))
      have below : ∀ s ∈ r.inner, s.width ≤ maxSize :=
        fun s mem => fit s ((Blueprint.inner_suffix split).subset mem)
      exact own.assemble_overflows r.records_eq below wide cell

def blanks (size : Nat) : String := String.join (List.replicate size " ")

theorem size_blanks (size : Nat) : (blanks size).utf8ByteSize = size := by
  have one : " ".utf8ByteSize = 1 := rfl
  simp [blanks, Element.size_join, bytesIn, one]

namespace Blueprint

def crowdedName (copies size : Nat) : Blueprint :=
  .token .ident false "x" (List.replicate copies ⟨.whitespaceTrivia, blanks size, .empty⟩)
    [] .empty

/-- A list of two such names. -/
def crowdedList (copies size : Nat) : Blueprint :=
  .node .argList false [crowdedName copies size, crowdedName copies size] .empty

variable {copies size : Nat}

theorem width_crowdedName : (crowdedName copies size).width = copies * size + 1 := by
  have one : "x".utf8ByteSize = 1 := rfl
  simp [crowdedName, width, TriviaBlueprint.width, size_blanks, one]

theorem width_crowdedList :
    (crowdedList copies size).width = (copies * size + 1) + (copies * size + 1) := by
  rw [crowdedList, width, widths, widths, widths, width_crowdedName, Nat.add_zero]

theorem height_crowdedList_le : (crowdedList copies size).height ≤ 3 := by
  have name : (crowdedName copies size).height ≤ 2 := by
    simp only [crowdedName, height]
    split <;> omega
  simp only [crowdedList, height, heights]
  omega

theorem described_crowdedList (some : 0 < size) (short : size ≤ limits.maxStringLength.toNat)
    (few : copies < Bytes.capacity 4) : (crowdedList copies size).Described limits := by
  have bare : Overlay.empty.FitsIn limits :=
    ⟨Overlay.addressable_empty, absurd rfl, absurd rfl⟩
  have one : "x".utf8ByteSize = 1 := rfl
  have name : (crowdedName copies size).Described limits := by
    refine .token (by decide) (by omega) bare (by simpa using few) (by simp [Bytes.capacity]) ?_
      (fun missing => by cases missing)
    intro t mem
    rw [List.append_nil] at mem
    obtain rfl := List.eq_of_mem_replicate mem
    have fits : (blanks size).utf8ByteSize ≤ limits.maxStringLength.toNat := by
      rw [size_blanks]
      exact short
    have isTrivia : Kind.whitespaceTrivia.isTrivia = true := by
      decide
    exact ⟨isTrivia, fits, bare⟩
  refine .node (by decide) bare (by simp [Bytes.capacity]) ?_ ?_
  · simp [crowdedName, isTrivia]
  · simpa using name

theorem reading_agrees_with_building_crowdedList : ∃ p,
    Grammar.DraftStream .standard p (crowdedList 128 16777216) ∧
    (∃ session, Reader.tree .standard .standard { rest := p } =
      .error (.error (.widthOverflow .argList)) session) ∧
    ∃ last, (crowdedList 128 16777216).assemble 0 = .error (.tooWide .argList) last := by
  have described : (crowdedList 128 16777216).Described .standard :=
    described_crowdedList (by omega) (by decide) (by decide)
  have low : (crowdedList 128 16777216).height ≤ Limits.standard.maxDepth.toNat :=
    height_crowdedList_le.trans (by decide)
  have wide : maxSize < (crowdedList 128 16777216).width := by
    rw [width_crowdedList]
    decide
  obtain ⟨⟨p, stream⟩, agree⟩ := described.reading_agrees_with_building low
  refine ⟨p, stream, ?_⟩
  have ended := agree p stream [] 0 0
  rw [List.append_nil] at ended
  rcases ended with ⟨fit, -⟩ | ⟨before, r, behind, split, fit, wide', read, built, -⟩
  · exact absurd (fit _ (mem_records_self _)) (Nat.not_le.2 wide)
  · rcases eq_or_inner_of_records split with ⟨rfl, -⟩ | ⟨back, inside⟩
    · exact ⟨read, built⟩
    · have mem : r ∈ (crowdedList 128 16777216).inner := by
        rw [inside]
        simp
      obtain ⟨c, child, mem⟩ := List.mem_flatMap.1 mem
      obtain rfl : c = crowdedName 128 16777216 := by simpa using child
      have small := width_le_of_mem_records mem
      rw [width_crowdedName] at small
      simp only [maxSize, UInt32.size] at wide'
      omega

end Blueprint

end GreenTree
