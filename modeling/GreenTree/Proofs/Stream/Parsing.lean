import GreenTree.Proofs.Interning
import GreenTree.Proofs.Stream.Nesting

/-!
Readers against the grammar. A reader parses a phrase if it accepts exactly the bytes of the phrase,
touches nothing behind them, learns the texts that the phrase adds, and gives something that the
phrase means. Parsing is put together as readers are; here are the parts of a record, up to what
stands before its contents.
-/

namespace GreenTree

theorem Bytes.littleEndian_toNat {width : Nat} {bytes : List UInt8}
    (length : bytes.length = width) :
    littleEndian width (toNat bytes) = bytes := by
  induction bytes generalizing width with
  | nil =>
    obtain rfl : width = 0 := by simpa using length.symm
    rfl
  | cons b bs ih =>
    obtain rfl : width = bs.length + 1 := by simpa using length.symm
    have := b.toNat_lt
    have low : (b.toNat + 256 * toNat bs) % 256 = b.toNat := by omega
    have high : (b.toNat + 256 * toNat bs) / 256 = toNat bs := by omega
    rw [toNat, littleEndian, low, high, ih rfl, UInt8.ofNat_toNat]

theorem Utf8.encode_injective {a b : String} (same : encode a = encode b) : a = b := by
  have decoded := decode_encode a
  rw [same, decode_encode] at decoded
  exact (Except.ok.inj decoded).symm

namespace Reader

open Grammar

variable {α β δ ε : Type} {depth : Nat}

def texts (r : Reader) : List String := r.strings.entries.toList

/-- What holds of a session with a number of records open: the shared trivia are sound and bare. -/
structure Ready (depth : Nat) (r : Reader) : Prop where
  depth : r.depth = depth
  interned : r.interner.Sound

theorem Ready.deeper {r : Reader} (ready : r.Ready depth) :
    Ready (depth + 1) { r with depth := r.depth + 1 } :=
  ⟨congrArg (· + 1) ready.depth, ready.interned⟩

theorem Ready.back {r : Reader} (ready : r.Ready (depth + 1)) :
    Ready depth { r with depth := r.depth - 1 } :=
  ⟨congrArg (· - 1) ready.depth, ready.interned⟩

/-- Whether a reader accepts exactly what a phrase gives; `view` relates what is read to what is
meant. After an error the session can go on. -/
structure Parses (depth : Nat) (reader : Read α) (view : α → δ → Prop) (phrase : Phrase δ) :
    Prop where
  sound : ∀ {r a r'}, r.Ready depth → reader r = .ok a r' → r'.Ready depth ∧
    ∃ p d, view a d ∧ phrase r.texts p d r'.texts ∧ r.rest = p ++ r'.rest
  complete : ∀ {r p d texts s}, r.Ready depth → phrase r.texts p d texts → r.rest = p ++ s →
    ∃ a r', reader r = .ok a r' ∧ view a d ∧ r'.texts = texts ∧ r'.rest = s
  failed : ∀ {r e r'}, r.Ready depth → reader r = .error (.error e) r' → r'.Ready depth

def followedBy (first : Phrase δ) (second : δ → Phrase ε) : Phrase ε :=
  fun texts p e texts'' =>
  ∃ d q r texts', first texts q d texts' ∧ second d texts' r e texts'' ∧ p = q ++ r

def plain (spelling : δ → List UInt8 → Prop) : Phrase δ := fun texts p d texts' =>
  spelling d p ∧ texts' = texts

namespace Parses

theorem bind {reader : Read α} {next : α → Read β} {view : α → δ → Prop}
    {view' : β → ε → Prop} {first : Phrase δ} {second : δ → Phrase ε}
    (head : Parses depth reader view first)
    (tail : ∀ a d, view a d → Parses depth (next a) view' (second d)) :
    Parses depth (reader >>= next) view' (followedBy first second) where
  sound := by
    intro r b r'' ready run
    obtain ⟨a, r', run, rest⟩ := EStateM.bind_eq_ok_iff.1 run
    obtain ⟨ready', p, d, means, phrase, split⟩ := head.sound ready run
    obtain ⟨ready'', q, e, means', phrase', split'⟩ := (tail a d means).sound ready' rest
    exact ⟨ready'', p ++ q, e, means', ⟨d, p, q, _, phrase, phrase', rfl⟩, by
      rw [split, split', List.append_assoc]⟩
  complete := by
    rintro r _ e texts'' s ready ⟨d, p, q, texts', phrase, phrase', rfl⟩ split
    rw [List.append_assoc] at split
    obtain ⟨a, r', run, means, rfl, rest⟩ := head.complete ready phrase split
    have ready' := (head.sound ready run).1
    obtain ⟨b, r'', run', means', known, rest'⟩ := (tail a d means).complete ready' phrase' rest
    exact ⟨b, r'', EStateM.bind_eq_ok_iff.2 ⟨a, r', run, run'⟩, means', known, rest'⟩
  failed := by
    intro r e r'' ready run
    rcases EStateM.bind_eq_error_iff.1 run with run | ⟨a, r', run, rest⟩
    · exact head.failed ready run
    · obtain ⟨ready', _, d, means, -, -⟩ := head.sound ready run
      exact (tail a d means).failed ready' rest

theorem bindEq {reader : Read α} {next : α → Read β} {view : β → ε → Prop}
    {first : Phrase α} {second : α → Phrase ε} (head : Parses depth reader Eq first)
    (tail : ∀ a, Parses depth (next a) view (second a)) :
    Parses depth (reader >>= next) view (followedBy first second) :=
  head.bind fun a _ same => same ▸ tail a

theorem pure {a : α} {d : δ} {view : α → δ → Prop} (means : view a d) :
    Parses depth (pure a) view (plain fun d' p => d' = d ∧ p = []) where
  sound := by
    intro r b r' ready run
    obtain ⟨rfl, rfl⟩ := EStateM.pure_eq_ok_iff.1 run
    exact ⟨ready, [], d, means, ⟨⟨rfl, rfl⟩, rfl⟩, rfl⟩
  complete := by
    rintro r _ _ _ s ready ⟨⟨rfl, rfl⟩, rfl⟩ split
    exact ⟨a, r, rfl, means, rfl, split⟩
  failed := by
    intro r e r' _ run
    cases run

theorem throw (failure : ReadFailure) (view : α → δ → Prop) :
    Parses depth (throw failure) view fun _ _ _ _ => False where
  sound := by
    intro r a r' _ run
    cases run
  complete := by
    intro r p d texts s _ impossible
    exact impossible.elim
  failed := by
    intro r e r' ready run
    cases run
    exact ready

theorem fail (e : ReadError) (view : α → δ → Prop) :
    Parses depth (fail e) view fun _ _ _ _ => False :=
  throw _ view

theorem fail_bind {γ : Type} (e : ReadError) (next : γ → Read α) (view : α → δ → Prop) :
    Parses depth (Reader.fail e >>= next) view fun _ _ _ _ => False :=
  throw (.error e) view

theorem congr {reader : Read α} {view : α → δ → Prop} {phrase phrase' : Phrase δ}
    (parses : Parses depth reader view phrase)
    (same : ∀ texts p d texts', phrase texts p d texts' ↔ phrase' texts p d texts') :
    Parses depth reader view phrase' := by
  have : phrase = phrase' := by
    funext texts p d texts'
    exact propext (same texts p d texts')
  exact this ▸ parses

theorem atDepth {next : Reader → Read α} {reader : Read α} {view : α → δ → Prop}
    {phrase : Phrase δ} (parses : Parses depth reader view phrase)
    (same : ∀ r : Reader, r.depth = depth → next r = reader) :
    Parses depth (get >>= next) view phrase := by
  have run (r : Reader) (ready : r.Ready depth) : (get >>= next) r = reader r :=
    congrFun (same r ready.depth) r
  refine ⟨?_, ?_, ?_⟩
  · intro r a r' ready read
    rw [run r ready] at read
    exact parses.sound ready read
  · intro r p d texts s ready spelled split
    obtain ⟨a, r', read, rest⟩ := parses.complete ready spelled split
    exact ⟨a, r', (run r ready).trans read, rest⟩
  · intro r e r' ready read
    rw [run r ready] at read
    exact parses.failed ready read

theorem of_spelling {reader : Read α} {spelling : α → List UInt8 → Prop}
    (exact_ : ∀ r a r', reader r = .ok a r' ↔
      ∃ p, spelling a p ∧ r.rest = p ++ r'.rest ∧ r' = { r with rest := r'.rest })
    (stopped : ∀ r e r', reader r = .error e r' → r' = { r with rest := r'.rest }) :
    Parses depth reader Eq (plain spelling) where
  sound := by
    intro r a r' ready run
    obtain ⟨p, spelled, split, same⟩ := (exact_ r a r').1 run
    rw [same]
    exact ⟨⟨ready.depth, ready.interned⟩, p, a, rfl, ⟨spelled, rfl⟩, split⟩
  complete := by
    rintro r p a _ s ready ⟨spelled, rfl⟩ split
    exact ⟨a, { r with rest := s }, (exact_ _ _ _).2 ⟨p, spelled, split, rfl⟩,
      rfl, rfl, rfl⟩
  failed := by
    intro r e r' ready run
    rw [stopped r _ r' run]
    exact ⟨ready.depth, ready.interned⟩

end Parses

theorem take_parses (count : Nat) :
    Parses depth (take count) Eq (plain fun bytes p => p = bytes ∧ bytes.length = count) := by
  unfold take
  refine Parses.of_spelling (fun r bytes r' => ⟨?_, ?_⟩) fun r e r' run => ?_
  · intro run
    split at run
    · rename_i parts
      obtain ⟨rfl, rfl⟩ := EStateM.Result.ok.inj run
      obtain ⟨split, length⟩ := Bytes.append_of_split? parts
      exact ⟨_, ⟨rfl, length⟩, split, rfl⟩
    · cases run
  · rintro ⟨_, ⟨rfl, rfl⟩, split, same⟩
    rw [split, Bytes.split?_append]
    exact congrArg _ same.symm
  · split at run
    · cases run
    · cases run
      rfl

theorem fixed_parses (width : Nat) : Parses depth (fixed width) Eq
    (plain fun n p => n < Bytes.capacity width ∧ p = Bytes.littleEndian width n) := by
  unfold fixed
  refine ((take_parses width).bindEq fun bytes =>
    Parses.pure (d := Bytes.toNat bytes) rfl).congr fun texts p n texts' => ?_
  constructor
  · rintro ⟨bytes, _, _, _, ⟨⟨rfl, length⟩, rfl⟩, ⟨⟨rfl, rfl⟩, rfl⟩, rfl⟩
    rw [List.append_nil]
    exact ⟨⟨length ▸ Bytes.toNat_lt _, (Bytes.littleEndian_toNat length).symm⟩, rfl⟩
  · rintro ⟨⟨small, rfl⟩, rfl⟩
    refine ⟨Bytes.littleEndian width n, _, [], _, ⟨⟨rfl, by simp⟩, rfl⟩,
      ⟨⟨?_, rfl⟩, rfl⟩, by simp⟩
    rw [Bytes.toNat_littleEndian, Nat.mod_eq_of_lt small]

theorem flag_parses : Parses depth flag Eq (plain fun b p => p = [b.toUInt8]) := by
  unfold flag
  refine Parses.congr (Parses.bindEq (fixed_parses 1) fun n => (?value :
    Parses depth _ Eq (plain fun b p => n = b.toNat ∧ p = []))) fun texts p b texts' => ?_
  case value =>
    split
    · exact (Parses.pure rfl).congr fun texts p b texts' => by cases b <;> simp [plain]
    · exact (Parses.pure rfl).congr fun texts p b texts' => by cases b <;> simp [plain]
    · rename_i absent present
      refine (Parses.fail _ _).congr fun texts p b texts' => ⟨False.elim, ?_⟩
      rintro ⟨⟨lead, -⟩, -⟩
      cases b
      · exact absent lead
      · exact present lead
  constructor
  · rintro ⟨_, _, _, _, ⟨⟨-, rfl⟩, rfl⟩, ⟨⟨rfl, rfl⟩, rfl⟩, rfl⟩
    cases b <;> exact ⟨rfl, rfl⟩
  · rintro ⟨rfl, rfl⟩
    refine ⟨b.toNat, _, [], _, ⟨⟨?_, rfl⟩, rfl⟩, ⟨⟨rfl, rfl⟩, rfl⟩, ?_⟩
    · cases b <;> decide
    · cases b <;> rfl

theorem length_parses :
    Parses depth length Eq (plain fun n p => n < Bytes.capacity 4 ∧ p = Bytes.littleEndian 4 n) :=
  fixed_parses 4

private theorem learn_parses (text : String) :
    Parses depth (do
      modify fun r : Reader => { r with strings := r.strings.push text }
      Pure.pure text) Eq fun texts p d texts' => d = text ∧ p = [] ∧
      texts' = texts ++ [text] where
  sound := by
    intro r a r' ready run
    cases run
    exact ⟨⟨ready.depth, ready.interned⟩, [], text, rfl,
      ⟨rfl, rfl, by simp [Reader.texts, StringTable.push]⟩, rfl⟩
  complete := by
    rintro r _ _ _ s ready ⟨rfl, rfl, rfl⟩ split
    exact ⟨_, _, rfl, rfl, by simp [Reader.texts, StringTable.push], split⟩
  failed := by
    intro r e r' _ run
    cases run

theorem inlineText_parses (limits : Limits) : Parses depth (inlineText limits) Eq
    fun texts p text texts' => text.utf8ByteSize ≤ limits.maxStringLength.toNat ∧
      p = Bytes.littleEndian 4 text.utf8ByteSize ++ Utf8.encode text ∧
      texts' = texts ++ [text] := by
  unfold inlineText
  refine Parses.congr ((fixed_parses 4).bindEq fun length => (?_ : Parses depth _ Eq
    fun texts p text texts' => length ≤ limits.maxStringLength.toNat ∧
      text.utf8ByteSize = length ∧ p = Utf8.encode text ∧ texts' = texts ++ [text])) ?_
  · dsimp only
    split
    · rename_i long
      refine (Parses.fail_bind _ _ _).congr fun texts p text texts' => ⟨False.elim, ?_⟩
      rintro ⟨short, -⟩
      omega
    · rename_i short
      refine Parses.congr ((take_parses length).bindEq fun bytes => (?_ : Parses depth _ Eq
        fun texts p text texts' => bytes = Utf8.encode text ∧ p = [] ∧
          texts' = texts ++ [text])) ?_
      · cases decoded : Utf8.decode bytes with
        | ok found =>
          obtain rfl := Utf8.decode_eq_ok_iff.1 decoded
          refine (learn_parses found).congr fun texts p text texts' => ?_
          constructor
          · rintro ⟨rfl, rfl, rfl⟩
            exact ⟨rfl, rfl, rfl⟩
          · rintro ⟨same, rfl, rfl⟩
            obtain rfl := Utf8.encode_injective same
            exact ⟨rfl, rfl, rfl⟩
        | error cause =>
          refine (Parses.fail _ _).congr fun texts p text texts' => ⟨False.elim, ?_⟩
          rintro ⟨rfl, -⟩
          rw [Utf8.decode_encode] at decoded
          cases decoded
      · intro texts p text texts'
        constructor
        · rintro ⟨_, _, _, _, ⟨⟨rfl, length⟩, rfl⟩, ⟨rfl, rfl, rfl⟩, rfl⟩
          rw [Utf8.length_encode] at length
          exact ⟨by omega, length, List.append_nil _, rfl⟩
        · rintro ⟨-, rfl, rfl, rfl⟩
          exact ⟨_, _, [], _, ⟨⟨rfl, Utf8.length_encode text⟩, rfl⟩, ⟨rfl, rfl, rfl⟩,
            (List.append_nil _).symm⟩
  · intro texts p text texts'
    constructor
    · rintro ⟨_, _, _, _, ⟨⟨-, rfl⟩, rfl⟩, ⟨short, rfl, rfl, rfl⟩, rfl⟩
      exact ⟨short, rfl, rfl⟩
    · rintro ⟨short, rfl, rfl⟩
      have small := Nat.lt_of_le_of_lt short limits.maxStringLength.toNat_lt
      exact ⟨_, _, _, _, ⟨⟨small, rfl⟩, rfl⟩, ⟨short, rfl, rfl, rfl⟩, rfl⟩

private theorem lookup_parses (index : Nat) : Parses depth (do
      let strings := (← get).strings
      match strings.get? index with
      | some text => return text
      | none => fail (.danglingStringRef index strings.size)) Eq
    fun texts p text texts' => texts' = texts ∧ p = [] ∧ texts[index]? = some text where
  sound := by
    intro r text r' ready run
    obtain ⟨_, _, read, run⟩ := EStateM.bind_eq_ok_iff.1 run
    cases read
    cases found : r.strings.get? index with
    | some known =>
      simp only [found] at run
      obtain ⟨rfl, rfl⟩ := EStateM.pure_eq_ok_iff.1 run
      exact ⟨ready, [], known, rfl,
        ⟨rfl, rfl, by simpa [Reader.texts, StringTable.get?] using found⟩, rfl⟩
    | none =>
      simp only [found] at run
      cases run
  complete := by
    rintro r _ text _ s ready ⟨rfl, rfl, found⟩ split
    have known : r.strings.get? index = some text := by
      simpa [Reader.texts, StringTable.get?] using found
    refine ⟨text, r, EStateM.bind_eq_ok_iff.2 ⟨r, r, rfl, ?_⟩, rfl, rfl, split⟩
    simp only [known]
    rfl
  failed := by
    intro r e r' ready run
    rcases EStateM.bind_eq_error_iff.1 run with run | ⟨_, _, read, run⟩
    · cases run
    · cases read
      cases found : r.strings.get? index with
      | some known =>
        simp only [found] at run
        cases run
      | none =>
        simp only [found] at run
        cases run
        exact ready

theorem referencedText_parses : Parses depth referencedText Eq
    fun texts p text texts' => texts' = texts ∧ ∃ index, index < Bytes.capacity 4 ∧
      p = Bytes.littleEndian 4 index ∧ texts[index]? = some text := by
  unfold referencedText
  refine Parses.congr ((fixed_parses 4).bindEq fun index => (?_ : Parses depth _ Eq
    fun texts p text texts' => texts' = texts ∧ p = [] ∧ texts[index]? = some text)) ?_
  · exact lookup_parses index
  · intro texts p text texts'
    constructor
    · rintro ⟨index, _, _, _, ⟨⟨small, rfl⟩, rfl⟩, ⟨rfl, rfl, found⟩, rfl⟩
      exact ⟨rfl, index, small, List.append_nil _, found⟩
    · rintro ⟨rfl, index, small, rfl, found⟩
      exact ⟨index, _, [], _, ⟨⟨small, rfl⟩, rfl⟩, ⟨rfl, rfl, found⟩,
        (List.append_nil _).symm⟩

theorem text_parses (limits : Limits) : Parses depth (text limits) Eq (Text limits) := by
  unfold text
  refine Parses.congr ((fixed_parses 1).bindEq fun tag => (?_ : Parses depth _ Eq
    fun texts p text texts' => tag < 2 ∧ Text limits texts (UInt8.ofNat tag :: p) text texts')) ?_
  · split
    · refine (inlineText_parses limits).congr fun texts p text texts' => ?_
      constructor
      · rintro ⟨short, rfl, rfl⟩
        exact ⟨by decide, .inline short⟩
      · rintro ⟨-, spelled⟩
        cases spelled with
        | inline short => exact ⟨short, rfl, rfl⟩
    · refine referencedText_parses.congr fun texts p text texts' => ?_
      constructor
      · rintro ⟨rfl, index, small, rfl, found⟩
        exact ⟨by decide, .reference small found⟩
      · rintro ⟨-, spelled⟩
        cases spelled with
        | reference small found => exact ⟨rfl, _, small, rfl, found⟩
    · rename_i notInline notReference
      refine (Parses.fail _ _).congr fun texts p text texts' => ⟨False.elim, ?_⟩
      rintro ⟨small, -⟩
      obtain rfl | rfl : tag = 0 ∨ tag = 1 := by omega
      · exact notInline rfl
      · exact notReference rfl
  · intro texts p text texts'
    constructor
    · rintro ⟨tag, _, _, _, ⟨⟨-, rfl⟩, rfl⟩, ⟨small, spelled⟩, rfl⟩
      simpa [Bytes.littleEndian, Nat.mod_eq_of_lt (show tag < 256 by omega)] using spelled
    · intro spelled
      cases spelled with
      | inline short =>
        exact ⟨0, [0], _, _, ⟨⟨by decide, rfl⟩, rfl⟩,
          ⟨by decide, .inline short⟩, rfl⟩
      | reference small found =>
        exact ⟨1, [1], _, _, ⟨⟨by decide, rfl⟩, rfl⟩,
          ⟨by decide, .reference small found⟩, rfl⟩

theorem block_parses (limits : Limits) {decode : OverlayBlock.Decode α}
    {spelling : α → List UInt8 → Prop} (decodes : OverlayBlock.Decodes decode spelling) :
    Parses depth (block limits decode) Eq
      (plain fun a p => spelling a p ∧ p.length ≤ limits.maxOverlayBytes.toNat) := by
  unfold block
  refine Parses.of_spelling (fun r a r' => ⟨?_, ?_⟩) fun r e r' run => ?_
  · intro run
    split at run
    · rename_i t decoded
      obtain ⟨rfl, rfl⟩ := EStateM.Result.ok.inj run
      obtain ⟨p, spelled, same⟩ := (decodes _ _ _).1 decoded
      obtain ⟨split, budget⟩ := OverlayBlock.State.mk.inj same
      exact ⟨p, ⟨spelled, by omega⟩, split, rfl⟩
    · cases run
    · cases run
  · rintro ⟨p, ⟨spelled, within⟩, split, same⟩
    have decoded := (decodes ⟨r.rest, limits.maxOverlayBytes.toNat⟩ a
      ⟨r'.rest, limits.maxOverlayBytes.toNat - p.length⟩).2
        ⟨p, spelled, by rw [split, Nat.add_sub_cancel' within]⟩
    simp only [decoded]
    exact congrArg _ same.symm
  · split at run
    · cases run
    · cases run
      rfl
    · cases run
      rfl

theorem kind_parses :
    Parses depth kind Eq (plain fun k p => p = Bytes.littleEndian 2 k.tag) := by
  unfold kind
  refine Parses.congr ((fixed_parses 2).bindEq fun tag => (?_ : Parses depth _ Eq
    (plain fun k p => k.tag = tag ∧ p = []))) ?_
  · cases found : Kind.ofTag? tag with
    | some known =>
      refine (Parses.pure rfl).congr fun texts p k texts' => ?_
      have tagged := Kind.tag_of_ofTag? found
      constructor
      · rintro ⟨⟨rfl, rfl⟩, rfl⟩
        exact ⟨⟨tagged, rfl⟩, rfl⟩
      · rintro ⟨⟨same, rfl⟩, rfl⟩
        exact ⟨⟨Kind.tag_injective (same.trans tagged.symm), rfl⟩, rfl⟩
    | none =>
      refine (Parses.fail _ _).congr fun texts p k texts' => ⟨False.elim, ?_⟩
      rintro ⟨⟨rfl, -⟩, -⟩
      rw [Kind.ofTag?_tag] at found
      cases found
  · intro texts p k texts'
    constructor
    · rintro ⟨_, _, _, _, ⟨⟨-, rfl⟩, rfl⟩, ⟨⟨rfl, rfl⟩, rfl⟩, rfl⟩
      exact ⟨List.append_nil _, rfl⟩
    · rintro ⟨rfl, rfl⟩
      have small : k.tag < Bytes.capacity 2 := Nat.lt_trans k.tag_lt (by decide)
      exact ⟨_, _, [], _, ⟨⟨small, rfl⟩, rfl⟩, ⟨⟨rfl, rfl⟩, rfl⟩,
        (List.append_nil _).symm⟩

private theorem attached_parses (limits : Limits) {decode : OverlayBlock.Decode (List α)}
    {member : α → List UInt8 → Prop}
    (decodes : OverlayBlock.Decodes decode (OverlayBlock.ListSpelling member)) :
    Parses depth (do if ← flag then block limits decode else Pure.pure []) Eq
      (plain (Attached limits member)) := by
  refine Parses.congr (flag_parses.bindEq fun present => (?_ : Parses depth _ Eq
    (plain fun as p => Attached limits member as (present.toUInt8 :: p)))) ?_
  · cases present with
    | true =>
      refine (block_parses limits decodes).congr fun texts p as texts' => and_congr_left fun _ => ?_
      constructor
      · rintro ⟨spelled, within⟩
        exact .present spelled within
      · intro attached
        cases attached with
        | present spelled within => exact ⟨spelled, within⟩
    | false =>
      refine (Parses.pure rfl).congr fun texts p as texts' => and_congr_left fun _ => ?_
      constructor
      · rintro ⟨rfl, rfl⟩
        exact .absent
      · intro attached
        cases attached with
        | absent => exact ⟨rfl, rfl⟩
  · intro texts p as texts'
    constructor
    · rintro ⟨present, _, _, _, ⟨rfl, rfl⟩, ⟨attached, rfl⟩, rfl⟩
      exact ⟨attached, rfl⟩
    · rintro ⟨attached, rfl⟩
      cases attached with
      | absent => exact ⟨false, _, _, _, ⟨rfl, rfl⟩, ⟨.absent, rfl⟩, rfl⟩
      | present spelled within =>
        exact ⟨true, _, _, _, ⟨rfl, rfl⟩, ⟨.present spelled within, rfl⟩, rfl⟩

private theorem bind_ite (present : Bool) (x y : Read α) (next : α → Read β) :
    (if present then x else y) >>= next = if present then x >>= next else y >>= next := by
  cases present <;> rfl

theorem overlay_eq (limits : Limits) : overlay limits = (do
    let diagnostics ← (do if ← flag then diagnostics limits else Pure.pure [])
    let annotations ← (do if ← flag then annotations limits else Pure.pure [])
    return { diagnostics, annotations }) := by
  unfold overlay
  simp only [bind_assoc, bind_ite]

theorem overlay_parses (limits : Limits) : Parses depth (overlay limits) Eq
    (plain fun o p => ∃ diagnostics annotations, p = diagnostics ++ annotations ∧
      Attached limits OverlayBlock.DiagnosticSpelling o.diagnostics diagnostics ∧
      Attached limits OverlayBlock.AnnotationSpelling o.annotations annotations) := by
  rw [overlay_eq]
  refine ((attached_parses limits
    (OverlayBlock.list_decodes OverlayBlock.diagnostic_decodes)).bindEq
    fun diagnostics => (attached_parses limits
      (OverlayBlock.list_decodes OverlayBlock.annotation_decodes)).bindEq
      fun annotations => Parses.pure rfl).congr fun texts p o texts' => ?_
  constructor
  · rintro ⟨ds, q, _, _, ⟨first, rfl⟩,
      ⟨as, r, _, _, ⟨second, rfl⟩, ⟨⟨rfl, rfl⟩, rfl⟩, rfl⟩, rfl⟩
    exact ⟨⟨q, r, by rw [List.append_nil], first, second⟩, rfl⟩
  · rintro ⟨⟨q, r, rfl, first, second⟩, rfl⟩
    exact ⟨_, q, r, _, ⟨first, rfl⟩,
      ⟨_, r, [], _, ⟨second, rfl⟩, ⟨⟨rfl, rfl⟩, rfl⟩,
      (List.append_nil _).symm⟩, rfl⟩

theorem header_eq_ok_iff {registry : Registry} {limits : Limits} {allowed : KindSet}
    {expected : String} {r r' : Reader} {opening : RecordHeader × RecordReader} :
    header registry limits allowed expected r = .ok opening r' ↔
      r.depth < limits.maxDepth.toNat ∧ allowed.contains opening.1.kind = true ∧
        registry.find? opening.1.kind = some opening.2 ∧ ∃ word s t,
          kind r = .ok opening.1.kind s ∧ fixed 2 s = .ok word t ∧
            opening.1.summary = .ofBitsTruncate word ∧
              overlay limits t = .ok opening.1.overlay r' := by
  unfold header
  rw [EStateM.bind_eq_ok_iff]
  constructor
  · rintro ⟨_, _, looked, run⟩
    cases looked
    dsimp only at run
    split at run
    · cases run
    · rename_i room
      obtain ⟨k, s, tagged, run⟩ := EStateM.bind_eq_ok_iff.1 run
      split at run
      · cases run
      · rename_i allows
        cases found : registry.find? k with
        | none =>
          rw [found] at run
          cases run
        | some reader =>
          rw [found] at run
          obtain ⟨word, t, bits, run⟩ := EStateM.bind_eq_ok_iff.1 run
          obtain ⟨o, u, attached, run⟩ := EStateM.bind_eq_ok_iff.1 run
          cases run
          exact ⟨by omega, by simpa using allows, found, word, s, t, tagged, bits,
            rfl, attached⟩
  · rintro ⟨room, allows, found, word, s, t, tagged, bits, same, attached⟩
    obtain ⟨⟨k, summary, o⟩, reader⟩ := opening
    obtain rfl : summary = .ofBitsTruncate word := same
    refine ⟨r, r, rfl, ?_⟩
    dsimp only at allows found tagged attached ⊢
    rw [if_neg (by omega)]
    refine EStateM.bind_eq_ok_iff.2 ⟨k, s, tagged, ?_⟩
    rw [allows, found]
    refine EStateM.bind_eq_ok_iff.2 ⟨word, t, bits, ?_⟩
    exact EStateM.bind_eq_ok_iff.2 ⟨o, r', attached, rfl⟩

/-- The header of a record is parsed where records may still nest, if there is a reader for it. -/
theorem header_parses {limits : Limits} (registry : Registry) (allowed : KindSet)
    (expected : String) (room : depth < limits.maxDepth.toNat) :
    Parses depth (header registry limits allowed expected) Eq (plain fun opening p =>
      allowed.contains opening.1.kind = true ∧ registry.find? opening.1.kind = some opening.2 ∧
        Heading limits opening.1 p) := by
  unfold header
  refine Parses.atDepth ?_ fun r level => by rw [level, if_neg (by omega)]
  refine Parses.congr (kind_parses.bindEq fun kind => (?_ : Parses depth _ Eq
    (plain fun opening p => opening.1.kind = kind ∧ allowed.contains kind = true ∧
      registry.find? kind = some opening.2 ∧
        Heading limits opening.1 (Bytes.littleEndian 2 kind.tag ++ p)))) fun texts p o texts' => ?_
  · dsimp only
    split
    · rename_i other
      refine (Parses.fail_bind _ _ _).congr fun texts p o texts' => ⟨False.elim, ?_⟩
      rintro ⟨⟨-, hallowed, -⟩, -⟩
      simp [hallowed] at other
    · rename_i hallowed
      have inside : allowed.contains kind = true := by simpa using hallowed
      cases found : registry.find? kind with
      | none =>
        refine (Parses.fail _ _).congr fun texts p o texts' => ⟨False.elim, ?_⟩
        rintro ⟨⟨-, -, impossible, -⟩, -⟩
        cases impossible
      | some reader =>
        refine ((fixed_parses 2).bindEq fun word => (overlay_parses limits).bindEq fun overlay =>
          Parses.pure rfl).congr fun texts p o texts' => ?_
        constructor
        · rintro ⟨word, _, _, _, ⟨⟨few, rfl⟩, rfl⟩, ⟨overlay, _, _, _,
            ⟨⟨_, _, rfl, first, second⟩, rfl⟩, ⟨⟨rfl, rfl⟩, rfl⟩, rfl⟩, rfl⟩
          rw [List.append_nil]
          exact ⟨⟨rfl, inside, rfl, .mk few first second⟩, rfl⟩
        · rintro ⟨⟨rfl, -, same, heading⟩, rfl⟩
          obtain ⟨h, _⟩ := o
          obtain rfl := Option.some.inj same
          generalize split : Bytes.littleEndian 2 h.kind.tag ++ p = whole at heading
          obtain ⟨few, first, second⟩ := heading
          obtain rfl := List.append_cancel_left split
          exact ⟨_, _, _, _, ⟨⟨few, rfl⟩, rfl⟩, ⟨_, _, [], _,
            ⟨⟨_, _, rfl, first, second⟩, rfl⟩, ⟨⟨rfl, rfl⟩, rfl⟩,
            (List.append_nil _).symm⟩, rfl⟩
  · constructor
    · rintro ⟨kind, _, p, _, ⟨rfl, rfl⟩,
        ⟨⟨rfl, hallowed, found, heading⟩, rfl⟩, rfl⟩
      exact ⟨⟨hallowed, found, heading⟩, rfl⟩
    · rintro ⟨⟨hallowed, found, heading⟩, rfl⟩
      obtain ⟨h, reader⟩ := o
      obtain ⟨few, first, second⟩ := heading
      exact ⟨_, _, _, _, ⟨rfl, rfl⟩,
        ⟨⟨rfl, hallowed, found, .mk few first second⟩, rfl⟩, rfl⟩

private theorem repeated_sound {item : Read α} {view : α → δ → Prop} {phrase : Phrase δ}
    (parses : Parses depth item view phrase) {r r' : Reader} {as : List α}
    (chain : Chain (fun s a t => item s = .ok a t) r as r') (ready : r.Ready depth) :
    r'.Ready depth ∧ ∃ p ds, List.Forall₂ view as ds ∧ Many phrase r.texts p ds r'.texts ∧
      r.rest = p ++ r'.rest := by
  induction chain with
  | nil r => exact ⟨ready, [], [], .nil, .nil, rfl⟩
  | cons run _ ih =>
    obtain ⟨ready', p, d, means, head, split⟩ := parses.sound ready run
    obtain ⟨ready'', q, ds, all, tail, split'⟩ := ih ready'
    exact ⟨ready'', p ++ q, d :: ds, .cons means all, .cons head tail, by
      rw [split, split', List.append_assoc]⟩

private theorem repeated_complete {item : Read α} {view : α → δ → Prop} {phrase : Phrase δ}
    (parses : Parses depth item view phrase) {texts texts' : List String} {p s : List UInt8}
    {ds : List δ} (many : Many phrase texts p ds texts') {r : Reader} (ready : r.Ready depth)
    (known : r.texts = texts) (split : r.rest = p ++ s) :
    ∃ as r', Chain (fun s a t => item s = .ok a t) r as r' ∧ List.Forall₂ view as ds ∧
      r'.texts = texts' ∧ r'.rest = s := by
  induction many generalizing r with
  | nil => exact ⟨[], r, .nil r, .nil, known, split⟩
  | cons head _ ih =>
    subst known
    rw [List.append_assoc] at split
    obtain ⟨a, r', run, means, known', split'⟩ := parses.complete ready head split
    obtain ⟨as, r'', chain, all, known'', split''⟩ :=
      ih (parses.sound ready run).1 known' split'
    exact ⟨a :: as, r'', .cons run chain, .cons means all, known'', split''⟩

theorem repeated_parses {item : Read α} {view : α → δ → Prop} {phrase : Phrase δ}
    (parses : Parses depth item view phrase) (count : Nat) :
    Parses depth (repeated count item) (List.Forall₂ view)
      fun texts p ds texts' => ds.length = count ∧ Many phrase texts p ds texts' where
  sound := by
    intro r as r' ready run
    obtain ⟨length, chain⟩ := repeated_eq_ok_iff.1 run
    obtain ⟨ready', p, ds, all, many, split⟩ := repeated_sound parses chain ready
    exact ⟨ready', p, ds, all, ⟨all.length_eq ▸ length, many⟩, split⟩
  complete := by
    rintro r p ds texts s ready ⟨length, many⟩ split
    obtain ⟨as, r', chain, all, known, split'⟩ := repeated_complete parses many ready rfl split
    exact ⟨as, r', repeated_eq_ok_iff.2 ⟨all.length_eq.trans length, chain⟩, all,
      known, split'⟩
  failed := by
    intro r e r' ready run
    obtain ⟨as, t, chain, run⟩ := chain_of_repeated_eq_error run
    exact parses.failed (repeated_sound parses chain ready).1 run

theorem counted_parses {item : Read α} {view : α → δ → Prop} {phrase : Phrase δ}
    (parses : Parses depth item view phrase) :
    Parses depth (do repeated (← length) item) (List.Forall₂ view) (Counted phrase) := by
  refine (length_parses.bindEq fun count => repeated_parses parses count).congr
    fun texts p ds texts' => ?_
  constructor
  · rintro ⟨_, _, q, _, ⟨⟨small, rfl⟩, rfl⟩, ⟨rfl, many⟩, rfl⟩
    exact .mk small many
  · rintro ⟨small, many⟩
    exact ⟨_, _, _, _, ⟨⟨small, rfl⟩, rfl⟩, ⟨rfl, many⟩, rfl⟩

private theorem enter_run (inside : Read α) {r : Reader} (small : r.depth < maxSize) :
    (do enter; inside : Read α) r = inside { r with depth := r.depth + 1 } := by
  have entered : enter r = .ok () { r with depth := r.depth + 1 } := by
    simp only [enter, addSize, addSize?]
    rw [if_pos (by omega)]
  change EStateM.bind enter (fun _ => inside) r = _
  simp only [EStateM.bind, entered]

private theorem leave_run (next : Read α) {r : Reader} (open_ : 0 < r.depth) :
    (do leave; next : Read α) r = next { r with depth := r.depth - 1 } := by
  have left : leave r = .ok () { r with depth := r.depth - 1 } := by
    simp only [leave]
    rw [if_pos open_]
  change EStateM.bind leave (fun _ => next) r = _
  simp only [EStateM.bind, left]

theorem nested_of_ok {inside : Read α} {r r' : Reader} {a : α} (small : r.depth < maxSize)
    (read : inside { r with depth := r.depth + 1 } = .ok a r') (open_ : 0 < r'.depth) :
    nested inside r = .ok a { r' with depth := r'.depth - 1 } := by
  unfold nested
  rw [enter_run inside small, read]
  exact leave_run (Pure.pure a) open_

theorem nested_of_error {inside : Read α} {r r' : Reader} {e : ReadError}
    (small : r.depth < maxSize)
    (read : inside { r with depth := r.depth + 1 } = .error (.error e) r') (open_ : 0 < r'.depth) :
    nested inside r = .error (.error e) { r' with depth := r'.depth - 1 } := by
  unfold nested
  rw [enter_run inside small, read]
  exact leave_run (fail e) open_

theorem nested_of_fault {inside : Read α} {r r' : Reader} {cause : Fault}
    (small : r.depth < maxSize)
    (read : inside { r with depth := r.depth + 1 } = .error (.fault cause) r') :
    nested inside r = .error (.fault cause) r' := by
  unfold nested
  rw [enter_run inside small, read]

theorem nested_congr {inside inside' : Read α} {r : Reader}
    (same : inside' { r with depth := r.depth + 1 } = inside { r with depth := r.depth + 1 }) :
    nested inside' r = nested inside r := by
  have entered : (do enter; inside' : Read α) r = (do enter; inside : Read α) r := by
    rcases Nat.lt_or_ge r.depth maxSize with small | full
    · rw [enter_run inside' small, enter_run inside small, same]
    · have refused : enter r = .error (.fault .sumOverflow) r := by
        simp only [enter, addSize, addSize?]
        rw [if_neg (by omega)]
      change EStateM.bind enter (fun _ => inside') r = EStateM.bind enter (fun _ => inside) r
      simp only [EStateM.bind, refused]
  unfold nested
  rw [entered]

/-- Whether there is room for one more record, and what is read inside it does not leave it unless
by a fault. -/
structure StaysInside (inside : Read α) (r : Reader) : Prop where
  small : r.depth < maxSize
  ok : ∀ {a r'}, inside { r with depth := r.depth + 1 } = .ok a r' → 0 < r'.depth
  error : ∀ {e r'}, inside { r with depth := r.depth + 1 } = .error (.error e) r' → 0 < r'.depth

def outside : EStateM.Result ReadFailure Reader α → EStateM.Result ReadFailure Reader α
  | .ok a r => .ok a { r with depth := r.depth - 1 }
  | .error (.error e) r => .error (.error e) { r with depth := r.depth - 1 }
  | .error (.fault cause) r => .error (.fault cause) r

theorem stateAfter_outside (result : EStateM.Result ReadFailure Reader α) :
    ∃ level, stateAfter (outside result) = { stateAfter result with depth := level } := by
  cases result with
  | ok a r => exact ⟨_, rfl⟩
  | error failure r =>
    cases failure with
    | error e => exact ⟨_, rfl⟩
    | fault cause => exact ⟨r.depth, rfl⟩

theorem nested_eq {inside : Read α} {r : Reader} (stays : StaysInside inside r) :
    nested inside r = outside (inside { r with depth := r.depth + 1 }) := by
  cases read : inside { r with depth := r.depth + 1 } with
  | ok a r' => exact nested_of_ok stays.small read (stays.ok read)
  | error failure r' =>
    cases failure with
    | error e => exact nested_of_error stays.small read (stays.error read)
    | fault cause => exact nested_of_fault stays.small read

theorem recordWith_of_ok {registry : Registry} {limits : Limits} {inner : Inner}
    {allowed : KindSet} {expected : String} {r s : Reader} {opening : RecordHeader × RecordReader}
    (run : header registry limits allowed expected r = .ok opening s)
    (stays : StaysInside (contents limits inner opening.1 opening.2)
      { s with visits := s.visits.push ⟨opening.1.kind, s.depth⟩ }) :
    recordWith registry limits inner allowed expected r =
      outside (contents limits inner opening.1 opening.2
        { s with visits := s.visits.push ⟨opening.1.kind, s.depth⟩, depth := s.depth + 1 }) :=
  (EStateM.bind_of_ok run).trans (nested_eq stays)

theorem recordWith_of_error {registry : Registry} {limits : Limits} {inner : Inner}
    {allowed : KindSet} {expected : String} {r s : Reader} {failure : ReadFailure}
    (run : header registry limits allowed expected r = .error failure s) :
    recordWith registry limits inner allowed expected r = .error failure s :=
  EStateM.bind_eq_error_iff.2 (.inl run)

section

variable {result : EStateM.Result ReadFailure Reader α} {r : Reader}

theorem outside_eq_ok_iff {a : α} : outside result = .ok a r ↔
    ∃ r', result = .ok a r' ∧ { r' with depth := r'.depth - 1 } = r := by
  cases result with
  | ok b r' => simp [outside]
  | error failure r' => cases failure <;> simp [outside]

theorem outside_eq_error_iff {e : ReadError} : outside result = .error (.error e) r ↔
    ∃ r', result = .error (.error e) r' ∧ { r' with depth := r'.depth - 1 } = r := by
  cases result with
  | ok b r' => simp [outside]
  | error failure r' => cases failure <;> simp [outside]

theorem outside_eq_fault_iff {cause : Fault} :
    outside result = .error (.fault cause) r ↔ result = .error (.fault cause) r := by
  cases result with
  | ok b r' => simp [outside]
  | error failure r' => cases failure <;> simp [outside]

end

/-- A reader inside a record parses what it parses, one level deeper. -/
theorem nested_parses {inside : Read α} {view : α → δ → Prop} {phrase : Phrase δ}
    (small : depth < maxSize) (parses : Parses (depth + 1) inside view phrase) :
    Parses depth (nested inside) view phrase := by
  have stays {r : Reader} (ready : r.Ready depth) : StaysInside inside r := by
    refine ⟨ready.depth ▸ small, fun read => ?_, fun read => ?_⟩
    · rw [(parses.sound ready.deeper read).1.depth]
      omega
    · rw [(parses.failed ready.deeper read).depth]
      omega
  refine ⟨?_, ?_, ?_⟩
  · intro r a r'' ready run
    rw [nested_eq (stays ready), outside_eq_ok_iff] at run
    obtain ⟨r', read, rfl⟩ := run
    obtain ⟨ready', p, d, means, phrase, split⟩ := parses.sound ready.deeper read
    exact ⟨ready'.back, p, d, means, phrase, split⟩
  · intro r p d texts s ready phrase split
    obtain ⟨a, r', read, means, known, rest⟩ := parses.complete ready.deeper phrase split
    refine ⟨a, { r' with depth := r'.depth - 1 }, ?_, means, known, rest⟩
    rw [nested_eq (stays ready), read, outside]
  · intro r e r'' ready run
    rw [nested_eq (stays ready), outside_eq_error_iff] at run
    obtain ⟨r', read, rfl⟩ := run
    exact (parses.failed ready.deeper read).back

end Reader

end GreenTree
