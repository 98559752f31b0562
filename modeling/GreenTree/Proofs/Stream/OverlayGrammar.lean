import GreenTree.Proofs.Stream.Steps
import GreenTree.Stream.OverlayBlock
import Mathlib.Data.List.Forall2

/-!
The grammar of overlay blocks: which bytes stand for a number, a text, a diagnostic or an
annotation. A number has a shortest form and wider ones. The reader accepts exactly what the grammar
gives, as long as it is within the budget, and the writer's bytes are the shortest that the grammar
gives.
-/

namespace GreenTree

/-- The bytes that stand for a number, in the shortest form or a wider one. -/
inductive Varint.Spelling : Nat → List UInt8 → Prop
  | byte {b : UInt8} : b.toNat ≤ largestByte → Spelling b.toNat [b]
  | half {bs : List UInt8} : bs.length = 2 → Spelling (Bytes.toNat bs) (251 :: bs)
  | word {bs : List UInt8} : bs.length = 4 → Spelling (Bytes.toNat bs) (252 :: bs)
  | long {bs : List UInt8} : bs.length = 8 → Spelling (Bytes.toNat bs) (253 :: bs)

theorem Varint.Spelling.lt {n : Nat} {p : List UInt8} (spelling : Spelling n p) :
    n < Bytes.capacity 8 := by
  cases spelling with
  | @byte b small => exact Nat.lt_of_lt_of_le b.toNat_lt (by decide)
  | @half bs length =>
    have := Bytes.toNat_lt bs
    rw [length] at this
    exact Nat.lt_of_lt_of_le this (by decide)
  | @word bs length =>
    have := Bytes.toNat_lt bs
    rw [length] at this
    exact Nat.lt_of_lt_of_le this (by decide)
  | @long bs length =>
    have := Bytes.toNat_lt bs
    rwa [length] at this

theorem Varint.encode_spelling {n : Nat} (small : n < Bytes.capacity 8) :
    Spelling n (encode n) := by
  have wide {width : Nat} (fits : n < Bytes.capacity width) :
      Bytes.toNat (Bytes.littleEndian width n) = n := by
    rw [Bytes.toNat_littleEndian, Nat.mod_eq_of_lt fits]
  unfold encode
  split_ifs with byte half word
  · have lead : (UInt8.ofNat n).toNat = n :=
      UInt8.toNat_ofNat_of_lt' (Nat.lt_of_le_of_lt byte (by decide))
    have spelling := @Spelling.byte (UInt8.ofNat n) (by rwa [lead])
    rwa [lead] at spelling
  · have spelling := @Spelling.half (Bytes.littleEndian 2 n) (by simp)
    rwa [wide half] at spelling
  · have spelling := @Spelling.word (Bytes.littleEndian 4 n) (by simp)
    rwa [wide word] at spelling
  · have spelling := @Spelling.long (Bytes.littleEndian 8 n) (by simp)
    rwa [wide small] at spelling

theorem Varint.encode_ne_nil (n : Nat) : encode n ≠ [] := by
  unfold encode
  split_ifs <;> simp

theorem Varint.Spelling.length_le {n : Nat} {p : List UInt8} (spelling : Spelling n p) :
    (encode n).length ≤ p.length := by
  have narrow {bs : List UInt8} {width : Nat} (length : bs.length = width) :
      Bytes.toNat bs < Bytes.capacity width := length ▸ Bytes.toNat_lt bs
  cases spelling with
  | byte small => simp [encode, small]
  | half length =>
    have small := narrow length
    unfold encode
    split_ifs <;> simp [length]
  | word length =>
    have small := narrow length
    unfold encode
    split_ifs <;> simp [length]
  | long length =>
    unfold encode
    split_ifs <;> simp [length]

private theorem Varint.spelling_cons_iff {n : Nat} {b : UInt8} {bs : List UInt8} :
    Varint.Spelling n (b :: bs) ↔ match Varint.lead b with
      | .value m => n = m ∧ bs = []
      | .wide width => bs.length = width ∧ n = Bytes.toNat bs
      | .tooWide | .reserved => False := by
  constructor
  · intro spelling
    cases spelling with
    | byte small => simp [Varint.lead, small]
    | half length => exact ⟨length, rfl⟩
    | word length => exact ⟨length, rfl⟩
    | long length => exact ⟨length, rfl⟩
  · unfold Varint.lead
    split_ifs with small half word long wide
    · rintro ⟨rfl, rfl⟩
      exact .byte small
    · rintro ⟨length, rfl⟩
      exact half ▸ .half length
    · rintro ⟨length, rfl⟩
      exact word ▸ .word length
    · rintro ⟨length, rfl⟩
      exact long ▸ .long length
    · exact False.elim
    · exact False.elim

theorem Utf8.decode_eq_ok_iff {bytes : List UInt8} {text : String} :
    Utf8.decode bytes = .ok text ↔ bytes = Utf8.encode text :=
  ⟨fun h => (Utf8.encode_of_decode h).symm, fun h => h ▸ Utf8.decode_encode text⟩

@[simp] theorem Utf8.length_encode (text : String) :
    (Utf8.encode text).length = text.utf8ByteSize := by
  simp [Utf8.encode]

namespace OverlayBlock

/-- The bytes that stand for a text. A text in memory takes less than half of the address space. -/
inductive TextSpelling : String → List UInt8 → Prop
  | mk {text : String} {size : List UInt8} : Varint.Spelling text.utf8ByteSize size →
      text.utf8ByteSize < addressLimit → TextSpelling text (size ++ Utf8.encode text)

inductive OptionSpelling : Option String → List UInt8 → Prop
  | absent : OptionSpelling none [0]
  | present {text : String} {bs : List UInt8} : TextSpelling text bs →
      OptionSpelling (some text) (1 :: bs)

/-- The bytes that stand for a list: the number of members, then each member. -/
inductive ListSpelling {α : Type} (member : α → List UInt8 → Prop) :
    List α → List UInt8 → Prop
  | mk {members : List α} {count : List UInt8} {parts : List (List UInt8)} :
      Varint.Spelling members.length count → List.Forall₂ member members parts →
      ListSpelling member members (count ++ parts.flatten)

inductive DiagnosticSpelling : Diagnostic → List UInt8 → Prop
  | mk {d : Diagnostic} {code severity offset width arguments : List UInt8} :
      Varint.Spelling d.code.number.toNat code → Varint.Spelling d.severity.rank severity →
      Varint.Spelling d.offset.toNat offset → Varint.Spelling d.width.toNat width →
      ListSpelling TextSpelling d.arguments arguments →
      DiagnosticSpelling d (code ++ (severity ++ (offset ++ (width ++ arguments))))

inductive AnnotationSpelling : Annotation → List UInt8 → Prop
  | mk {a : Annotation} {id kind data : List UInt8} : Varint.Spelling a.id.toNat id →
      OptionSpelling a.kind kind → OptionSpelling a.data data →
      AnnotationSpelling a (id ++ (kind ++ data))

variable {α β : Type}

/-- Whether a reader accepts exactly the bytes that stand for a value, pays for each of them, and
touches nothing behind them. -/
def Decodes (reader : Decode α) (spelling : α → List UInt8 → Prop) : Prop :=
  ∀ s a t, reader s = .ok a t ↔
    ∃ p, spelling a p ∧ s = ⟨p ++ t.rest, p.length + t.budget⟩

theorem Decodes.bind {reader : Decode α} {next : α → Decode β}
    {first : α → List UInt8 → Prop} {second : α → β → List UInt8 → Prop}
    (head : Decodes reader first) (tail : ∀ a, Decodes (next a) (second a)) :
    Decodes (reader >>= next) fun b p => ∃ a q r, first a q ∧ second a b r ∧ p = q ++ r := by
  intro s b u
  rw [EStateM.bind_eq_ok_iff]
  constructor
  · rintro ⟨a, t, run, rest⟩
    obtain ⟨q, hq, rfl⟩ := (head s a t).1 run
    obtain ⟨r, hr, rfl⟩ := (tail a t b u).1 rest
    exact ⟨q ++ r, ⟨a, q, r, hq, hr, rfl⟩, by simp [Nat.add_assoc]⟩
  · rintro ⟨_, ⟨a, q, r, hq, hr, rfl⟩, rfl⟩
    refine ⟨a, ⟨r ++ u.rest, r.length + u.budget⟩, (head _ _ _).2 ⟨q, hq, ?_⟩,
      (tail _ _ _ _).2 ⟨r, hr, rfl⟩⟩
    simp [Nat.add_assoc]

theorem Decodes.pure (a : α) : Decodes (pure a) fun b p => b = a ∧ p = [] := by
  intro s b t
  rw [EStateM.pure_eq_ok_iff]
  constructor
  · rintro ⟨rfl, rfl⟩
    exact ⟨[], ⟨rfl, rfl⟩, by simp⟩
  · rintro ⟨_, ⟨rfl, rfl⟩, rfl⟩
    simp

theorem Decodes.throw (e : Failure OverlayError) :
    Decodes (throw e : Decode α) fun _ _ => False := by
  intro s a t
  change EStateM.Result.error e s = .ok a t ↔ _
  simp

theorem Decodes.congr {reader : Decode α} {spelling spelling' : α → List UInt8 → Prop}
    (decodes : Decodes reader spelling) (same : ∀ a p, spelling a p ↔ spelling' a p) :
    Decodes reader spelling' := by
  intro s a t
  rw [decodes s a t]
  exact exists_congr fun p => and_congr_left fun _ => same a p

private theorem spend_eq_ok_iff {count : Nat} {s t : State} {u : Unit} :
    spend count s = .ok u t ↔ s = ⟨t.rest, count + t.budget⟩ := by
  unfold spend
  constructor
  · intro run
    split at run
    · rename_i paid
      obtain ⟨-, rfl⟩ := EStateM.Result.ok.inj run
      simp only [Nat.add_sub_cancel' paid]
    · cases run
  · rintro rfl
    simp

private theorem take_eq_ok_iff {count : Nat} {bytes : List UInt8} {s t : State} :
    take count s = .ok bytes t ↔ bytes.length = count ∧
    s = ⟨bytes ++ t.rest, t.budget⟩ := by
  obtain ⟨rest, budget⟩ := s
  obtain ⟨rest', budget'⟩ := t
  unfold take
  constructor
  · intro run
    split at run
    · rename_i first behind parts
      obtain ⟨rfl, same⟩ := EStateM.Result.ok.inj run
      obtain ⟨rfl, rfl⟩ := State.mk.inj same
      obtain ⟨joined, length⟩ := Bytes.append_of_split? parts
      exact ⟨length, by simpa using joined⟩
    · simp at run
  · rintro ⟨rfl, same⟩
    obtain ⟨rfl, rfl⟩ := State.mk.inj same
    simp [Bytes.split?_append]

theorem fixed_decodes (width : Nat) :
    Decodes (fixed width) fun n p => p.length = width ∧ n = Bytes.toNat p := by
  intro s n t
  simp only [fixed, EStateM.bind_eq_ok_iff, EStateM.pure_eq_ok_iff, spend_eq_ok_iff,
    take_eq_ok_iff]
  constructor
  · rintro ⟨-, u, rfl, bytes, v, ⟨rfl, rfl⟩, rfl, rfl⟩
    exact ⟨bytes, ⟨rfl, rfl⟩, rfl⟩
  · rintro ⟨p, ⟨rfl, rfl⟩, rfl⟩
    exact ⟨(), _, rfl, p, t, ⟨rfl, rfl⟩, rfl, rfl⟩

theorem number_decodes : Decodes number Varint.Spelling := by
  refine Decodes.congr (Decodes.bind (fixed_decodes 1) fun n =>
    (?lead : Decodes _ fun m p => Varint.Spelling m (UInt8.ofNat n :: p))) fun n p => ?_
  case lead =>
    simp only [Varint.spelling_cons_iff]
    cases Varint.lead (UInt8.ofNat n) with
    | value n => exact Decodes.pure n
    | wide bytes => exact fixed_decodes bytes
    | tooWide => exact Decodes.throw _
    | reserved => exact Decodes.throw _
  constructor
  · rintro ⟨_, q, r, ⟨length, rfl⟩, spelling, rfl⟩
    obtain ⟨b, rfl⟩ := List.length_eq_one_iff.1 length
    simpa [Bytes.toNat] using spelling
  · intro spelling
    obtain ⟨b, r, rfl⟩ : ∃ b r, p = b :: r := by
      cases spelling <;> exact ⟨_, _, rfl⟩
    exact ⟨b.toNat, [b], r, ⟨rfl, by simp [Bytes.toNat]⟩, by simpa using spelling, rfl⟩

theorem numberOf_decodes (bytes : Nat) :
    Decodes (numberOf bytes) fun n p => Varint.Spelling n p ∧ n < Bytes.capacity bytes := by
  have check (n : Nat) : Decodes (if n < Bytes.capacity bytes then Pure.pure n
      else MonadExcept.throw (.error (.numberTooLarge (8 * bytes) n))) fun m p =>
        m = n ∧ p = [] ∧ n < Bytes.capacity bytes := by
    split
    · rename_i small
      exact (Decodes.pure n).congr fun m p => by simp [small]
    · rename_i large
      exact (Decodes.throw _).congr fun m p => by simp [large]
  refine (number_decodes.bind check).congr fun n p => ?_
  constructor
  · rintro ⟨m, q, r, spelling, ⟨rfl, rfl, small⟩, rfl⟩
    exact ⟨by simpa using spelling, small⟩
  · rintro ⟨spelling, small⟩
    exact ⟨n, p, [], spelling, ⟨rfl, rfl, small⟩, by simp⟩

theorem text_decodes : Decodes text TextSpelling := by
  intro s a u
  unfold text
  simp only [EStateM.bind_eq_ok_iff]
  constructor
  · rintro ⟨length, t, number, _, t', paid, run⟩
    split at run
    · obtain ⟨_, _, thrown, -⟩ := EStateM.bind_eq_ok_iff.1 run
      cases thrown
    · rename_i addressable
      obtain ⟨bytes, t'', taken, run⟩ := EStateM.bind_eq_ok_iff.1 run
      cases decoded : Utf8.decode bytes with
      | ok found =>
        rw [decoded] at run
        obtain ⟨rfl, rfl⟩ := EStateM.pure_eq_ok_iff.1 run
        obtain rfl := Utf8.decode_eq_ok_iff.1 decoded
        obtain ⟨rfl, rfl⟩ := take_eq_ok_iff.1 taken
        obtain rfl := spend_eq_ok_iff.1 paid
        obtain ⟨p, spelling, rfl⟩ := (number_decodes _ _ _).1 number
        rw [Utf8.length_encode] at spelling addressable
        exact ⟨_, .mk spelling (by omega), by simp [Nat.add_assoc]⟩
      | error cause =>
        rw [decoded] at run
        cases run
  · rintro ⟨_, ⟨spelling, addressable⟩, rfl⟩
    rename_i p
    have paid := (Utf8.length_encode a).symm
    refine ⟨_, ⟨Utf8.encode a ++ u.rest, a.utf8ByteSize + u.budget⟩,
      (number_decodes _ _ _).2 ⟨p, spelling, by simp [Nat.add_assoc]⟩, (),
      ⟨Utf8.encode a ++ u.rest, u.budget⟩, spend_eq_ok_iff.2 rfl, ?_⟩
    rw [if_neg (by omega), EStateM.bind_eq_ok_iff]
    refine ⟨_, u, take_eq_ok_iff.2 ⟨paid.symm, rfl⟩, ?_⟩
    rw [Utf8.decode_encode]
    rfl

theorem option_decodes : Decodes option OptionSpelling := by
  refine Decodes.congr (Decodes.bind (fixed_decodes 1) fun n => (?rest : Decodes _ fun o p =>
    (n = 0 ∧ o = none ∧ p = []) ∨ (n = 1 ∧ ∃ s, o = some s ∧ TextSpelling s p)))
      fun o p => ?_
  case rest =>
    split
    · exact (Decodes.pure none).congr fun o p => by simp
    · refine (text_decodes.bind fun s => Decodes.pure (some s)).congr fun o p => ?_
      constructor
      · rintro ⟨s, q, _, spelling, ⟨rfl, rfl⟩, rfl⟩
        exact .inr ⟨rfl, s, rfl, by simpa using spelling⟩
      · rintro (⟨impossible, -⟩ | ⟨-, s, rfl, spelling⟩)
        · cases impossible
        · exact ⟨s, p, [], spelling, ⟨rfl, rfl⟩, by simp⟩
    · rename_i absent present
      refine (Decodes.throw _).congr fun o p => ⟨False.elim, ?_⟩
      rintro (⟨lead, -⟩ | ⟨lead, -⟩)
      · exact absent lead
      · exact present lead
  constructor
  · rintro ⟨n, q, r, ⟨length, rfl⟩, spelling, rfl⟩
    obtain ⟨b, rfl⟩ := List.length_eq_one_iff.1 length
    simp only [Bytes.toNat, Nat.mul_zero, Nat.add_zero] at spelling
    obtain ⟨lead, rfl, rfl⟩ | ⟨lead, s, rfl, spelling⟩ := spelling
    · obtain rfl : b = 0 := UInt8.toNat_inj.1 lead
      exact .absent
    · obtain rfl : b = 1 := UInt8.toNat_inj.1 lead
      exact .present spelling
  · intro spelling
    cases spelling with
    | absent => exact ⟨0, [0], [], ⟨rfl, rfl⟩, .inl ⟨rfl, rfl, rfl⟩, rfl⟩
    | @present s bs spelling =>
      exact ⟨1, [1], bs, ⟨rfl, rfl⟩, .inr ⟨rfl, s, rfl, spelling⟩, rfl⟩

private theorem chain_decodes {member : Decode α} {spelling : α → List UInt8 → Prop}
    (decodes : Decodes member spelling) {as : List α} {s t : State} :
    Chain (fun s a t => member s = .ok a t) s as t ↔ ∃ parts,
      List.Forall₂ spelling as parts ∧
        s = ⟨parts.flatten ++ t.rest, parts.flatten.length + t.budget⟩ := by
  constructor
  · intro chain
    induction chain with
    | nil s => exact ⟨[], .nil, by simp⟩
    | cons first rest ih =>
      obtain ⟨p, hp, rfl⟩ := (decodes _ _ _).1 first
      obtain ⟨parts, spelled, rfl⟩ := ih
      exact ⟨p :: parts, .cons hp spelled, by simp [Nat.add_assoc]⟩
  · rintro ⟨parts, spelled, rfl⟩
    induction spelled with
    | nil => simpa using Chain.nil t
    | @cons a p as parts hp spelled ih =>
      refine .cons ((decodes _ _ _).2 ⟨p, hp, ?_⟩) ih
      simp [Nat.add_assoc]

theorem list_decodes {member : Decode α} {spelling : α → List UInt8 → Prop}
    (decodes : Decodes member spelling) : Decodes (list member) (ListSpelling spelling) := by
  have members (count : Nat) : Decodes (repeated count member) fun as p =>
      as.length = count ∧ ∃ parts, List.Forall₂ spelling as parts ∧ p = parts.flatten := by
    intro s as t
    rw [repeated_eq_ok_iff, chain_decodes decodes]
    constructor
    · rintro ⟨length, parts, spelled, rfl⟩
      exact ⟨_, ⟨length, parts, spelled, rfl⟩, rfl⟩
    · rintro ⟨_, ⟨length, parts, spelled, rfl⟩, rfl⟩
      exact ⟨length, parts, spelled, rfl⟩
  refine (number_decodes.bind members).congr fun as p => ?_
  constructor
  · rintro ⟨_, q, _, spelling, ⟨rfl, parts, spelled, rfl⟩, rfl⟩
    exact .mk spelling spelled
  · rintro ⟨spelling, spelled⟩
    exact ⟨_, _, _, spelling, ⟨rfl, _, spelled, rfl⟩, rfl⟩

theorem Severity.rank_of_ofRank? {rank : Nat} {severity : Severity}
    (found : Severity.ofRank? rank = some severity) : severity.rank = rank := by
  have bound : rank < Severity.all.length := (List.getElem?_eq_some_iff.1 found).1
  have each : ∀ r : Fin 4, ∀ s, Severity.ofRank? r.val = some s → s.rank = r.val := by decide
  exact each ⟨rank, bound⟩ severity found

theorem Severity.rank_injective {a b : Severity} (same : a.rank = b.rank) : a = b := by
  have found := Severity.ofRank?_rank a
  rw [same, Severity.ofRank?_rank] at found
  exact (Option.some.inj found).symm

theorem severity_decodes :
    Decodes severity fun severity p => Varint.Spelling severity.rank p := by
  refine Decodes.congr (Decodes.bind (numberOf_decodes 4) fun rank =>
    (?named : Decodes _ fun severity p => severity.rank = rank ∧ p = [])) fun severity p => ?_
  case named =>
    cases found : Severity.ofRank? rank with
    | some known =>
      refine (Decodes.pure known).congr fun severity p => and_congr_left fun _ => ?_
      rw [← Severity.rank_of_ofRank? found]
      exact ⟨congrArg Severity.rank, Severity.rank_injective⟩
    | none =>
      refine (Decodes.throw _).congr fun severity p => ?_
      simp only [false_iff, not_and]
      rintro rfl
      simp at found
  constructor
  · rintro ⟨_, q, _, ⟨spelling, -⟩, ⟨rfl, rfl⟩, rfl⟩
    simpa using spelling
  · intro spelling
    refine ⟨severity.rank, p, [], ⟨spelling, ?_⟩, ⟨rfl, rfl⟩, by simp⟩
    cases severity <;> decide

theorem diagnostic_decodes : Decodes diagnostic DiagnosticSpelling := by
  refine ((numberOf_decodes 2).bind fun code => severity_decodes.bind fun severity =>
    (numberOf_decodes 4).bind fun offset => (numberOf_decodes 4).bind fun width =>
      (list_decodes text_decodes).bind fun arguments => Decodes.pure
        (⟨⟨UInt16.ofNat code⟩, severity, UInt32.ofNat offset, UInt32.ofNat width,
          arguments⟩ : Diagnostic)).congr fun d p => ?_
  constructor
  · rintro ⟨code, p₁, _, ⟨hCode, codeSmall⟩,
      ⟨severity, p₂, _, hSeverity, ⟨offset, p₃, _,
      ⟨hOffset, offsetSmall⟩,
      ⟨width, p₄, _, ⟨hWidth, widthSmall⟩, ⟨arguments, p₅, _, hArguments,
        ⟨rfl, rfl⟩, rfl⟩, rfl⟩, rfl⟩, rfl⟩, rfl⟩
    rw [List.append_nil]
    refine .mk ?_ hSeverity ?_ ?_ hArguments
    · rwa [UInt16.toNat_ofNat_of_lt' codeSmall]
    · rwa [UInt32.toNat_ofNat_of_lt' offsetSmall]
    · rwa [UInt32.toNat_ofNat_of_lt' widthSmall]
  · rintro ⟨hCode, hSeverity, hOffset, hWidth, hArguments⟩
    refine ⟨_, _, _, ⟨hCode, d.code.number.toNat_lt⟩, ⟨_, _, _, hSeverity, ⟨_, _, _,
      ⟨hOffset, d.offset.toNat_lt⟩,
      ⟨_, _, _, ⟨hWidth, d.width.toNat_lt⟩, ⟨_, _, [], hArguments,
        ⟨?_, rfl⟩, (List.append_nil _).symm⟩, rfl⟩, rfl⟩, rfl⟩, rfl⟩
    simp

theorem annotation_decodes : Decodes annotation AnnotationSpelling := by
  refine (number_decodes.bind fun id => option_decodes.bind fun kind =>
    option_decodes.bind fun data => Decodes.pure
      (⟨UInt64.ofNat id, kind, data⟩ : Annotation)).congr fun a p => ?_
  constructor
  · rintro ⟨id, p₁, _, hId,
      ⟨kind, p₂, _, hKind, ⟨data, p₃, _, hData, ⟨rfl, rfl⟩, rfl⟩, rfl⟩, rfl⟩
    rw [List.append_nil]
    refine .mk ?_ hKind hData
    rwa [UInt64.toNat_ofNat_of_lt' hId.lt]
  · rintro ⟨hId, hKind, hData⟩
    refine ⟨_, _, _, hId, ⟨_, _, _, hKind, ⟨_, _, [], hData, ⟨?_, rfl⟩,
      (List.append_nil _).symm⟩, rfl⟩, rfl⟩
    simp

/-- Whether nothing that stands for a value is shorter than what the writer puts for it. -/
def Shortest (encode : α → List UInt8) (spelling : α → List UInt8 → Prop) : Prop :=
  ∀ a p, spelling a p → (encode a).length ≤ p.length

theorem encodeText_spelling {text : String} (small : text.utf8ByteSize < addressLimit) :
    TextSpelling text (encodeText text) :=
  .mk (Varint.encode_spelling (Nat.lt_trans small (by decide))) small

theorem encodeText_shortest : Shortest encodeText TextSpelling := by
  rintro text p ⟨size, -⟩
  simp [encodeText, size.length_le]

theorem encodeOption_spelling {text : Option String}
    (small : ∀ s ∈ text, s.utf8ByteSize < addressLimit) :
    OptionSpelling text (encodeOption text) := by
  cases text with
  | none => exact .absent
  | some s => exact .present (encodeText_spelling (small s rfl))

theorem encodeOption_shortest : Shortest encodeOption OptionSpelling := by
  intro text p spelling
  cases spelling with
  | absent => exact Nat.le_refl _
  | present spelling => exact Nat.succ_le_succ (encodeText_shortest _ _ spelling)

section Lists

variable {member : α → List UInt8 → Prop} {encode : α → List UInt8}

theorem length_le_length_encodeList (filled : ∀ a, encode a ≠ []) (members : List α) :
    members.length ≤ (encodeList encode members).length := by
  have each : members.length ≤ (members.flatMap encode).length := by
    induction members with
    | nil => simp
    | cons a members ih =>
      have := List.length_pos_iff.2 (filled a)
      simp only [List.length_cons, List.flatMap_cons, List.length_append]
      omega
  simp only [encodeList, List.length_append]
  omega

theorem encodeList_spelling {members : List α} (spelled : ∀ a ∈ members, member a (encode a))
    (small : members.length < Bytes.capacity 8) :
    ListSpelling member members (encodeList encode members) := by
  have parts : List.Forall₂ member members (members.map encode) :=
    List.forall₂_map_right_iff.2 (List.forall₂_same.2 spelled)
  simpa [encodeList, List.flatMap] using ListSpelling.mk (Varint.encode_spelling small) parts

private theorem length_flatMap_le (shortest : Shortest encode member) {members : List α}
    {parts : List (List UInt8)} (spelled : List.Forall₂ member members parts) :
    (members.flatMap encode).length ≤ parts.flatten.length := by
  induction spelled with
  | nil => exact Nat.le_refl _
  | @cons a p members parts head tail ih =>
    simp only [List.flatMap_cons, List.flatten_cons, List.length_append]
    exact Nat.add_le_add (shortest a p head) ih

theorem Shortest.list (shortest : Shortest encode member) :
    Shortest (encodeList encode) (ListSpelling member) := by
  rintro members p ⟨count, parts⟩
  simp only [encodeList, List.length_append]
  exact Nat.add_le_add count.length_le (length_flatMap_le shortest parts)

end Lists

theorem encodeText_ne_nil (text : String) : encodeText text ≠ [] :=
  List.append_ne_nil_of_left_ne_nil (Varint.encode_ne_nil _) _

theorem encodeDiagnostic_ne_nil (d : Diagnostic) : encodeDiagnostic d ≠ [] := by
  simp [encodeDiagnostic, Varint.encode_ne_nil]

theorem encodeAnnotation_ne_nil (a : Annotation) : encodeAnnotation a ≠ [] := by
  simp [Varint.encode_ne_nil, encodeAnnotation]

theorem encodeDiagnostic_spelling {d : Diagnostic}
    (small : ∀ text ∈ d.arguments, text.utf8ByteSize < addressLimit)
    (fits : (encodeDiagnostic d).length < Bytes.capacity 8) :
    DiagnosticSpelling d (encodeDiagnostic d) := by
  have few : d.arguments.length < Bytes.capacity 8 := by
    have := length_le_length_encodeList encodeText_ne_nil d.arguments
    simp only [encodeDiagnostic, List.length_append] at fits
    omega
  have rank : d.severity.rank < Bytes.capacity 8 := by cases d.severity <;> decide
  have spelling : DiagnosticSpelling d _ := .mk
    (Varint.encode_spelling (Nat.lt_trans d.code.number.toNat_lt (by decide)))
    (Varint.encode_spelling rank)
    (Varint.encode_spelling (Nat.lt_trans d.offset.toNat_lt (by decide)))
    (Varint.encode_spelling (Nat.lt_trans d.width.toNat_lt (by decide)))
    (encodeList_spelling (fun text h => encodeText_spelling (small text h)) few)
  simpa [encodeDiagnostic, List.append_assoc] using spelling

theorem encodeDiagnostic_shortest : Shortest encodeDiagnostic DiagnosticSpelling := by
  rintro d p ⟨code, severity, offset, width, arguments⟩
  have := code.length_le
  have := severity.length_le
  have := offset.length_le
  have := width.length_le
  have := encodeText_shortest.list _ _ arguments
  simp only [encodeDiagnostic, List.length_append]
  omega

theorem encodeAnnotation_spelling {a : Annotation}
    (smallKind : ∀ text ∈ a.kind, text.utf8ByteSize < addressLimit)
    (smallData : ∀ text ∈ a.data, text.utf8ByteSize < addressLimit) :
    AnnotationSpelling a <| encodeAnnotation a := by
  have spelling : AnnotationSpelling a _ := .mk (Varint.encode_spelling a.id.toNat_lt)
    (encodeOption_spelling smallKind) (encodeOption_spelling smallData)
  simpa [List.append_assoc, encodeAnnotation] using spelling

theorem encodeAnnotation_shortest : Shortest encodeAnnotation AnnotationSpelling := by
  rintro a p ⟨id, kind, data⟩
  have := id.length_le
  have := encodeOption_shortest _ _ kind
  have := encodeOption_shortest _ _ data
  simp only [List.length_append, encodeAnnotation]
  omega

private theorem length_encode_le_length_encodeList {encode : α → List UInt8} {members : List α}
    {a : α} (h : a ∈ members) : (encode a).length ≤ (encodeList encode members).length := by
  have part : (encode a).length ≤ (members.flatMap encode).length :=
    (List.sublist_flatten_of_mem (List.mem_map_of_mem h)).length_le
  simp only [encodeList, List.length_append]
  omega

theorem encodeDiagnostics_spelling {ds : List Diagnostic}
    (small : ∀ d ∈ ds, ∀ text ∈ d.arguments, text.utf8ByteSize < addressLimit)
    (fits : (encodeDiagnostics ds).length < Bytes.capacity 8) :
    ListSpelling DiagnosticSpelling ds (encodeDiagnostics ds) := by
  refine encodeList_spelling (fun d h => encodeDiagnostic_spelling (small d h) ?_) ?_
  · exact Nat.lt_of_le_of_lt (length_encode_le_length_encodeList h) fits
  · exact Nat.lt_of_le_of_lt (length_le_length_encodeList encodeDiagnostic_ne_nil ds) fits

theorem encodeAnnotations_spelling {as : List Annotation}
    (small : ∀ a ∈ as, ∀ text ∈ a.kind.toList ++ a.data.toList,
      text.utf8ByteSize < addressLimit) (fits : (encodeAnnotations as).length < Bytes.capacity 8) :
    ListSpelling AnnotationSpelling as (encodeAnnotations as) := by
  refine encodeList_spelling (fun a h => encodeAnnotation_spelling ?_ ?_) ?_
  · intro text hText
    exact small a h text (by simp_all)
  · intro text hText
    exact small a h text (by simp_all)
  · exact Nat.lt_of_le_of_lt (length_le_length_encodeList encodeAnnotation_ne_nil as) fits

end OverlayBlock

end GreenTree
