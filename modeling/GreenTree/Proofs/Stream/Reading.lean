import GreenTree.Proofs.Stream.Contracts
import GreenTree.Proofs.Stream.Parsing

/-!
Properties of readers that are shown step by step. A reader is put together out of a few steps of
its session, so a property that those steps have, and that is kept when one follows another, holds
of the reader of whole streams. On the way the session stays at its depth, learns only texts within
the limit and shares only sound trivia, which is what the steps may rely on.
-/

namespace GreenTree

namespace OverlayBlock

/-- Whether decoders have a property as soon as the steps that they are put together from have
it. -/
structure Closed (Holds : ∀ α : Type, Decode α → Prop) : Prop where
  pure {α : Type} (a : α) : Holds α (pure a)
  refuse {α : Type} (e : OverlayError) : Holds α (throw (.error e))
  bind {α β : Type} {first : Decode α} {next : α → Decode β} :
    Holds α first → (∀ a, Holds β (next a)) → Holds β (first >>= next)
  fixed (width : Nat) : Holds Nat (fixed width)
  text : Holds Nat number → Holds String text

namespace Closed

variable {Holds : ∀ α : Type, Decode α → Prop} {α : Type}

theorem number (closed : Closed Holds) : Holds Nat number := by
  unfold OverlayBlock.number
  apply closed.bind (closed.fixed 1)
  intro byte
  split
  · exact closed.pure _
  · exact closed.fixed _
  · exact closed.refuse _
  · exact closed.refuse _

theorem numberOf (closed : Closed Holds) (bytes : Nat) : Holds Nat (numberOf bytes) := by
  unfold OverlayBlock.numberOf
  apply closed.bind closed.number
  intro n
  split
  · exact closed.pure _
  · exact closed.refuse _

theorem option (closed : Closed Holds) : Holds (Option String) option := by
  unfold OverlayBlock.option
  apply closed.bind (closed.fixed 1)
  intro byte
  split
  · exact closed.pure _
  · exact closed.bind (closed.text closed.number) fun text => closed.pure _
  · exact closed.refuse _

theorem repeatInto (closed : Closed Holds) {member : Decode α} (each : Holds α member)
    (count : Nat) (done : Array α) : Holds (Array α) (repeatInto member count done) := by
  induction count generalizing done with
  | zero => exact closed.pure done
  | succ count ih =>
    rw [GreenTree.repeatInto]
    exact closed.bind each fun a => ih (done.push a)

theorem list (closed : Closed Holds) {member : Decode α} (each : Holds α member) :
    Holds (List α) (list member) := by
  unfold OverlayBlock.list repeated
  apply closed.bind closed.number
  intro count
  exact closed.bind (closed.repeatInto each count #[]) fun all => closed.pure _

theorem severity (closed : Closed Holds) : Holds Severity severity := by
  unfold OverlayBlock.severity
  apply closed.bind (closed.numberOf 4)
  intro rank
  split
  · exact closed.pure _
  · exact closed.refuse _

theorem diagnostics (closed : Closed Holds) : Holds (List Diagnostic) diagnostics := by
  apply closed.list
  unfold diagnostic
  apply closed.bind (closed.numberOf 2)
  intro code
  apply closed.bind closed.severity
  intro severity
  apply closed.bind (closed.numberOf 4)
  intro offset
  apply closed.bind (closed.numberOf 4)
  intro width
  exact closed.bind (closed.list (closed.text closed.number)) fun arguments => closed.pure _

theorem annotations (closed : Closed Holds) : Holds (List Annotation) annotations := by
  apply closed.list
  unfold annotation
  apply closed.bind closed.number
  intro id
  apply closed.bind closed.option
  intro kind
  exact closed.bind closed.option fun data => closed.pure _

end Closed

end OverlayBlock

namespace Reader

variable {α β : Type} {limits : Limits} {depth : Nat}

/-- What holds of a session between steps: it is ready, with a number of records open, and every
text learnt so far is within the limit. -/
structure Fit (limits : Limits) (depth : Nat) (r : Reader) : Prop extends r.Ready depth where
  short : ∀ text ∈ r.texts, text.utf8ByteSize ≤ limits.maxStringLength.toNat

theorem Fit.start (limits : Limits) (bytes : List UInt8) (cell : Nat) :
    Fit limits 0 { rest := bytes, nextCell := cell } :=
  ⟨⟨rfl, Interner.sound_empty⟩, fun _ impossible => nomatch impossible⟩

theorem Fit.deeper {r : Reader} (fit : r.Fit limits depth) :
    Fit limits (depth + 1) { r with depth := r.depth + 1 } :=
  ⟨fit.toReady.deeper, fit.short⟩

theorem Fit.back {r : Reader} (fit : r.Fit limits (depth + 1)) :
    Fit limits depth { r with depth := r.depth - 1 } :=
  ⟨fit.toReady.back, fit.short⟩

/-- Whether a reader keeps a session fit, also after an error, and what holds of the things it
gives. -/
structure Gives (limits : Limits) (depth : Nat) (reader : Read α) (post : α → Prop) : Prop where
  ok : ∀ {r a r'}, r.Fit limits depth → reader r = .ok a r' → r'.Fit limits depth ∧ post a
  error : ∀ {r e r'}, r.Fit limits depth → reader r = .error (.error e) r' →
    r'.Fit limits depth

namespace Gives

theorem pure {a : α} {post : α → Prop} (holds : post a) :
    Gives limits depth (pure a) post where
  ok := by
    intro r b r' fit run
    obtain ⟨rfl, rfl⟩ := EStateM.pure_eq_ok_iff.1 run
    exact ⟨fit, holds⟩
  error := by
    intro r e r' fit run
    cases run

theorem throw (failure : ReadFailure) (post : α → Prop) :
    Gives limits depth (throw failure) post where
  ok := by
    intro r a r' fit run
    cases run
  error := by
    intro r e r' fit run
    cases run
    exact fit

theorem bind {reader : Read α} {next : α → Read β} {post : α → Prop} {post' : β → Prop}
    (first : Gives limits depth reader post)
    (second : ∀ a, post a → Gives limits depth (next a) post') :
    Gives limits depth (reader >>= next) post' where
  ok := by
    intro r b r'' fit run
    obtain ⟨a, r', run, rest⟩ := EStateM.bind_eq_ok_iff.1 run
    obtain ⟨fit', holds⟩ := first.ok fit run
    exact (second a holds).ok fit' rest
  error := by
    intro r e r'' fit run
    rcases EStateM.bind_eq_error_iff.1 run with run | ⟨a, r', run, rest⟩
    · exact first.error fit run
    · obtain ⟨fit', holds⟩ := first.ok fit run
      exact (second a holds).error fit' rest

theorem look {next : Reader → Read α} {post : α → Prop}
    (each : ∀ r, r.Fit limits depth → Gives limits depth (next r) post) :
    Gives limits depth (get >>= next) post where
  ok := fun fit run => (each _ fit).ok fit run
  error := fun fit run => (each _ fit).error fit run

theorem change {f : Reader → Reader}
    (fit' : ∀ r, r.Fit limits depth → (f r).Fit limits depth) :
    Gives limits depth (modify f) fun _ => True where
  ok := by
    intro r a r' fit run
    cases run
    exact ⟨fit' r fit, trivial⟩
  error := by
    intro r e r' fit run
    cases run

theorem of_rest {reader : Read α} {post : α → Prop}
    (ok : ∀ r a r', reader r = .ok a r' → r' = { r with rest := r'.rest } ∧ post a)
    (error : ∀ r f r', reader r = .error f r' → r' = { r with rest := r'.rest }) :
    Gives limits depth reader post where
  ok := by
    intro r a r' fit run
    obtain ⟨same, holds⟩ := ok r a r' run
    rw [same]
    exact ⟨⟨⟨fit.depth, fit.interned⟩, fit.short⟩, holds⟩
  error := by
    intro r e r' fit run
    rw [error r _ r' run]
    exact ⟨⟨fit.depth, fit.interned⟩, fit.short⟩

theorem take (count : Nat) :
    Gives limits depth (take count) fun bytes => bytes.length = count := by
  unfold Reader.take
  apply of_rest
  · intro r bytes r' run
    split at run
    · rename_i parts
      cases run
      exact ⟨rfl, (Bytes.append_of_split? parts).2⟩
    · cases run
  · intro r f r' run
    split at run
    · cases run
    · cases run
      rfl

theorem block {decode : OverlayBlock.Decode α} {spelling : α → List UInt8 → Prop}
    (decodes : OverlayBlock.Decodes decode spelling) : Gives limits depth (block limits decode)
      fun a => ∃ p, spelling a p ∧ p.length ≤ limits.maxOverlayBytes.toNat := by
  unfold Reader.block
  apply of_rest
  · intro r a r' run
    split at run
    · rename_i t decoded
      cases run
      obtain ⟨p, spelled, same⟩ := (decodes _ _ _).1 decoded
      obtain ⟨-, budget⟩ := OverlayBlock.State.mk.inj same
      exact ⟨rfl, p, spelled, by omega⟩
    · cases run
    · cases run
  · intro r f r' run
    split at run
    · cases run
    · cases run
      rfl
    · cases run
      rfl

theorem stays {inside : Read α} {post : α → Prop} (gives : Gives limits (depth + 1) inside post)
    (small : depth < maxSize) {r : Reader} (fit : r.Fit limits depth) : StaysInside inside r := by
  refine ⟨fit.depth ▸ small, fun read => ?_, fun read => ?_⟩
  · rw [(gives.ok fit.deeper read).1.depth]
    omega
  · rw [(gives.error fit.deeper read).depth]
    omega

theorem nested {inside : Read α} {post : α → Prop} (small : depth < maxSize)
    (gives : Gives limits (depth + 1) inside post) :
    Gives limits depth (nested inside) post where
  ok := by
    intro r a r'' fit run
    rw [nested_eq (gives.stays small fit), outside_eq_ok_iff] at run
    obtain ⟨r', read, rfl⟩ := run
    obtain ⟨fit', holds⟩ := gives.ok fit.deeper read
    exact ⟨fit'.back, holds⟩
  error := by
    intro r e r'' fit run
    rw [nested_eq (gives.stays small fit), outside_eq_error_iff] at run
    obtain ⟨r', read, rfl⟩ := run
    exact (gives.error fit.deeper read).back

theorem visit (kind : Kind) : Gives limits depth (visit kind) fun _ => True :=
  change fun _ fit => ⟨⟨fit.depth, fit.interned⟩, fit.short⟩

end Gives

/-- A reader that has a property and of whose results something is known. -/
structure Follows (Holds : ∀ α : Type, Nat → Read α → Prop) (limits : Limits) (depth : Nat)
    (reader : Read α) (post : α → Prop) : Prop where
  gives : Gives limits depth reader post
  holds : Holds α depth reader

end Reader

/-- What holds of a header that was read where some kinds are allowed, and of the reader for it. -/
structure Registry.Heads (registry : Registry) (allowed : KindSet)
    (opening : RecordHeader × RecordReader) : Prop where
  allowed : allowed.contains opening.1.kind = true
  found : registry.find? opening.1.kind = some opening.2
  addressable : opening.1.overlay.Addressable

namespace Reader

variable {α β : Type} {limits : Limits} {depth : Nat}

/-- Whether readers have a property as soon as the steps of a session that they are put together
from have it. A step may rely on the session being fit; what it does must not depend on the bytes
that are not read yet, unless it takes them, and only a record begins a record. -/
structure Closed (limits : Limits) (Holds : ∀ α : Type, Nat → Read α → Prop) : Prop where
  pure {α : Type} (depth : Nat) (a : α) : Holds α depth (pure a)
  fail {α : Type} (depth : Nat) (e : ReadError) : Holds α depth (fail e)
  bind {α β : Type} {depth : Nat} {reader : Read α} {next : α → Read β}
    {post : α → Prop} :
    Gives limits depth reader post → Holds α depth reader →
      (∀ a, post a → Holds β depth (next a)) →
    Holds β depth (reader >>= next)
  look {α : Type} {depth : Nat} {next : Reader → Read α} :
    (∀ r rest, next { r with rest } = next r) →
    (∀ r, r.Fit limits depth → Holds α depth (next r)) → Holds α depth (get >>= next)
  change {depth : Nat} {f : Reader → Reader} :
    (∀ r rest, f { r with rest } = { f r with rest }) → (∀ r, (f r).visits = r.visits) →
    (∀ r, r.Fit limits depth → (f r).Fit limits depth) → Holds Unit depth (modify f)
  take (depth count : Nat) : Holds (List UInt8) depth (take count)
  diagnostics (depth : Nat) : Holds (List Diagnostic) depth (diagnostics limits)
  annotations (depth : Nat) : Holds (List Annotation) depth (annotations limits)
  record {depth : Nat} {registry : Registry} {inner : Inner} {allowed : KindSet} {expected : String}
    {post : RecordHeader × RecordReader → Element → Prop} : depth < limits.maxDepth.toNat →
    Follows Holds limits depth (header registry limits allowed expected)
      (registry.Heads allowed) →
    (∀ opening, registry.Heads allowed opening → Follows Holds limits (depth + 1)
      (contents limits inner opening.1 opening.2) (post opening)) →
    Holds Element depth (recordWith registry limits inner allowed expected)

/-- A property that is kept when a record is noted and when something is read one record deeper is
one of whole records. -/
theorem record_of_nested {Holds : ∀ α : Type, Nat → Read α → Prop}
    (bind : ∀ {α β : Type} {depth : Nat} {reader : Read α} {next : α → Read β}
      {post : α → Prop}, Gives limits depth reader post → Holds α depth reader →
      (∀ a, post a → Holds β depth (next a)) → Holds β depth (reader >>= next))
    (visit : ∀ depth kind, Holds Unit depth (visit kind))
    (nested : ∀ {α : Type} {depth : Nat} {inside : Read α} {post : α → Prop}, depth <
      maxSize → Gives limits (depth + 1) inside post → Holds α (depth + 1) inside →
      Holds α depth (nested inside))
    {registry : Registry} {inner : Inner} {allowed : KindSet} {expected : String}
    {post : RecordHeader × RecordReader → Element → Prop}
    (room : depth < limits.maxDepth.toNat)
    (head : Follows Holds limits depth (header registry limits allowed expected)
      (registry.Heads allowed))
    (inside : ∀ opening, registry.Heads allowed opening → Follows Holds limits (depth + 1)
      (contents limits inner opening.1 opening.2) (post opening)) :
    Holds Element depth (recordWith registry limits inner allowed expected) :=
  bind head.gives head.holds fun opening heads =>
    bind (.visit opening.1.kind) (visit depth _) fun _ _ =>
      nested (limits.lt_maxSize room) (inside opening heads).gives (inside opening heads).holds

namespace Follows

variable {Holds : ∀ α : Type, Nat → Read α → Prop}

theorem mono {reader : Read α} {post post' : α → Prop}
    (follows : Follows Holds limits depth reader post) (weaker : ∀ a, post a → post' a) :
    Follows Holds limits depth reader post' where
  gives := ⟨fun fit run => (follows.gives.ok fit run).imp id (weaker _), follows.gives.error⟩
  holds := follows.holds

variable (closed : Closed limits Holds)

include closed

theorem pure {a : α} {post : α → Prop} (given : post a) :
    Follows Holds limits depth (Pure.pure a) post :=
  ⟨.pure given, closed.pure depth a⟩

theorem fail (e : ReadError) (post : α → Prop) :
    Follows Holds limits depth (Reader.fail e) post :=
  ⟨.throw (.error e) post, closed.fail depth e⟩

theorem bind {reader : Read α} {next : α → Read β} {post : α → Prop} {post' : β → Prop}
    (first : Follows Holds limits depth reader post)
    (second : ∀ a, post a → Follows Holds limits depth (next a) post') :
    Follows Holds limits depth (reader >>= next) post' :=
  ⟨.bind first.gives fun a given => (second a given).gives,
    closed.bind first.gives first.holds fun a given => (second a given).holds⟩

theorem fail_bind (e : ReadError) {γ : Type} (next : γ → Read α) (post : α → Prop) :
    Follows Holds limits depth (Reader.fail e >>= next) post :=
  bind closed (fail closed e fun _ => False) fun _ impossible => impossible.elim

theorem look {next : Reader → Read α} {post : α → Prop}
    (blind : ∀ r rest, next { r with rest } = next r)
    (each : ∀ r, r.Fit limits depth → Follows Holds limits depth (next r) post) :
    Follows Holds limits depth (get >>= next) post :=
  ⟨.look fun r fit => (each r fit).gives, closed.look blind fun r fit => (each r fit).holds⟩

theorem change {f : Reader → Reader} (blind : ∀ r rest, f { r with rest } = { f r with rest })
    (begun : ∀ r, (f r).visits = r.visits)
    (fit : ∀ r, r.Fit limits depth → (f r).Fit limits depth) :
    Follows Holds limits depth (modify f) fun _ => True :=
  ⟨.change fit, closed.change blind begun fit⟩

theorem take (count : Nat) :
    Follows Holds limits depth (take count) fun bytes => bytes.length = count :=
  ⟨.take count, closed.take depth count⟩

theorem fixed (width : Nat) :
    Follows Holds limits depth (fixed width) fun n => n < Bytes.capacity width := by
  unfold Reader.fixed
  apply bind closed (take closed width)
  intro bytes length
  exact pure closed (length ▸ Bytes.toNat_lt bytes)

theorem flag : Follows Holds limits depth flag fun _ => True := by
  unfold Reader.flag
  apply bind closed (fixed closed 1)
  intro byte _
  split
  · exact pure closed trivial
  · exact pure closed trivial
  · exact fail closed _ _

theorem learn {text : String} (short : text.utf8ByteSize ≤ limits.maxStringLength.toNat) :
    Follows Holds limits depth (modify fun r : Reader => { r with strings := r.strings.push text })
      fun _ => True := by
  apply change closed
  · intro r rest
    rfl
  · exact fun _ => rfl
  · intro r fit
    refine ⟨⟨fit.depth, fit.interned⟩, fun known h => ?_⟩
    have either : known ∈ r.texts ∨ known = text := by
      simpa [Reader.texts, StringTable.push] using h
    rcases either with old | rfl
    · exact fit.short known old
    · exact short

theorem inlineText : Follows Holds limits depth (inlineText limits)
    fun text => text.utf8ByteSize ≤ limits.maxStringLength.toNat := by
  unfold Reader.inlineText
  apply bind closed (fixed closed 4)
  intro length _
  dsimp only
  split
  · exact fail_bind closed _ _ _
  · rename_i within
    apply bind closed (take closed length)
    intro bytes taken
    split
    · rename_i text decoded
      have short : text.utf8ByteSize ≤ limits.maxStringLength.toNat := by
        rw [← Utf8.length_encode, ← Utf8.decode_eq_ok_iff.1 decoded, taken]
        omega
      exact bind closed (learn closed short) fun _ _ => pure closed short
    · exact fail closed _ _

theorem referencedText : Follows Holds limits depth referencedText
    fun text => text.utf8ByteSize ≤ limits.maxStringLength.toNat := by
  unfold Reader.referencedText
  apply bind closed (fixed closed 4)
  intro index _
  apply look closed fun _ _ => rfl
  intro r fit
  dsimp only
  split
  · rename_i text found
    have known : r.texts[index]? = some text := by
      simpa [Reader.texts, StringTable.get?] using found
    exact pure closed (fit.short text (List.mem_of_getElem? known))
  · exact fail closed _ _

theorem text : Follows Holds limits depth (text limits)
    fun text => text.utf8ByteSize ≤ limits.maxStringLength.toNat := by
  unfold Reader.text
  apply bind closed (fixed closed 1)
  intro tag _
  split
  · exact inlineText closed
  · exact referencedText closed
  · exact fail closed _ _

theorem kind : Follows Holds limits depth kind fun _ => True := by
  unfold Reader.kind
  apply bind closed (fixed closed 2)
  intro tag _
  split
  · exact pure closed trivial
  · exact fail closed _ _

omit closed in
theorem block {decode : OverlayBlock.Decode (List α)} {member : α → List UInt8 → Prop}
    (decodes : OverlayBlock.Decodes decode (OverlayBlock.ListSpelling member))
    (holds : Holds (List α) depth (block limits decode)) :
    Follows Holds limits depth (Reader.block limits decode)
      fun as => ∃ p, Grammar.Attached limits member as p where
  gives := ((Follows.mk (Gives.block decodes) holds).mono
    fun _ ⟨_, spelled, within⟩ => ⟨_, .present spelled within⟩).gives
  holds := holds

theorem diagnostics : Follows Holds limits depth (diagnostics limits)
    fun ds => ∃ p, Grammar.Attached limits OverlayBlock.DiagnosticSpelling ds p :=
  block (OverlayBlock.list_decodes OverlayBlock.diagnostic_decodes) (closed.diagnostics depth)

theorem annotations : Follows Holds limits depth (annotations limits)
    fun as => ∃ p, Grammar.Attached limits OverlayBlock.AnnotationSpelling as p :=
  block (OverlayBlock.list_decodes OverlayBlock.annotation_decodes) (closed.annotations depth)

theorem attached {reader : Read (List α)} {member : α → List UInt8 → Prop}
    (present : Follows Holds limits depth reader fun as =>
      ∃ p, Grammar.Attached limits member as p) :
    Follows Holds limits depth (do if ← Reader.flag then reader else Pure.pure [])
      fun as => ∃ p, Grammar.Attached limits member as p := by
  apply bind closed (flag closed)
  intro isPresent _
  split
  · exact present
  · exact pure closed ⟨_, .absent⟩

theorem overlay : Follows Holds limits depth (overlay limits) Overlay.Addressable := by
  rw [overlay_eq]
  apply bind closed (attached closed (diagnostics closed))
  rintro diagnostics ⟨p, spelled⟩
  apply bind closed (attached closed (annotations closed))
  rintro annotations ⟨q, spelled'⟩
  exact pure closed (Grammar.Attached.addressable spelled spelled')

theorem header (registry : Registry) (allowed : KindSet) (expected : String) :
    Follows Holds limits depth (header registry limits allowed expected)
      (registry.Heads allowed) := by
  unfold Reader.header
  apply look closed fun _ _ => rfl
  intro r fit
  dsimp only
  split
  · exact fail_bind closed _ _ _
  · apply bind closed (kind closed)
    intro kind _
    split
    · exact fail_bind closed _ _ _
    · rename_i other
      have allows : allowed.contains kind = true := by simpa using other
      cases found : registry.find? kind with
      | none => exact fail closed _ _
      | some reader =>
        apply bind closed (fixed closed 2)
        intro word _
        apply bind closed (overlay closed)
        intro overlay addressable
        exact pure closed ⟨allows, found, addressable⟩

theorem freshCell : Follows Holds limits depth freshCell fun _ => True := by
  unfold Reader.freshCell
  apply look closed fun _ _ => rfl
  intro r fit
  refine bind closed (change closed ?blind ?begun ?fit) fun _ _ => pure closed trivial
  case blind => exact fun _ _ => rfl
  case begun => exact fun _ => rfl
  case fit => exact fun _ fit => ⟨⟨fit.depth, fit.interned⟩, fit.short⟩

theorem made {make : Nat → Except Fault α} {wrap : α → β} {post : β → Prop}
    (ok : ∀ cell a, make cell = .ok a → post (wrap a))
    (error : ∀ cell cause, make cell = .error cause →
      (∃ kind, cause = .tooWide kind) ∨ Holds β depth (throw (.fault cause))) :
    Follows Holds limits depth (do
      let cell ← Reader.freshCell
      return wrap (← built (make cell))) post := by
  apply bind closed (freshCell closed)
  intro cell _
  cases new : make cell with
  | ok a => exact pure closed (ok cell a new)
  | error cause =>
    rcases error cell cause new with ⟨kind, rfl⟩ | faults
    · exact fail_bind closed _ _ _
    · have either : (∃ kind, cause = .tooWide kind) ∨
          built (.error cause : Except Fault α) = MonadExcept.throw (.fault cause) := by
        cases cause <;> first | exact .inr rfl | exact .inl ⟨_, rfl⟩
      rcases either with ⟨kind, rfl⟩ | same
      · exact fail_bind closed _ _ _
      · rw [same]
        exact ⟨.throw (.fault cause) post, faults⟩

theorem intern {kind : Kind} {text : String}
    (faults : ∀ cell i cause j, Interner.ask cell kind text i = .error cause j →
      Holds Trivia depth (throw (.fault cause))) :
    Follows Holds limits depth (intern kind text)
      fun t => t.Sound ∧ t.blueprint = ⟨kind, text, .empty⟩ := by
  unfold Reader.intern
  apply bind closed (freshCell closed)
  intro cell _
  apply look closed fun _ _ => rfl
  intro r fit
  have shares {i : Interner} (sound : i.Sound) : Follows Holds limits depth
      (modify fun r : Reader => { r with interner := i }) fun _ => True :=
    change closed (fun _ _ => rfl) (fun _ => rfl) fun _ fit =>
      ⟨⟨fit.depth, sound⟩, fit.short⟩
  cases asked : Interner.ask cell kind text r.interner with
  | ok t i =>
    obtain ⟨means, sound⟩ := fit.interned.ask asked
    dsimp only
    exact bind closed (shares sound) fun _ _ => pure closed means
  | error cause i =>
    dsimp only
    exact bind closed (shares (fit.interned.refuse asked)) fun _ _ =>
      ⟨.throw (.fault cause) _, faults cell r.interner cause i asked⟩

theorem shares {kind : Kind} {text : String} (isTrivia : kind.isTrivia = true)
    (fits : text.utf8ByteSize ≤ maxSize) : Follows Holds limits depth (Reader.intern kind text)
      fun t => t.Sound ∧ t.blueprint = ⟨kind, text, .empty⟩ := by
  apply intern closed
  intro cell i cause j refused
  obtain ⟨t, k, asked⟩ := i.exists_ask cell isTrivia fits
  cases asked.symm.trans refused

theorem repeatInto {item : Read α} {post : α → Prop}
    (each : Follows Holds limits depth item post) (count : Nat) {done : Array α}
    (sofar : ∀ a ∈ done, post a) :
    Follows Holds limits depth (repeatInto item count done) fun all => ∀ a ∈ all, post a := by
  induction count generalizing done with
  | zero => exact pure closed sofar
  | succ count ih =>
    rw [GreenTree.repeatInto]
    apply bind closed each
    intro a given
    apply ih
    intro b h
    rcases Array.mem_push.1 h with old | rfl
    · exact sofar b old
    · exact given

theorem repeated {item : Read α} {post : α → Prop} (each : Follows Holds limits depth item post)
    (count : Nat) :
    Follows Holds limits depth (repeated count item) fun as => ∀ a ∈ as, post a := by
  have none : ∀ a ∈ (#[] : Array α), post a := by simp
  unfold GreenTree.repeated
  apply bind closed (repeatInto closed each count none)
  intro all given
  exact pure closed fun a h => given a (Array.mem_toList_iff.1 h)

def Inside (Holds : ∀ α : Type, Nat → Read α → Prop) (registry : Registry)
    (gives : Kind → Element → Prop) (limits : Limits) (depth : Nat) (inner : Inner) : Prop :=
  ∀ allowed expected, Follows Holds limits depth (inner allowed expected) fun e =>
    e.Sound ∧ ∃ kind, allowed.contains kind = true ∧ registry.CanGive gives kind e

/-- What else has to be known where readers from outside are registered: the property holds of them,
and of the fault to which they can give rise. -/
structure Scripts (Holds : ∀ α : Type, Nat → Read α → Prop) (registry : Registry)
    (limits : Limits) (gives : Kind → Element → Prop) : Prop where
  follow {depth : Nat} {inner : Inner} {h : RecordHeader} {script : RecordHeader →
    Script Element} :
    Inside Holds registry gives limits depth inner →
    registry.find? h.kind = some (.script script) → h.overlay.Addressable →
    Follows Holds limits depth (follow limits inner (script h)) fun e => e.Sound ∧ gives h.kind e
  faults {depth : Nat} {parent child : Kind} : registry.Clash gives parent child →
    Holds Element depth (throw (.fault (.triviaChild parent)))

omit closed in
theorem Scripts.of_only {registry : Registry} (only : registry.OnlyStandard) :
    Scripts Holds registry limits fun _ _ => False where
  follow _ found := absurd found only.no_script
  faults clash := by
    obtain ⟨script, e, found, -⟩ := clash.trivia
    exact absurd found only.no_script

variable {registry : Registry} {gives : Kind → Element → Prop} {inner : Inner}

section Records

variable (inside : Inside Holds registry gives limits depth inner)

include inside

theorem triviaRecord : Follows Holds limits depth (triviaRecord inner) Trivia.Sound := by
  unfold Reader.triviaRecord
  apply bind closed (inside .trivia "trivia")
  rintro e ⟨sound, -⟩
  split
  · exact pure closed (Element.sound_trivia_iff.1 sound)
  · exact fail closed _ _

theorem triviaList :
    Follows Holds limits depth (triviaList inner) fun ts => ∀ t ∈ ts, t.Sound := by
  unfold Reader.triviaList
  apply bind closed (fixed closed 4)
  intro count _
  exact repeated closed (triviaRecord closed inside) count

theorem tokenContents {h : RecordHeader} (addressable : h.overlay.Addressable) :
    Follows Holds limits depth (tokenContents limits inner h)
      fun e => e.Sound ∧ e.isTrivia = h.kind.isTrivia := by
  unfold Reader.tokenContents
  simp only [Token.ofParts_eq_make]
  split
  · exact fail_bind closed _ _ _
  · rename_i other
    have isToken : h.kind.isToken = true := by simpa using other
    apply bind closed (text closed)
    intro text short
    apply bind closed (triviaList closed inside)
    intro leading soundLeading
    apply bind closed (triviaList closed inside)
    intro trailing soundTrailing
    apply made closed
    · intro cell t made
      have sound := ((Token.make_eq_ok_iff addressable soundLeading soundTrailing).1 made).1
      exact ⟨.token sound, (Kind.isTrivia_of_isToken isToken).symm⟩
    · intro cell cause refused
      exact .inl ⟨_, Token.eq_tooWide_of_make isToken
        (Nat.le_trans short limits.maxStringLength_le) refused⟩

theorem nodeContents (scripts : Scripts Holds registry limits gives) {h : RecordHeader}
    (addressable : h.overlay.Addressable) (own : registry.find? h.kind = some .node) :
    Follows Holds limits depth (nodeContents inner h)
      fun e => e.Sound ∧ e.isTrivia = h.kind.isTrivia := by
  unfold Reader.nodeContents
  simp only [Node.ofParts_eq_make]
  split
  · exact fail_bind closed _ _ _
  · rename_i other
    have isNode : h.kind.isNode = true := by simpa using other
    apply bind closed (fixed closed 4)
    intro count _
    apply bind closed (repeated closed (inside .children "node or token") count)
    intro children given
    apply made closed
    · intro cell n made
      obtain ⟨sound, -, -, -, rfl, -⟩ := (Node.make_eq_ok_iff addressable).1 made
      exact ⟨.node sound fun c mem => (given c mem).1, (Kind.isTrivia_of_isNode isNode).symm⟩
    · intro cell cause refused
      by_cases shape : ∀ c ∈ children, c.isTrivia = false
      · exact .inl ⟨_, Node.eq_tooWide_of_make isNode shape refused⟩
      · obtain ⟨c, mem, isTrivia⟩ : ∃ c ∈ children, c.isTrivia = true := by
          simpa using shape
        obtain ⟨-, kind, allowed, from_⟩ := given c mem
        have below : kind.isTrivia = false := Kind.isTrivia_of_contains_children allowed
        have script := from_.resolve_left (by rw [isTrivia, below]; decide)
        obtain ⟨script, found, gave⟩ := script
        rw [Node.make_eq_triviaChild cell _ _ isNode mem isTrivia] at refused
        obtain rfl := Except.error.inj refused
        exact .inr (scripts.faults ⟨isNode, own, below, script, c, found, gave, isTrivia⟩)

theorem answer {request : Request} (harmless : request.Harmless) :
    Follows Holds limits depth (answer limits inner request) (request.CanAnswer limits) := by
  cases request with
  | byte => exact fixed closed 1
  | half => exact fixed closed 2
  | word => exact fixed closed 4
  | flag => exact flag closed
  | length => exact fixed closed 4
  | text => exact text closed
  | diagnostics =>
    exact (diagnostics closed).mono fun _ ⟨_, spelled⟩ =>
      Grammar.Attached.addressable spelled .absent
  | annotations =>
    exact (annotations closed).mono fun _ ⟨_, spelled⟩ =>
      Grammar.Attached.addressable .absent spelled
  | element allowed expected => exact (inside allowed expected).mono fun _ given => given.1
  | trivia => exact triviaRecord closed inside
  | intern kind text => exact shares closed harmless.1 harmless.2

end Records

theorem triviaContents {h : RecordHeader} (addressable : h.overlay.Addressable) :
    Follows Holds limits depth (triviaContents limits h)
      fun e => e.Sound ∧ e.isTrivia = h.kind.isTrivia := by
  unfold Reader.triviaContents
  dsimp only
  split
  · exact fail_bind closed _ _ _
  · rename_i other
    have isTrivia : h.kind.isTrivia = true := by simpa using other
    apply bind closed (text closed)
    intro text short
    have fits : text.utf8ByteSize ≤ maxSize := Nat.le_trans short limits.maxStringLength_le
    split
    · apply bind closed (shares closed isTrivia fits)
      rintro t ⟨sound, -⟩
      exact pure closed ⟨.trivia sound, isTrivia.symm⟩
    · apply made closed
      · intro cell t made
        have sound := ((Trivia.make_eq_ok_iff addressable).1 made).1
        exact ⟨.trivia sound, isTrivia.symm⟩
      · intro cell cause refused
        exact absurd refused (Trivia.make_ne_error isTrivia fits cause)

variable (scripts : Scripts Holds registry limits gives)

include scripts

theorem contents (inside : Inside Holds registry gives limits depth inner) {h : RecordHeader}
    (addressable : h.overlay.Addressable) {reader : RecordReader}
    (found : registry.find? h.kind = some reader) :
    Follows Holds limits depth (contents limits inner h reader)
      fun e => e.Sound ∧ registry.CanGive gives h.kind e := by
  cases reader with
  | trivia =>
    exact (triviaContents closed addressable).mono fun e given => ⟨given.1, .inl given.2⟩
  | token =>
    exact (tokenContents closed inside addressable).mono fun e given => ⟨given.1, .inl given.2⟩
  | node =>
    exact (nodeContents closed inside scripts addressable found).mono
      fun e given => ⟨given.1, .inl given.2⟩
  | script script =>
    exact (scripts.follow inside found addressable).mono
      fun e given => ⟨given.1, .inr ⟨script, found, given.2⟩⟩

theorem recordWith (room : depth < limits.maxDepth.toNat)
    (inside : Inside Holds registry gives limits (depth + 1) inner) :
    Inside Holds registry gives limits depth (recordWith registry limits inner) := by
  intro allowed expected
  have head : Follows Holds limits depth (Reader.header registry limits allowed expected) _ :=
    header closed registry allowed expected
  have below (opening : RecordHeader × RecordReader) (heads : registry.Heads allowed opening) :=
    contents closed scripts inside heads.addressable heads.found
  refine ⟨?_, closed.record room head below⟩
  unfold Reader.recordWith
  apply head.gives.bind
  intro opening heads
  apply (Gives.visit opening.1.kind).bind
  intro _ _
  refine .nested (limits.lt_maxSize room) ((below opening heads).mono ?_).gives
  exact fun e given => ⟨given.1, opening.1.kind, heads.allowed, given.2⟩

/-- The property holds of the readers of whole records wherever records may still nest. -/
theorem record {levels : Nat} (total : depth + levels = limits.maxDepth.toNat) :
    Inside Holds registry gives limits depth (record registry limits levels) := by
  refine record_induction ?_ ?_ total
  · exact fun _ _ => fail closed _ _
  · exact fun _ _ room inside => recordWith closed scripts room inside

theorem element (within : depth ≤ limits.maxDepth.toNat) :
    Inside Holds registry gives limits depth (element registry limits) := by
  intro allowed expected
  apply look closed fun _ _ => rfl
  intro r fit
  rw [fit.depth]
  exact record closed scripts (by omega) allowed expected

theorem serve (within : depth ≤ limits.maxDepth.toNat) (request : Request)
    (faults : ∀ kind text cell i cause j, Interner.ask cell kind text i = .error cause j →
      Holds Trivia depth (throw (.fault cause))) :
    Follows Holds limits depth (serve registry limits request) fun _ => True := by
  have whole := element closed scripts within
  cases request with
  | intern kind text => exact (intern closed (faults kind text)).mono fun _ _ => trivial
  | _ =>
    refine (answer closed whole ?_).mono fun _ _ => trivial
    trivial

theorem tree : Follows Holds limits 0 (tree registry limits) Element.Sound := by
  unfold Reader.tree
  apply bind closed (take closed 4)
  intro magic _
  dsimp only
  split
  · exact fail_bind closed _ _ _
  · apply bind closed (fixed closed 1)
    intro version _
    split
    · exact fail_bind closed _ _ _
    · exact (element closed scripts (Nat.zero_le _) .all "green").mono fun e given => given.1

end Follows

end Reader

end GreenTree
