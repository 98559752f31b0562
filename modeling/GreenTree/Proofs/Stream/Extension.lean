import GreenTree.Proofs.Stream.Reading

/-!
Reading more bytes. A reader that stops for any reason but the end of the bytes does not see what
stands behind the place where it stops: with more bytes there it ends as before, in the same place.
So no stream begins with another one, and a stream that is cut short is refused because it ends. A
block that is read within a larger limit ends as before too, unless it went past the smaller one.
-/

namespace GreenTree

variable {α β : Type}

def ReadError.endsEarly : ReadError → Bool
  | .transfer .unexpectedEnd => true
  | .overlay (.transfer .unexpectedEnd) => true
  | _ => false

theorem Bytes.split?_extend {count : Nat} {bytes first rest : List UInt8}
    (found : split? count bytes = some (first, rest)) (suffix : List UInt8) :
    split? count (bytes ++ suffix) = some (first, rest ++ suffix) := by
  obtain ⟨rfl, rfl⟩ := append_of_split? found
  rw [List.append_assoc, split?_append]

namespace OverlayBlock

/-- Whether a decoder that has more ends as before, unless it ended because it had too little. -/
structure Stable (more : State → State) (tooLittle : OverlayError)
    (decode : Decode α) : Prop where
  ok : ∀ {s a s'}, decode s = .ok a s' → decode (more s) = .ok a (more s')
  error : ∀ {s f s'}, decode s = .error f s' →
    f = .error tooLittle ∨ decode (more s) = .error f (more s')

namespace Stable

variable {more : State → State} {tooLittle : OverlayError}

theorem bind {first : Decode α} {next : α → Decode β} (head : Stable more tooLittle first)
    (tail : ∀ a, Stable more tooLittle (next a)) : Stable more tooLittle (first >>= next) where
  ok := by
    intro s b s' run
    obtain ⟨a, t, run, rest⟩ := EStateM.bind_eq_ok_iff.1 run
    exact EStateM.bind_eq_ok_iff.2 ⟨a, more t, head.ok run, (tail a).ok rest⟩
  error := by
    intro s f s' run
    rw [EStateM.bind_eq_error_iff]
    rcases EStateM.bind_eq_error_iff.1 run with run | ⟨a, t, run, rest⟩
    · cases head.error run with
      | inl short => exact .inl short
      | inr same => exact .inr (.inl same)
    · cases (tail a).error rest with
      | inl short => exact .inl short
      | inr same => exact .inr (.inr ⟨a, more t, head.ok run, same⟩)

theorem pure (a : α) : Stable more tooLittle (pure a) where
  ok := by
    intro s b s' run
    cases run
    rfl
  error := by
    intro s f s' run
    cases run

theorem throw (f : Failure OverlayError) : Stable more tooLittle (throw f : Decode α) where
  ok := by
    intro s a s' run
    cases run
  error := by
    intro s f' s' run
    cases run
    exact .inr rfl

private theorem decoded (bytes : List UInt8) : Stable more tooLittle
    (match Utf8.decode bytes with
      | .ok text => return text
      | .error cause => MonadExcept.throw (.error (.invalidText cause)) : Decode String) := by
  split
  · exact pure _
  · exact throw _

theorem text (spend : ∀ count, Stable more tooLittle (spend count))
    (take : ∀ count, Stable more tooLittle (take count)) (number : Stable more tooLittle number) :
    Stable more tooLittle text := by
  unfold OverlayBlock.text
  apply bind number
  intro length
  apply bind (spend length)
  intro _
  split
  · exact bind (throw _) fun _ => bind (take length) decoded
  · exact bind (take length) decoded

theorem closed (spend : ∀ count, Stable more tooLittle (spend count))
    (take : ∀ count, Stable more tooLittle (take count)) :
    Closed fun _ => Stable more tooLittle where
  pure := pure
  refuse := fun e => throw (.error e)
  bind := bind
  fixed := fun width => bind (spend width) fun _ => bind (take width) fun _ => pure _
  text := text spend take

end Stable

/-- The state with more bytes at the end of those not read yet. -/
def State.extend (suffix : List UInt8) (s : State) : State := { s with rest := s.rest ++ suffix }

theorem closed_extend (suffix : List UInt8) :
    Closed fun _ => Stable (State.extend suffix) (.transfer .unexpectedEnd) := by
  apply Stable.closed
  · intro count
    constructor
    · intro s a s' run
      unfold spend at run ⊢
      split at run
      · rename_i enough
        cases run
        exact if_pos enough
      · cases run
    · intro s f s' run
      unfold spend at run ⊢
      split at run
      · cases run
      · rename_i few
        cases run
        exact .inr (if_neg few)
  · intro count
    constructor
    · intro s bytes s' run
      unfold take at run ⊢
      split at run
      · rename_i found
        cases run
        rw [State.extend, Bytes.split?_extend found suffix]
        rfl
      · cases run
    · intro s f s' run
      unfold take at run
      split at run
      · cases run
      · cases run
        exact .inl rfl

def State.enrich (extra : Nat) (s : State) : State := { s with budget := s.budget + extra }

theorem closed_enrich (extra : Nat) :
    Closed fun _ => Stable (State.enrich extra) .sizeLimit := by
  apply Stable.closed
  · intro count
    constructor
    · intro s a s' run
      unfold spend at run ⊢
      split at run
      · rename_i enough
        cases run
        have richer : s.budget + extra - count = s.budget - count + extra := by omega
        rw [State.enrich, if_pos (by dsimp only; omega), richer]
        rfl
      · cases run
    · intro s f s' run
      unfold spend at run
      split at run
      · cases run
      · cases run
        exact .inl rfl
  · intro count
    constructor
    · intro s bytes s' run
      unfold take at run ⊢
      split at run
      · rename_i found
        cases run
        rw [State.enrich, found]
        rfl
      · cases run
    · intro s f s' run
      unfold take at run ⊢
      split at run
      · cases run
      · rename_i missing
        cases run
        rw [State.enrich, missing]
        exact .inr rfl

/-- Bytes that stand for something are refused for their number under any budget that does not pay
for all of them. -/
theorem Decodes.refuses {decode : Decode α} {spelling : α → List UInt8 → Prop}
    (decodes : Decodes decode spelling)
    (thrifty : ∀ extra, Stable (State.enrich extra) .sizeLimit decode) {a : α} {p : List UInt8}
    (spelled : spelling a p) {budget : Nat} (few : budget < p.length) (suffix : List UInt8) :
    ∃ t, decode ⟨p ++ suffix, budget⟩ = .error (.error .sizeLimit) t := by
  let start : State := ⟨p ++ suffix, budget⟩
  have enough : start.enrich (p.length - budget) = ⟨p ++ suffix, p.length⟩ := by
    simp only [State.enrich, start, Nat.add_sub_cancel' (Nat.le_of_lt few)]
  have paid : decode (start.enrich (p.length - budget)) = .ok a ⟨suffix, 0⟩ := by
    rw [enough]
    exact (decodes _ _ _).2 ⟨p, spelled, rfl⟩
  cases run : decode start with
  | ok b t =>
    have left := (thrifty (p.length - budget)).ok run
    rw [paid] at left
    have nothing : 0 = t.budget + (p.length - budget) := by
      injection left with _ same
      exact congrArg State.budget same
    omega
  | error f t =>
    cases (thrifty (p.length - budget)).error run with
    | inl short =>
      rw [short]
      exact ⟨t, rfl⟩
    | inr left =>
      rw [paid] at left
      cases left

end OverlayBlock

namespace Reader

variable {limits : Limits} {depth : Nat}

def extend (r : Reader) (suffix : List UInt8) : Reader := { r with rest := r.rest ++ suffix }

theorem Fit.extend {r : Reader} (fit : r.Fit limits depth) (suffix : List UInt8) :
    (r.extend suffix).Fit limits depth :=
  ⟨⟨fit.depth, fit.interned⟩, fit.short⟩

/-- Whether a reader ends as before if there are more bytes, unless it ended because there were too
few. -/
structure Stable (limits : Limits) (depth : Nat) (reader : Read α) : Prop where
  ok : ∀ {r a r'} suffix, r.Fit limits depth → reader r = .ok a r' →
    reader (r.extend suffix) = .ok a (r'.extend suffix)
  error : ∀ {r f r'} suffix, r.Fit limits depth → reader r = .error f r' →
    (∃ e : ReadError, f = .error e ∧ e.endsEarly = true) ∨
      reader (r.extend suffix) = .error f (r'.extend suffix)

namespace Stable

theorem bind {reader : Read α} {next : α → Read β} {post : α → Prop}
    (gives : Gives limits depth reader post) (head : Stable limits depth reader)
    (tail : ∀ a, post a → Stable limits depth (next a)) :
    Stable limits depth (reader >>= next) where
  ok := by
    intro r b r' suffix fit run
    obtain ⟨a, t, run, rest⟩ := EStateM.bind_eq_ok_iff.1 run
    obtain ⟨fit', given⟩ := gives.ok fit run
    exact EStateM.bind_eq_ok_iff.2
      ⟨a, t.extend suffix, head.ok suffix fit run, (tail a given).ok suffix fit' rest⟩
  error := by
    intro r f r' suffix fit run
    rw [EStateM.bind_eq_error_iff]
    rcases EStateM.bind_eq_error_iff.1 run with run | ⟨a, t, run, rest⟩
    · cases head.error suffix fit run with
      | inl early => exact .inl early
      | inr same => exact .inr (.inl same)
    · obtain ⟨fit', given⟩ := gives.ok fit run
      cases (tail a given).error suffix fit' rest with
      | inl early => exact .inl early
      | inr same => exact .inr (.inr ⟨a, t.extend suffix, head.ok suffix fit run, same⟩)

theorem take (count : Nat) : Stable limits depth (take count) where
  ok := by
    intro r bytes r' suffix fit run
    unfold Reader.take at run ⊢
    split at run
    · rename_i found
      cases run
      rw [Reader.extend, Bytes.split?_extend found suffix]
      rfl
    · cases run
  error := by
    intro r f r' suffix fit run
    unfold Reader.take at run
    split at run
    · cases run
    · cases run
      exact .inl ⟨_, rfl, rfl⟩

theorem block {decode : OverlayBlock.Decode α} (stable : ∀ suffix,
      OverlayBlock.Stable (OverlayBlock.State.extend suffix) (.transfer .unexpectedEnd) decode) :
    Stable limits depth (block limits decode) where
  ok := by
    intro r a r' suffix fit run
    unfold Reader.block at run
    split at run
    · rename_i t decoded
      cases run
      have same : decode ⟨r.rest ++ suffix, limits.maxOverlayBytes.toNat⟩ =
          .ok a (t.extend suffix) := (stable suffix).ok decoded
      simp only [Reader.block, Reader.extend, same]
      rfl
    · cases run
    · cases run
  error := by
    intro r f r' suffix fit run
    unfold Reader.block at run
    split at run
    · cases run
    · rename_i cause t decoded
      cases run
      cases (stable suffix).error decoded with
      | inl early =>
        cases early
        exact .inl ⟨_, rfl, rfl⟩
      | inr same =>
        have same : decode ⟨r.rest ++ suffix, limits.maxOverlayBytes.toNat⟩ =
          .error (.error cause) (t.extend suffix) := same
        simp only [Reader.block, Reader.extend, same]
        exact .inr rfl
    · rename_i cause t decoded
      cases run
      cases (stable suffix).error decoded with
      | inl early => cases early
      | inr same =>
        have same : decode ⟨r.rest ++ suffix, limits.maxOverlayBytes.toNat⟩ =
          .error (.fault cause) (t.extend suffix) := same
        simp only [Reader.block, Reader.extend, same]
        exact .inr rfl

theorem nested {inside : Read α} {post : α → Prop} (small : depth < maxSize)
    (gives : Gives limits (depth + 1) inside post) (stable : Stable limits (depth + 1) inside) :
    Stable limits depth (nested inside) where
  ok := by
    intro r a r'' suffix fit run
    rw [nested_eq (gives.stays small (fit.extend suffix))]
    rw [nested_eq (gives.stays small fit), outside_eq_ok_iff] at run
    obtain ⟨r', read, rfl⟩ := run
    have more : inside { r.extend suffix with depth := r.depth + 1 } = .ok a (r'.extend suffix) :=
      stable.ok suffix fit.deeper read
    exact congrArg outside more
  error := by
    intro r f r'' suffix fit run
    rw [nested_eq (gives.stays small (fit.extend suffix))]
    rw [nested_eq (gives.stays small fit)] at run
    cases f with
    | error e =>
      obtain ⟨r', read, rfl⟩ := outside_eq_error_iff.1 run
      exact (stable.error suffix fit.deeper read).imp_right (congrArg outside)
    | fault cause =>
      have read := outside_eq_fault_iff.1 run
      exact (stable.error suffix fit.deeper read).imp_right (congrArg outside)

theorem change {f : Reader → Reader} (blind : ∀ r rest, f { r with rest } = { f r with rest }) :
    Stable limits depth (modify f) where
  ok := by
    intro r a r' suffix fit run
    cases run
    have kept : (f r).rest = r.rest := by
      rw [blind r r.rest]
    have same : f (r.extend suffix) = (f r).extend suffix := by
      rw [Reader.extend, blind, Reader.extend, kept]
    exact congrArg (EStateM.Result.ok ()) same
  error := by
    intro r e r' suffix fit run
    cases run

theorem closed : Closed limits fun _ => Stable limits where
  pure := by
    intro α depth a
    constructor
    · intro r b r' suffix fit run
      cases run
      rfl
    · intro r f r' suffix fit run
      cases run
  fail := by
    intro α depth e
    constructor
    · intro r a r' suffix fit run
      cases run
    · intro r f r' suffix fit run
      cases run
      exact .inr rfl
  bind := bind
  look := by
    intro α depth next blind each
    have same (r : Reader) (suffix : List UInt8) :
        (get >>= next) (r.extend suffix) = next r (r.extend suffix) :=
      congrFun (blind r (r.rest ++ suffix)) (r.extend suffix)
    constructor
    · intro r a r' suffix fit run
      rw [same]
      exact (each r fit).ok suffix fit run
    · intro r f r' suffix fit run
      rw [same]
      exact (each r fit).error suffix fit run
  change := fun blind _ _ => change blind
  take := fun _ count => take count
  diagnostics := fun _ => block fun suffix => (OverlayBlock.closed_extend suffix).diagnostics
  annotations := fun _ => block fun suffix => (OverlayBlock.closed_extend suffix).annotations
  record := record_of_nested bind (fun _ _ => change fun _ _ => rfl) nested

theorem tree (limits : Limits) : Stable limits 0 (tree .standard limits) :=
  (Follows.tree closed (.of_only Registry.standard_onlyStandard)).holds

end Stable

theorem ofBytes_eq_ok_iff {cell : Nat} {bytes : List UInt8} {t : Element} :
    Element.ofBytes cell bytes = .ok t ↔ ∃ session,
      tree .standard .standard { rest := bytes, nextCell := cell } = .ok t session ∧
        session.rest = [] := by
  unfold Element.ofBytes
  cases tree .standard .standard { rest := bytes, nextCell := cell } with
  | ok root session => by_cases whole : session.rest = [] <;> simp [whole]
  | error failure session => simp

theorem ofBytes_prefix {cell : Nat} {bytes suffix : List UInt8} (more : suffix ≠ []) {t : Element}
    (whole : Element.ofBytes cell (bytes ++ suffix) = .ok t) :
    ∃ e : ReadError, Element.ofBytes cell bytes = .error (.error e) ∧ e.endsEarly = true := by
  obtain ⟨session, read, used⟩ := ofBytes_eq_ok_iff.1 whole
  have stable := Stable.tree .standard
  cases first : tree .standard .standard { rest := bytes, nextCell := cell } with
  | ok t' session' =>
    have longer := stable.ok suffix (.start .standard bytes cell) first
    cases read.symm.trans longer
    exact absurd (List.append_eq_nil_iff.1 used).2 more
  | error f session' =>
    cases stable.error suffix (.start .standard bytes cell) first with
    | inl early =>
      obtain ⟨e, rfl, early⟩ := early
      exact ⟨e, by rw [Element.ofBytes, first], early⟩
    | inr longer => cases read.symm.trans longer

theorem ofBytes_append {cell : Nat} {bytes suffix : List UInt8} (more : suffix ≠ []) {t : Element}
    (whole : Element.ofBytes cell bytes = .ok t) :
    Element.ofBytes cell (bytes ++ suffix) = .error (.error (.trailingBytes suffix.length)) := by
  obtain ⟨session, read, used⟩ := ofBytes_eq_ok_iff.1 whole
  have longer := (Stable.tree .standard).ok suffix (.start .standard bytes cell) read
  have left : (session.extend suffix).rest = suffix := by
    rw [extend, used, List.nil_append]
  have longer : tree .standard .standard { rest := bytes ++ suffix, nextCell := cell } =
      .ok t (session.extend suffix) := longer
  have unread : suffix.isEmpty = false := by simpa using more
  unfold Element.ofBytes
  rw [longer]
  simp only [left, unread, Bool.false_eq_true, if_false]

/-- Bytes that are put behind others change nothing in how those are read, unless they end too
early: the same tree is read or the same failure met, and the same bytes are left with the new ones
behind them. So what is cut off from a whole stream is missed, and what is put behind one is left
over. -/
theorem read_extended (limits : Limits) (bytes suffix : List UInt8) (cell : Nat) :
    ((∃ t session,
        tree .standard limits { rest := bytes, nextCell := cell } = .ok t session ∧
        tree .standard limits { rest := bytes ++ suffix, nextCell := cell } =
          .ok t (session.extend suffix)) ∨
      (∃ f session,
        tree .standard limits { rest := bytes, nextCell := cell } = .error f session ∧
        tree .standard limits { rest := bytes ++ suffix, nextCell := cell } =
          .error f (session.extend suffix)) ∨
      ∃ e session, e.endsEarly = true ∧
        tree .standard limits { rest := bytes, nextCell := cell } = .error (.error e) session) ∧
    (suffix ≠ [] →
      (∀ t, Element.ofBytes cell (bytes ++ suffix) = .ok t →
        ∃ e : ReadError, Element.ofBytes cell bytes = .error (.error e) ∧
          e.endsEarly = true) ∧
      ∀ t, Element.ofBytes cell bytes = .ok t →
        Element.ofBytes cell (bytes ++ suffix) =
          .error (.error (.trailingBytes suffix.length))) := by
  constructor
  · have stable := Stable.tree limits
    have start := Fit.start limits bytes cell
    cases read : tree .standard limits { rest := bytes, nextCell := cell } with
    | ok t session => exact .inl ⟨t, session, rfl, stable.ok suffix start read⟩
    | error f session =>
      cases stable.error suffix start read with
      | inl early =>
        obtain ⟨e, rfl, early⟩ := early
        exact .inr (.inr ⟨e, session, early, rfl⟩)
      | inr same => exact .inr (.inl ⟨f, session, rfl, same⟩)
  · intro more
    exact ⟨fun t whole => ofBytes_prefix more whole, fun t whole => ofBytes_append more whole⟩

/-- The stream of a root with nothing in it. -/
def emptyModule : List UInt8 :=
  streamMagic ++ [1, 30, 0, 0, 0, 0, 0, 0, 0, 0, 0]

theorem read_extended_emptyModule : emptyModule.drop 14 ≠ [] ∧ [(0 : UInt8)] ≠ [] ∧
    (∃ e : ReadError, Element.ofBytes 0 (emptyModule.take 14) = .error (.error e) ∧
      e.endsEarly = true) ∧
    Element.ofBytes 0 (emptyModule ++ [0]) = .error (.error (.trailingBytes 1)) := by
  have accepted : (Element.ofBytes 0 emptyModule).isOk = true := by decide +kernel
  cases whole : Element.ofBytes 0 emptyModule with
  | error failure =>
    rw [whole] at accepted
    cases accepted
  | ok t =>
    have cut := ((read_extended .standard (emptyModule.take 14) (emptyModule.drop 14) 0).2
      (by decide)).1 t whole
    have longer := ((read_extended .standard emptyModule [0] 0).2 (by decide)).2 t whole
    exact ⟨by decide, by decide, cut, longer⟩

end Reader

end GreenTree
