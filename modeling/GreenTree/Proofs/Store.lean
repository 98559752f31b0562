import GreenTree.Proofs.Stream.Cells

/-!
Runs of programs. A program makes elements, changes them, shares trivia and reads, one operation
after the other, each in the cells that are free by then. Whatever it holds at any time is sound,
and a cell names one object.
-/

namespace GreenTree

/-- What a program has: the elements that it got, its interners, and its reading sessions with their
limits. The cells from `next` on are free. -/
structure Store where
  next : Nat := 0
  elements : List Element := []
  interners : List Interner := []
  sessions : List (Limits × Reader) := []

theorem Reader.serve_sound {limits : Limits} {request : Request} {r r' : Reader} (ready : r.Ready 0)
    {a : request.Answer} (run : serve .standard limits request r = .ok a r') :
    ∀ e ∈ request.elements a, e.Sound := by
  have whole : ReadsWithin 0 limits (limits.maxDepth.toNat - 0) (element .standard limits) :=
    element_parses (Nat.zero_le _)
  cases request with
  | element allowed expected =>
    obtain ⟨-, _, _, means, -⟩ := (whole allowed expected).sound ready run
    intro e given
    exact List.mem_singleton.1 given ▸ means.1
  | trivia =>
    obtain ⟨-, _, _, means, -⟩ := (triviaRecord_parses whole).sound ready run
    intro e given
    exact List.mem_singleton.1 given ▸ .trivia means.1
  | intern kind text =>
    obtain ⟨-, _, _, means, -⟩ := (intern_parses kind text).sound ready run
    intro e given
    exact List.mem_singleton.1 given ▸ .trivia means.1
  | _ => exact nofun

namespace Store

def Holds (s : Store) (e : Element) : Prop := ∃ d ∈ s.elements, e.Part d

theorem Holds.part {s : Store} {d e : Element} (holds : s.Holds e) (part : d.Part e) :
    s.Holds d := by
  obtain ⟨f, got, inside⟩ := holds
  exact ⟨f, got, part.trans inside⟩

def add (s : Store) (e : Element) : Store :=
  { s with next := s.next + 1, elements := e :: s.elements }

/-- The stores of runs. Texts in overlays fit in memory; sessions use the readers that come with the
library. -/
inductive Reached : Store → Prop
  | start : Reached {}
  | trivia {s : Store} {kind : Kind} {text : String} {overlay : Overlay} {t : Trivia} :
      Reached s →
      overlay.Addressable → Trivia.make s.next kind text overlay = .ok t →
      Reached (s.add (.trivia t))
  | token {s : Store} {kind : Kind} {text : String} {leading trailing : List Trivia} {t : Token} :
      Reached s → (∀ u ∈ leading ++ trailing, s.Holds (.trivia u)) →
      Token.make s.next kind false text leading trailing .empty = .ok t →
      Reached (s.add (.token t))
  | missing {s : Store} {kind : Kind} {t : Token} : Reached s →
      Token.missing s.next kind = .ok t → Reached (s.add (.token t))
  | node {s : Store} {kind : Kind} {children : List Element} {n : Node Element} : Reached s →
      (∀ c ∈ children, s.Holds c) → Node.plain s.next kind children = .ok n →
      Reached (s.add (.node n))
  | withDiagnostics {s : Store} {e e' : Element} {diagnostics : List Diagnostic} : Reached s →
      s.Holds e → Overlay.Addressable { diagnostics } →
      e.withDiagnostics s.next diagnostics = .ok e' → Reached (s.add e')
  | withAnnotations {s : Store} {e e' : Element} {annotations : List Annotation} : Reached s →
      s.Holds e → Overlay.Addressable { annotations } →
      e.withAnnotations s.next annotations = .ok e' → Reached (s.add e')
  | replaceChild {s : Store} {n n' : Node Element} {index : Nat} {child : Element} : Reached s →
      s.Holds (.node n) → s.Holds child → n.replaceChild s.next index child = .ok n' →
      Reached (s.add (.node n'))
  | interner {s : Store} : Reached s → Reached { s with interners := {} :: s.interners }
  | intern {s : Store} {before behind : List Interner} {i i' : Interner} {kind : Kind}
      {text : String} {t : Trivia} : Reached s → s.interners = before ++ i :: behind →
      i.intern s.next kind text = .ok (t, i') →
      Reached { s.add (.trivia t) with interners := before ++ i' :: behind }
  | decoded {s : Store} {limits : Limits} {bytes : List UInt8} {e : Element} {r : Reader} :
      Reached s →
      Reader.tree .standard limits { rest := bytes, nextCell := s.next } = .ok e r →
      Reached { s with next := r.nextCell, elements := e :: s.elements }
  | session {s : Store} {limits : Limits} {bytes : List UInt8} : Reached s →
      Reached { s with sessions := (limits, { rest := bytes }) :: s.sessions }
  | answered {s : Store} {before behind : List (Limits × Reader)} {limits : Limits} {r r' : Reader}
      {request : Request} {a : request.Answer} : Reached s →
      s.sessions = before ++ (limits, r) :: behind →
      Reader.serve .standard limits request { r with nextCell := s.next } = .ok a r' →
      Reached { s with
        next := r'.nextCell
        elements := request.elements a ++ s.elements
        sessions := before ++ (limits, r') :: behind }
  | refused {s : Store} {before behind : List (Limits × Reader)} {limits : Limits} {r r' : Reader}
      {request : Request} {e : ReadError} : Reached s →
      s.sessions = before ++ (limits, r) :: behind →
      Reader.serve .standard limits request { r with nextCell := s.next } = .error (.error e) r' →
      Reached { s with next := r'.nextCell, sessions := before ++ (limits, r') :: behind }

/-- Whether everything that a store keeps is among some objects in use. -/
structure Accounts (known : Element → Prop) (s : Store) : Prop where
  inventory : Inventory known s.next
  elements : ∀ e ∈ s.elements, known e
  interners : ∀ i ∈ s.interners, ∀ t ∈ i.entries, known (.trivia t)
  sessions : ∀ p ∈ s.sessions, ∀ t ∈ p.2.interner.entries, known (.trivia t)

/-- What holds of a store at any time. -/
structure Tidy (s : Store) : Prop where
  objects : ∃ known, s.Accounts known
  sound : ∀ e ∈ s.elements, e.Sound
  interned : ∀ i ∈ s.interners, i.Sound
  ready : ∀ p ∈ s.sessions, p.2.Ready 0

theorem Accounts.holds {known : Element → Prop} {s : Store} (accounts : s.Accounts known)
    {e : Element} (holds : s.Holds e) : known e := by
  obtain ⟨d, got, part⟩ := holds
  exact accounts.inventory.closed (accounts.elements d got) part

theorem Tidy.sound_of_holds {s : Store} (tidy : s.Tidy) {e : Element} (holds : s.Holds e) :
    e.Sound := by
  obtain ⟨d, got, part⟩ := holds
  exact (tidy.sound d got).part part

theorem Accounts.extend {known known' : Element → Prop} {s : Store} {next : Nat}
    {es : List Element} (accounts : s.Accounts known) (inventory : Inventory known' next)
    (more : ∀ e, known e → known' e) (given : ∀ e ∈ es, known' e) :
    Accounts known' { s with next, elements := es ++ s.elements } where
  inventory := inventory
  elements := List.forall_mem_append.2 ⟨given, fun e got => more e (accounts.elements e got)⟩
  interners i mem t listed := more _ (accounts.interners i mem t listed)
  sessions p mem t listed := more _ (accounts.sessions p mem t listed)

theorem Accounts.add {known : Element → Prop} {s : Store}
    (accounts : s.Accounts known) {e : Element} (new : e.NewIn known s.next) :
    Accounts (fun d => d = e ∨ known d) (s.add e) := by
  have given : ∀ d ∈ [e], d = e ∨ known d := fun d made => .inl (List.mem_singleton.1 made)
  exact accounts.extend (accounts.inventory.insert new) (fun _ old => .inr old) given

theorem Tidy.add {s : Store} (tidy : s.Tidy) {e : Element} (sound : e.Sound)
    (new : ∀ known, s.Accounts known → e.NewIn known s.next) : (s.add e).Tidy where
  objects := by
    obtain ⟨known, accounts⟩ := tidy.objects
    exact ⟨_, accounts.add (new known accounts)⟩
  sound := List.forall_mem_cons.2 ⟨sound, tidy.sound⟩
  interned := tidy.interned
  ready := tidy.ready

private theorem forall_mem_exchange {α : Type} {P : α → Prop}
    {all before behind : List α} {a b : α} (split : all = before ++ a :: behind)
    (holds : ∀ x ∈ all, P x) (new : P b) :
    ∀ x ∈ before ++ b :: behind, P x := by
  subst split
  intro x mem
  rcases List.mem_append.1 mem with old | mem
  · exact holds x (List.mem_append_left _ old)
  · rcases List.mem_cons.1 mem with same | old
    · exact same ▸ new
    · exact holds x (List.mem_append_right _ (List.mem_cons_of_mem a old))

theorem Tidy.intern {s : Store} (tidy : s.Tidy) {before behind : List Interner} {i i' : Interner}
    (split : s.interners = before ++ i :: behind) {kind : Kind} {text : String} {t : Trivia}
    (run : i.intern s.next kind text = .ok (t, i')) :
    Tidy { s.add (.trivia t) with interners := before ++ i' :: behind } := by
  have mem : i ∈ s.interners := split ▸ List.mem_append_right _ List.mem_cons_self
  obtain ⟨own, sound⟩ := (tidy.interned i mem).intern run
  refine ⟨?_, List.forall_mem_cons.2 ⟨.trivia own.1, tidy.sound⟩,
    forall_mem_exchange split tidy.interned sound, tidy.ready⟩
  obtain ⟨known, accounts⟩ := tidy.objects
  obtain ⟨known', more, answer, inventory, shared⟩ :=
    accounts.inventory.ask (accounts.interners i mem) (Interner.intern_eq_ok_iff.1 run)
  have given : ∀ e ∈ [Element.trivia t], known' e := by simpa using answer
  have extended := accounts.extend inventory more given
  exact ⟨known',
    { extended with interners := forall_mem_exchange split extended.interners shared }⟩

theorem Tidy.ready_at {s : Store} (tidy : s.Tidy) {before behind : List (Limits × Reader)}
    {limits : Limits} {r : Reader} (split : s.sessions = before ++ (limits, r) :: behind) :
    Reader.Ready 0 { r with nextCell := s.next } := by
  have ready := tidy.ready (limits, r) (split ▸ List.mem_append_right _ List.mem_cons_self)
  exact ⟨ready.depth, ready.interned⟩

/-- What a session answers joins what a store keeps; the session goes on. -/
theorem Tidy.served {s : Store} (tidy : s.Tidy) {before behind : List (Limits × Reader)}
    {limits : Limits} {r r' : Reader} (split : s.sessions = before ++ (limits, r) :: behind)
    {es : List Element} (ready : r'.Ready 0) (sound : ∀ e ∈ es, e.Sound)
    (adds : ∀ known, Reader.Keeps known { r with nextCell := s.next } →
    r'.Adds known (· ∈ es)) :
    Tidy { s with
      next := r'.nextCell
      elements := es ++ s.elements
      sessions := before ++ (limits, r') :: behind } := by
  have mem : (limits, r) ∈ s.sessions := split ▸ List.mem_append_right _ List.mem_cons_self
  refine ⟨?_, List.forall_mem_append.2 ⟨sound, tidy.sound⟩, tidy.interned,
    forall_mem_exchange split tidy.ready ready⟩
  obtain ⟨known, accounts⟩ := tidy.objects
  obtain ⟨known', more, given, keeps⟩ :=
    adds known ⟨accounts.inventory, accounts.sessions _ mem⟩
  have extended := accounts.extend keeps.inventory more given
  exact ⟨known',
    { extended with sessions := forall_mem_exchange split extended.sessions keeps.shared }⟩

theorem Reached.tidy {s : Store} (reached : s.Reached) : s.Tidy := by
  induction reached with
  | start => exact ⟨⟨_, .none 0, nofun, nofun, nofun⟩, nofun, nofun, nofun⟩
  | trivia _ small made tidy =>
    have sound := ((Trivia.make_eq_ok_iff small).1 made).1
    exact tidy.add (.trivia sound) fun known accounts => Trivia.new_of_make made
  | @token s kind text leading trailing t _ held made tidy =>
    have sound : ∀ u ∈ leading ++ trailing, u.Sound := fun u mem =>
      Element.sound_trivia_iff.1 (tidy.sound_of_holds (held u mem))
    obtain ⟨soundLeading, soundTrailing⟩ := List.forall_mem_append.1 sound
    have own :=
      ((Token.make_eq_ok_iff Overlay.addressable_empty soundLeading soundTrailing).1 made).1
    refine tidy.add (.token own) fun known accounts => ?_
    exact Token.new_of_make (fun u mem => accounts.holds (held u mem)) made
  | missing _ made tidy =>
    have sound := ((Token.make_eq_ok_iff Overlay.addressable_empty (by simp) (by simp)).1 made).1
    exact tidy.add (.token sound) fun known accounts => Token.new_of_make (by simp) made
  | @node s kind children n _ held made tidy =>
    obtain ⟨own, -, -, -, rfl, -⟩ := (Node.make_eq_ok_iff Overlay.addressable_empty).1 made
    refine tidy.add (.node own fun c mem => tidy.sound_of_holds (held c mem))
      fun known accounts => ?_
    exact Node.new_of_make accounts.inventory (fun c mem => accounts.holds (held c mem)) made
  | withDiagnostics _ held small made tidy =>
    refine tidy.add ((tidy.sound_of_holds held).withDiagnostics small made) fun known accounts => ?_
    exact Element.new_of_withOverlay accounts.inventory (accounts.holds held) made
  | withAnnotations _ held small made tidy =>
    refine tidy.add ((tidy.sound_of_holds held).withAnnotations small made) fun known accounts => ?_
    exact Element.new_of_withOverlay accounts.inventory (accounts.holds held) made
  | replaceChild _ held heldChild made tidy =>
    refine tidy.add ((tidy.sound_of_holds held).replaceChild (tidy.sound_of_holds heldChild) made)
      fun known accounts => ?_
    exact Node.new_of_replaceChild accounts.inventory (accounts.holds held)
      (accounts.holds heldChild) made
  | interner _ tidy =>
    obtain ⟨known, accounts⟩ := tidy.objects
    have interners := List.forall_mem_cons.2 ⟨Interner.entries_empty known, accounts.interners⟩
    exact ⟨⟨known, { accounts with interners }⟩, tidy.sound,
      List.forall_mem_cons.2 ⟨Interner.sound_empty, tidy.interned⟩, tidy.ready⟩
  | intern _ split run tidy => exact tidy.intern split run
  | @decoded s limits bytes e r _ run tidy =>
    obtain ⟨_, _, _, _, sound, _⟩ := Reader.exists_stream_of_tree run
    refine ⟨?_, List.forall_mem_cons.2 ⟨sound, tidy.sound⟩, tidy.interned, tidy.ready⟩
    obtain ⟨known, accounts⟩ := tidy.objects
    have start : Reader.Keeps known { rest := bytes, nextCell := s.next } :=
      ⟨accounts.inventory, Interner.entries_empty known⟩
    obtain ⟨known', more, given, keeps⟩ := start.tree run
    have read : ∀ d ∈ [e], known' d := by simpa using given e rfl
    exact ⟨known', accounts.extend keeps.inventory more read⟩
  | @session s limits bytes _ tidy =>
    obtain ⟨known, accounts⟩ := tidy.objects
    have sessions : ∀ p ∈ (limits, { rest := bytes }) :: s.sessions,
      ∀ t ∈ p.2.interner.entries,
        known (.trivia t) :=
        List.forall_mem_cons.2 ⟨Interner.entries_empty known, accounts.sessions⟩
    exact ⟨⟨known, { accounts with sessions }⟩, tidy.sound, tidy.interned,
      List.forall_mem_cons.2 ⟨Reader.ready_start bytes 0, tidy.ready⟩⟩
  | @answered s before behind limits r r' request a _ split run tidy =>
    have ready := tidy.ready_at split
    exact tidy.served split ((Reader.serve_ready request ready).1 a r' run)
      (Reader.serve_sound ready run) fun _ keeps => (keeps.serve limits request).1 a r' run
  | @refused s before behind limits r r' request e _ split run tidy =>
    have ready := tidy.ready_at split
    have nothing : ∀ e ∈ ([] : List Element), e.Sound := nofun
    exact tidy.served split ((Reader.serve_ready request ready).2 e r' run) nothing
      fun _ keeps => (keeps.serve limits request).2 (.error e) r' run

/-- At any time of a run, a cell names one object. -/
theorem Reached.single {s : Store} (reached : s.Reached) {a b : Element} (heldA : s.Holds a)
    (heldB : s.Holds b) (same : a.cell = b.cell) : a = b := by
  obtain ⟨known, accounts⟩ := reached.tidy.objects
  exact accounts.inventory.single (accounts.holds heldA) (accounts.holds heldB) same

end Store

end GreenTree
