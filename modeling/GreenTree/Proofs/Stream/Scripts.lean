import GreenTree.Proofs.Stream.Faultless

/-!
Readers from outside. A script learns of errors and may go on after them, but a fault ends it. If
the scripts of a registry keep their contracts, whatever elements they give, every sequence of bytes
is read as a sound tree or refused, unless a node is made with trivia that a script has given for a
child.
-/

namespace GreenTree.Reader

variable {α β : Type} {limits : Limits} {depth : Nat} {inner : Inner}

theorem follow_ask_eq (request : Request) (next : Except ReadError request.Answer → Script α)
    (r : Reader) : follow limits inner (.ask request next) r =
      match answer limits inner request r with
      | .ok a r' => follow limits inner (next (.ok a)) r'
      | .error (.error e) r' => follow limits inner (next (.error e)) r'
      | .error (.fault cause) r' => .error (.fault cause) r' := by
  rcases reached : answer limits inner request r with ⟨a, r'⟩ | ⟨e | cause, r'⟩ <;>
    simp only [follow, reached]

theorem follow_bind (script : Script α) (next : α → Script β) :
    follow limits inner (script.bind next) = (do
      let a ← follow limits inner script
      follow limits inner (next a)) := by
  induction script with
  | done a => rfl
  | fail failure => rfl
  | ask request rest ih =>
    funext r
    change _ = EStateM.bind _ _ r
    rw [Script.bind, follow_ask_eq, EStateM.bind, follow_ask_eq]
    cases answer limits inner request r with
    | ok a r' => exact congrFun (ih (.ok a)) r'
    | error failure r' =>
      cases failure with
      | error e => exact congrFun (ih (.error e)) r'
      | fault cause => rfl
  | cell rest ih =>
    funext r
    exact congrFun (ih r.nextCell) { r with nextCell := r.nextCell + 1 }

theorem follow_request (request : Request) :
    follow limits inner (Script.request request) = answer limits inner request := by
  funext r
  rw [Script.request, follow_ask_eq]
  cases answer limits inner request r with
  | ok a r' => rfl
  | error failure r' => cases failure <;> rfl

namespace Gives

theorem ask {request : Request} {next : Except ReadError request.Answer → Script α}
    {known : request.Answer → Prop} {post : α → Prop}
    (asked : Gives limits depth (answer limits inner request) known)
    (answered : ∀ a, known a → Gives limits depth (follow limits inner (next (.ok a))) post)
    (refused : ∀ e, Gives limits depth (follow limits inner (next (.error e))) post) :
    Gives limits depth (follow limits inner (.ask request next)) post where
  ok {r a r'} fit run := by
    rw [follow_ask_eq] at run
    cases reached : answer limits inner request r with
    | ok b s =>
      rw [reached] at run
      obtain ⟨fit', given⟩ := asked.ok fit reached
      exact (answered b given).ok fit' run
    | error failure s =>
      rw [reached] at run
      cases failure with
      | error e => exact (refused e).ok (asked.error fit reached) run
      | fault cause => cases run
  error {r e r'} fit run := by
    rw [follow_ask_eq] at run
    cases reached : answer limits inner request r with
    | ok b s =>
      rw [reached] at run
      obtain ⟨fit', given⟩ := asked.ok fit reached
      exact (answered b given).error fit' run
    | error failure s =>
      rw [reached] at run
      cases failure with
      | error e => exact (refused e).error (asked.error fit reached) run
      | fault cause => cases run

theorem chain {item : Read α} {post : α → Prop} (each : Gives limits depth item post)
    {r r' : Reader} {as : List α} (fit : r.Fit limits depth)
    (run : Chain (fun r a r' => item r = .ok a r') r as r') : r'.Fit limits depth :=
  run.keeps (Fit limits depth) (fun fit read => (each.ok fit read).1) fit

end Gives

namespace Confined

variable {blame : Fault → Prop}

theorem ask {request : Request} {next : Except ReadError request.Answer → Script α}
    {known : request.Answer → Prop}
    (asked : Follows (fun _ => Confined blame limits) limits depth (answer limits inner request)
      known)
    (answered : ∀ a, known a → Confined blame limits depth (follow limits inner (next (.ok a))))
    (refused : ∀ e, Confined blame limits depth (follow limits inner (next (.error e)))) :
    Confined blame limits depth (follow limits inner (.ask request next)) := by
  intro r cause r' fit run
  rw [follow_ask_eq] at run
  cases reached : answer limits inner request r with
  | ok b s =>
    rw [reached] at run
    obtain ⟨fit', given⟩ := asked.gives.ok fit reached
    exact answered b given s cause r' fit' run
  | error failure s =>
    rw [reached] at run
    cases failure with
    | error e => exact refused e s cause r' (asked.gives.error fit reached) run
    | fault own =>
      cases run
      exact asked.holds r cause r' fit reached

variable {registry : Registry} {gives : Kind → Element → Prop}
  (small : limits.maxOverlayBytes.toNat < OverlayBlock.addressLimit)

include small

theorem follow {post : α → Prop} {script : Script α} (keeps : script.Keeps limits post)
    (inside : Follows.Inside (fun _ => Confined blame limits) registry gives limits depth inner) :
    Follows (fun _ => Confined blame limits) limits depth (follow limits inner script) post := by
  have closed := closed blame small
  induction keeps with
  | done given => exact .pure closed given
  | fail e => exact .fail closed e post
  | ask harmless _ _ answered refused =>
    have asked := Follows.answer closed inside harmless
    refine ⟨.ask asked.gives (fun a given => (answered a given).gives) fun e =>
      (refused e).gives, ?_⟩
    exact .ask asked (fun a given => (answered a given).holds) fun e => (refused e).holds
  | cell _ ih => exact .bind closed (.freshCell closed) fun cell _ => ih cell

theorem scripts (keeps : registry.Keeps limits gives) :
    Follows.Scripts (fun _ => Confined (registry.Blames gives) limits) registry limits gives where
  follow inside found addressable := follow small (keeps _ _ found _ rfl addressable) inside
  faults clash := throw ⟨_, _, rfl, clash⟩

theorem record (keeps : registry.Keeps limits gives) {levels : Nat}
    (total : depth + levels = limits.maxDepth.toNat) :
    Follows.Inside (fun _ => Confined (registry.Blames gives) limits) registry gives limits depth
      (record registry limits levels) :=
  .record (closed _ small) (scripts small keeps) total

end Confined

/-- Under scripts that keep their contracts, every sequence of bytes is read as a sound tree or
refused with an error, or makes a node fault of which a script gave a child as trivia. -/
theorem read_refused_or_blamed {registry : Registry} {gives : Kind → Element → Prop}
    (small : limits.maxOverlayBytes.toNat < OverlayBlock.addressLimit)
    (keeps : registry.Keeps limits gives) (bytes : List UInt8) (cell : Nat) :
    (∃ t session, tree registry limits { rest := bytes, nextCell := cell } = .ok t session ∧
      t.Sound) ∨
      (∃ e session,
        tree registry limits { rest := bytes, nextCell := cell } = .error (.error e) session) ∨
      ∃ parent child session, tree registry limits { rest := bytes, nextCell := cell } =
        .error (.fault (.triviaChild parent)) session ∧ registry.Clash gives parent child := by
  have follows := Follows.tree (Confined.closed _ small) (Confined.scripts small keeps)
  have fit := Fit.start limits bytes cell
  cases read : tree registry limits { rest := bytes, nextCell := cell } with
  | ok t session => exact .inl ⟨t, session, rfl, (follows.gives.ok fit read).2⟩
  | error failure session =>
    cases failure with
    | error e => exact .inr (.inl ⟨e, session, rfl⟩)
    | fault cause =>
      obtain ⟨parent, child, rfl, clash⟩ := follows.holds _ cause session fit read
      exact .inr (.inr ⟨parent, child, session, rfl, clash⟩)

end GreenTree.Reader
