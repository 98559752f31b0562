import GreenTree.Proofs.Occurrences
import GreenTree.Proofs.TrimmedText

/-!
Walks in source order. A walker that notes what it meets notes the occurrences of an element one
after the other, and leaves out what stands below a kind that it stops at. A walker with a rule for
one shape alone still comes everywhere else by its defaults, so it acts on every occurrence of that
shape.
-/

namespace GreenTree

def Token.texts (t : Token) : List String :=
  t.leading.map Trivia.text ++ t.text :: t.trailing.map Trivia.text

namespace Occurrence

def isOpen (stop : KindSet) (o : Occurrence) : Bool := o.around.all fun a => !stop.contains a.kind

def seen (stop : KindSet) (os : List Occurrence) : List Element :=
  (os.filter (isOpen stop)).map element

variable {stop : KindSet} {os : List Occurrence}

theorem isOpen_of_around {around : List Element} {side : Option Side} {e : Element}
    (isOpen : ∀ a ∈ around, stop.contains a.kind = false) :
    Occurrence.isOpen stop ⟨around, side, e⟩ = true :=
  List.all_eq_true.2 fun a mem => by rw [isOpen a mem, Bool.not_false]

theorem seen_cons {o : Occurrence} (isOpen : o.isOpen stop = true) :
    seen stop (o :: os) = o.element :: seen stop os := by
  rw [seen, List.filter_cons_of_pos isOpen, List.map_cons]
  rfl

theorem seen_flatMap {α : Type} (xs : List α) (f : α → List Occurrence) :
    seen stop (xs.flatMap f) = xs.flatMap fun x => seen stop (f x) := by
  simp only [seen, List.filter_flatMap, List.map_flatMap]

theorem seen_of_open (open_ : ∀ o ∈ os, o.isOpen stop = true) :
    seen stop os = os.map element := by
  rw [seen, List.filter_eq_self.2 open_]

theorem seen_of_closed {a : Element} (stopped : stop.contains a.kind = true)
    (inside : ∀ o ∈ os, a ∈ o.around) :
    seen stop os = [] := by
  have closed : os.filter (isOpen stop) = [] := by
    rw [List.filter_eq_nil_iff]
    intro o mem isOpen
    have other := List.all_eq_true.1 isOpen a (inside o mem)
    rw [stopped] at other
    cases other
  rw [seen, closed, List.map_nil]

end Occurrence

namespace Element

def token? : Element → Option Token
  | .token t => some t
  | _ => none

theorem prefix_around {e : Element} {around : List Element} {o : Occurrence}
    (mem : o ∈ e.occurrencesIn around) :
    around <+: o.around := by
  induction e using Element.induction generalizing around with
  | node n parts =>
    rcases mem_occurrencesIn_node_iff.1 mem with rfl | ⟨c, child, inside⟩
    · exact List.prefix_refl around
    · exact (List.prefix_append around _).trans (parts c child inside)
  | token t =>
    rcases mem_occurrencesIn_token_iff.1 mem with rfl | ⟨s, -, rfl⟩ | ⟨s, -, rfl⟩
    · exact List.prefix_refl around
    · exact List.prefix_append around _
    · exact List.prefix_append around _
  | trivia t =>
    rw [occurrencesIn, List.mem_singleton] at mem
    exact mem ▸ List.prefix_refl around

end Element

namespace Walker

variable {m : Type → Type} [Monad m]

/-- A walker that does something at each element and goes on below it unless its kind is in
`stop`. -/
def acting (act : Element → m Unit) (stop : KindSet) : Walker m where
  node n children := do
    act (.node n)
    if !stop.contains n.head.kind then children
  token t leading trailing := do
    act (.token t)
    if !stop.contains t.head.kind then
      leading
      trailing
  trivia t := act (.trivia t)

variable {act : Element → m Unit} {stop : KindSet}

private theorem below_eq (around : List Element) (a : Element) {os : List Occurrence}
    {below : m Unit} (inside : ∀ o ∈ os, around ++ [a] <+: o.around)
    (goesOn : stop.contains a.kind = false → below = forM (Occurrence.seen stop os) act) :
    (if !stop.contains a.kind then below else pure ()) = forM (Occurrence.seen stop os) act := by
  cases stopped : stop.contains a.kind with
  | true =>
    have within : ∀ o ∈ os, a ∈ o.around := fun o mem =>
      (inside o mem).subset (List.mem_append_right around List.mem_cons_self)
    rw [Occurrence.seen_of_closed stopped within]
    rfl
  | false => exact goesOn stopped

variable [LawfulMonad m] {around : List Element}

omit [Monad m] [LawfulMonad m] in
private theorem deeper {d : Element} (isOpen : ∀ a ∈ around, stop.contains a.kind = false)
    (goesOn : stop.contains d.kind = false) :
    ∀ a ∈ around ++ [d], stop.contains a.kind = false :=
  List.forall_mem_append.2 ⟨isOpen, by simpa using goesOn⟩

private theorem forM_seen_trivia (isOpen : ∀ a ∈ around, stop.contains a.kind = false)
    (side : Option Side) (ts : List Trivia) :
    forM (Occurrence.seen stop (ts.map fun s => ⟨around, side, .trivia s⟩)) act =
      forM ts fun s => act (.trivia s) := by
  have all : ∀ o ∈ ts.map fun s => (⟨around, side, .trivia s⟩ : Occurrence),
      o.isOpen stop = true := by
    intro o mem
    obtain ⟨s, -, rfl⟩ := List.mem_map.1 mem
    exact Occurrence.isOpen_of_around isOpen
  rw [Occurrence.seen_of_open all, List.map_map, List.forM_map]
  rfl

/-- Such a walker acts on everything that is seen, in source order, whatever its monad is. -/
theorem walk_acting (e : Element) (isOpen : ∀ a ∈ around, stop.contains a.kind = false) :
    (acting act stop).walk e = forM (Occurrence.seen stop (e.occurrencesIn around)) act := by
  induction e using Element.induction generalizing around with
  | node n parts =>
    rw [Element.occurrencesIn, Occurrence.seen_cons (Occurrence.isOpen_of_around isOpen),
      List.forM_cons]
    refine congrArg (act (.node n) >>= ·) (funext fun _ => ?_)
    refine below_eq around (.node n) (fun o mem => ?_) fun goesOn => ?_
    · rw [Element.occurrencesWithin_eq, List.mem_flatMap] at mem
      obtain ⟨c, -, inside⟩ := mem
      exact Element.prefix_around inside
    · rw [Element.occurrencesWithin_eq, Occurrence.seen_flatMap]
      exact walkAll_eq_of_parts fun c mem => parts c mem (deeper isOpen goesOn)
  | token t =>
    rw [Element.occurrencesIn, Occurrence.seen_cons (Occurrence.isOpen_of_around isOpen),
      List.forM_cons]
    refine congrArg (act (.token t) >>= ·) (funext fun _ => ?_)
    refine below_eq around (.token t) (fun o mem => ?_) fun goesOn => ?_
    · rw [List.mem_append, List.mem_map, List.mem_map] at mem
      rcases mem with ⟨s, -, rfl⟩ | ⟨s, -, rfl⟩ <;> exact List.prefix_refl _
    · have both (os os' : List Occurrence) : Occurrence.seen stop (os ++ os') =
          Occurrence.seen stop os ++ Occurrence.seen stop os' := by simp [Occurrence.seen]
      rw [both, List.forM_append, forM_seen_trivia (deeper isOpen goesOn),
        forM_seen_trivia (deeper isOpen goesOn), walkTrivia_eq, walkTrivia_eq]
      rfl
  | trivia t =>
    rw [Element.occurrencesIn, Occurrence.seen_cons (Occurrence.isOpen_of_around isOpen),
      List.forM_cons]
    exact (bind_pure (act (.trivia t))).symm

end Walker

namespace Element

theorem met_eq (stop : KindSet) (e : Element) :
    e.met stop = Occurrence.seen stop (e.occurrencesIn []) := by
  have run : e.met stop = (((Walker.acting (fun d => modify (·.push d)) stop).walk e :
      StateM (Array Element) Unit).run #[]).2.toList := rfl
  rw [run, Walker.walk_acting e (List.forall_mem_nil _), Walker.run_forM_push]
  simp

theorem filterMap_token?_token (t : Token) :
    (Element.token t).occurrences.filterMap token? = [t] := by
  have others : ((t.leading ++ t.trailing).map Element.trivia).filterMap token? = [] := by
    rw [List.filterMap_map]
    exact List.filterMap_eq_nil_iff.2 fun _ _ => rfl
  have own : token? (.token t) = some t := rfl
  rw [occurrences, List.filterMap_cons_some own, others]

theorem walk_token {m : Type → Type} [Monad m] [LawfulMonad m] (act : Token → m Unit)
    (e : Element) :
    Walker.walk { token := fun t _ _ => act t } e = forM (e.occurrences.filterMap token?) act := by
  induction e using Element.induction with
  | node n parts =>
    rw [filterMap_occurrences_node rfl]
    exact Walker.walkAll_eq_of_parts parts
  | token t =>
    rw [filterMap_token?_token]
    exact (bind_pure (act t)).symm
  | trivia t => rfl

theorem allTokens_eq (e : Element) : e.allTokens = e.occurrences.filterMap token? := by
  have run : e.allTokens = ((Walker.walk { token := fun t _ _ => modify (·.push t) } e :
      StateM (Array Token) Unit).run #[]).2.toList := rfl
  rw [run, walk_token, Walker.run_forM_push]
  simp

theorem allTokens_node (n : Node Element) :
    (Element.node n).allTokens = n.children.flatMap allTokens := by
  rw [allTokens_eq, filterMap_occurrences_node rfl]
  exact (List.flatMap_congr fun c _ => c.allTokens_eq).symm

theorem allTokens_token (t : Token) : (Element.token t).allTokens = [t] := by
  rw [allTokens_eq, filterMap_token?_token]

theorem Sound.pieces_eq {e : Element} (sound : e.Sound) (shape : e.isTrivia = false) :
    e.pieces true true = e.allTokens.flatMap Token.texts := by
  induction sound with
  | @node n own parts ih =>
    rw [pieces, piecesOf_both, allTokens_node, List.flatMap_assoc]
    exact List.flatMap_congr fun c mem => ih c mem (own.shape c mem)
  | @token t own =>
    rw [allTokens_token, List.flatMap_singleton]
    rfl
  | trivia own => cases shape

/-- A walk that notes all it meets notes every occurrence once and in order; one that stops at some
kinds notes those around which there is none of them; walks with a rule for one shape alone note the
occurrences of that shape; and the texts of all tokens and of the trivia on either side of them are
the full text. -/
theorem Obtained.walks_complete {e : Element} (obtained : e.Obtained) :
    e.met .empty = e.occurrences ∧
    (e.occurrencesIn []).map Occurrence.element = e.occurrences ∧
    (∀ stop, e.met stop = Occurrence.seen stop (e.occurrencesIn [])) ∧
    e.allTrivia = e.occurrences.filterMap trivia? ∧
    e.allTokens = e.occurrences.filterMap token? ∧
    (e.isTrivia = false → String.join (e.allTokens.flatMap Token.texts) = e.fullText) := by
  have placed := e.map_element_occurrencesIn []
  refine ⟨?_, placed, fun stop => met_eq stop e, e.allTrivia_eq, e.allTokens_eq,
    fun shape => ?_⟩
  · have isOpen : ∀ o ∈ e.occurrencesIn [], o.isOpen .empty = true := fun o _ =>
      Occurrence.isOpen_of_around fun a _ => KindSet.contains_empty a.kind
    rw [met_eq, Occurrence.seen_of_open isOpen, placed]
  · rw [← obtained.sound.pieces_eq shape, ← text_eq, fullText]

def returnOne : Element :=
  let skipped : Trivia :=
    ⟨0, ⟨.preprocessingMessageTrivia, { skippedText := true }, 2, .empty⟩, "#!"⟩
  let blank : Trivia := ⟨1, ⟨.whitespaceTrivia, {}, 1, .empty⟩, " "⟩
  let keyword : Token :=
    ⟨2, ⟨.returnKw, { skippedText := true }, 9, .empty⟩, "return", [skipped], [blank], 2, 1⟩
  let one : Token := ⟨3, ⟨.number, {}, 1, .empty⟩, "1", [], [], 0, 0⟩
  let hole : Token := ⟨5, ⟨.semicolon, { missing := true }, 0, .empty⟩, "", [], [], 0, 0⟩
  .node ⟨6, ⟨.returnStmt, { skippedText := true }, 10, .empty⟩,
    [.token keyword, .node ⟨4, ⟨.literal, {}, 1, .empty⟩, [.token one]⟩, .token hole]⟩

theorem obtained_returnOne : returnOne.Obtained := by
  have madeSkipped : Trivia.make 0 .preprocessingMessageTrivia "#!" .empty =
      .ok ⟨0, ⟨.preprocessingMessageTrivia, { skippedText := true }, 2, .empty⟩, "#!"⟩ :=
      rfl
  have madeBlank : Trivia.make 1 .whitespaceTrivia " " .empty =
      .ok ⟨1, ⟨.whitespaceTrivia, {}, 1, .empty⟩, " "⟩ := rfl
  have skipped := Obtained.trivia Overlay.addressable_empty madeSkipped
  have blank := Obtained.trivia Overlay.addressable_empty madeBlank
  have madeKeyword : Token.make 2 .returnKw false "return"
      [⟨0, ⟨.preprocessingMessageTrivia, { skippedText := true }, 2, .empty⟩, "#!"⟩]
      [⟨1, ⟨.whitespaceTrivia, {}, 1, .empty⟩, " "⟩] .empty = .ok _ := rfl
  have madeOne : Token.make 3 .number false "1" [] [] .empty = .ok _ := rfl
  have madeHole : Token.missing 5 .semicolon = .ok _ := rfl
  have keyword :=
    Obtained.token (List.forall_mem_singleton.2 skipped) (List.forall_mem_singleton.2 blank)
    madeKeyword
  have one := Obtained.token (List.forall_mem_nil _) (List.forall_mem_nil _) madeOne
  have madeLiteral :
      Node.plain 4 .literal [.token ⟨3, ⟨.number, {}, 1, .empty⟩, "1", [], [], 0, 0⟩] =
        .ok _ := rfl
  have literal := Obtained.node (List.forall_mem_singleton.2 one) madeLiteral
  have parts := List.forall_mem_cons.2 ⟨keyword, List.forall_mem_cons.2 ⟨literal,
    List.forall_mem_singleton.2 (Obtained.missing madeHole)⟩⟩
  have madeStatement : Node.plain 6 .returnStmt returnOne.children = .ok _ := rfl
  exact .node parts madeStatement

theorem walks_complete_returnOne : returnOne.Obtained ∧ returnOne.isTrivia = false ∧
    (returnOne.met .empty).map kind =
      [.returnStmt, .returnKw, .preprocessingMessageTrivia, .whitespaceTrivia, .literal, .number,
        .semicolon] ∧
    (returnOne.met (.ofList [.returnKw, .literal])).map kind =
      [.returnStmt, .returnKw, .literal, .semicolon] ∧
    returnOne.allTrivia.map Trivia.text = ["#!", " "] ∧
    returnOne.allTokens.map Token.text = ["return", "1", ""] ∧
    String.join (returnOne.allTokens.flatMap Token.texts) = returnOne.fullText := by
  obtain ⟨all, -, stopped, trivia, tokens, joined⟩ := obtained_returnOne.walks_complete
  rw [all, stopped, trivia, tokens]
  rw [tokens] at joined
  exact ⟨obtained_returnOne, rfl, rfl, by decide +kernel, rfl, rfl, joined rfl⟩

end Element

end GreenTree
