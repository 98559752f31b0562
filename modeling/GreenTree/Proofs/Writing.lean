import GreenTree.Proofs.Walking

/-!
Writing text into a sink that may refuse. A sink is offered the pieces of a text one behind the
other up to the first that it refuses, so what it takes is a prefix of the pieces that a sink
without a limit takes. Which pieces those are is said of the tokens of an element in a row: the
first of them that spans text can lose its leading trivia, the last that does its trailing ones, and
no other token loses any.
-/

namespace GreenTree

namespace TextSink

variable {σ : Type} {sink : TextSink σ} {s : σ} {ps : List String}

def takes (sink : TextSink σ) : σ → List String → Bool
  | _, [] => true
  | s, p :: ps => sink.accepts s p && sink.takes (sink.add s p) ps

/-- A sink that keeps, beside its state, what it was offered and whether it took it. -/
def logged (sink : TextSink σ) : TextSink (σ × List (String × Bool)) where
  accepts s p := sink.accepts s.1 p
  add s p := (sink.add s.1 p, s.2 ++ [(p, true)])
  refuse s p := (sink.refuse s.1 p, s.2 ++ [(p, false)])

theorem takes_cons {p : String} :
    sink.takes s (p :: ps) = true ↔ sink.accepts s p = true ∧
    sink.takes (sink.add s p) ps = true :=
  Bool.and_eq_true_iff

theorem put_of_accepts {p : String} (accepted : sink.accepts s p = true) :
    sink.put p s = .ok () (sink.add s p) :=
  if_pos accepted

theorem putAll_cons_of_accepts {p : String} (accepted : sink.accepts s p = true) :
    sink.putAll (p :: ps) s = sink.putAll ps (sink.add s p) := by
  rw [putAll, bind, Monad.toBind, EStateM.instMonad]
  simp only [EStateM.bind, put_of_accepts accepted]

theorem putAll_of_takes (taken : sink.takes s ps = true) :
    sink.putAll ps s = .ok () (ps.foldl sink.add s) := by
  induction ps generalizing s with
  | nil => rfl
  | cons p ps ih =>
    obtain ⟨first, others⟩ := takes_cons.1 taken
    rw [putAll_cons_of_accepts first, ih others, List.foldl_cons]

theorem putAll_of_refused {p : String} (left : List String) (taken : sink.takes s ps = true)
    (refused : sink.accepts (ps.foldl sink.add s) p = false) :
    sink.putAll (ps ++ p :: left) s = .error () (sink.refuse (ps.foldl sink.add s) p) := by
  induction ps generalizing s with
  | nil =>
    rw [List.foldl_nil] at refused
    have stops : sink.put p s = .error () (sink.refuse s p) := if_neg (by rw [refused]; decide)
    rw [List.nil_append, List.foldl_nil, putAll, bind, Monad.toBind, EStateM.instMonad]
    simp only [EStateM.bind, stops]
  | cons q ps ih =>
    obtain ⟨first, others⟩ := takes_cons.1 taken
    rw [List.cons_append, putAll_cons_of_accepts first, ih others refused, List.foldl_cons]

theorem takes_or_refuses (sink : TextSink σ) (s : σ) (ps : List String) :
    sink.takes s ps = true ∨
    ∃ before p left, ps = before ++ p :: left ∧ sink.takes s before = true ∧
      sink.accepts (before.foldl sink.add s) p = false := by
  induction ps generalizing s with
  | nil => exact .inl rfl
  | cons p ps ih =>
    cases accepted : sink.accepts s p with
    | false => exact .inr ⟨[], p, ps, rfl, rfl, accepted⟩
    | true =>
      rcases ih (sink.add s p) with taken | ⟨before, q, left, rfl, taken, refused⟩
      · exact .inl (takes_cons.2 ⟨accepted, taken⟩)
      · exact .inr ⟨p :: before, q, left, rfl, takes_cons.2 ⟨accepted, taken⟩, refused⟩

theorem takes_logged (sink : TextSink σ) (s : σ) (offers : List (String × Bool))
    (ps : List String) :
    sink.logged.takes (s, offers) ps = sink.takes s ps := by
  induction ps generalizing s offers with
  | nil => rfl
  | cons p ps ih => exact congrArg (sink.accepts s p && ·) (ih (sink.add s p) _)

theorem foldl_logged (sink : TextSink σ) (s : σ) (offers : List (String × Bool))
    (ps : List String) :
    ps.foldl sink.logged.add (s, offers) = (ps.foldl sink.add s, offers ++ ps.map (·, true)) := by
  induction ps generalizing s offers with
  | nil => rw [List.map_nil, List.append_nil, List.foldl_nil, List.foldl_nil]
  | cons p ps ih =>
    rw [List.foldl_cons, List.map_cons, List.append_cons]
    exact ih (sink.add s p) _

theorem unlimited_takes (s : String) (ps : List String) : unlimited.takes s ps = true := by
  induction ps generalizing s with
  | nil => rfl
  | cons p ps ih => exact ih (s.append p)

theorem capped_takes {cap : Nat} {s : String} (fits : s.utf8ByteSize ≤ cap) (ps : List String) :
    (capped cap).takes s ps = true ↔ s.utf8ByteSize + bytesIn ps ≤ cap := by
  induction ps generalizing s with
  | nil => exact iff_of_true rfl fits
  | cons p ps ih =>
    have more : ((capped cap).add s p).utf8ByteSize = s.utf8ByteSize + p.utf8ByteSize :=
      String.utf8ByteSize_append
    have split : bytesIn (p :: ps) = p.utf8ByteSize + bytesIn ps := List.sum_cons
    have accepts : (capped cap).accepts s p = true ↔ s.utf8ByteSize + p.utf8ByteSize ≤ cap :=
      decide_eq_true_iff
    rw [takes_cons, accepts]
    constructor
    · rintro ⟨first, others⟩
      have all := (ih (more ▸ first)).1 others
      omega
    · intro all
      have first : s.utf8ByteSize + p.utf8ByteSize ≤ cap := by omega
      exact ⟨first, (ih (more ▸ first)).2 (by omega)⟩

end TextSink

namespace Token

def spansText (t : Token) : Bool := 0 < t.head.fullWidth

def written (leading trailing : Bool) (t : Token) : List String :=
  (if leading then t.leading.map Trivia.text else []) ++
    t.text :: if trailing then t.trailing.map Trivia.text else []

def row (leading trailing : Bool) (ts : List Token) : List String :=
  (ts.mapIdx fun i t =>
    t.written (leading || !t.spansText || (ts.take i).any spansText)
      (trailing || !t.spansText || (ts.drop (i + 1)).any spansText)).flatten

theorem row_cons (l t : Bool) (s : Token) (ss : List Token) :
    row l t (s :: ss) = s.written (l || !s.spansText) (t || !s.spansText || ss.any spansText) ++
      row (l || s.spansText) t ss := by
  simp only [row, List.mapIdx_cons, List.flatten_cons, List.take_zero, List.any_nil, Bool.or_false,
    List.drop_succ_cons, List.drop_zero, List.take_succ_cons, List.any_cons, Bool.or_assoc]
  simp only [Bool.or_left_comm]

theorem row_append (l t : Bool) (ss us : List Token) :
    row l t (ss ++ us) = row l (t || us.any spansText) ss ++ row (l || ss.any spansText) t us := by
  induction ss generalizing l with
  | nil => rw [List.nil_append, List.any_nil, Bool.or_false]; rfl
  | cons s ss ih =>
    rw [List.cons_append, row_cons, row_cons, ih, List.any_append, List.any_cons, List.append_assoc]
    simp only [Bool.or_assoc, Bool.or_comm, Bool.or_left_comm]

theorem row_of_bare {ts : List Token} (bare : ts.any spansText = false) (l t : Bool) :
    row l t ts = ts.flatMap texts := by
  induction ts generalizing l with
  | nil => rfl
  | cons s ss ih =>
    rw [List.any_cons, Bool.or_eq_false_iff] at bare
    rw [row_cons, ih bare.2, bare.1, List.flatMap_cons, Bool.not_false, Bool.or_true,
      Bool.or_true, Bool.true_or]
    rfl

theorem row_singleton_of_spans {s : Token} (spans : s.spansText = true) (l t : Bool) :
    row l t [s] = s.written l t := by
  rw [row_cons, spans, List.any_nil, Bool.not_true, Bool.or_false, Bool.or_false, Bool.or_false]
  exact List.append_nil _

end Token

namespace Element

/-- The texts that are written of an element, in source order: those of the tokens of a node in a
row, those of a token that are asked for, and the one of trivia. -/
def written (leading trailing : Bool) : Element → List String
  | .node n => Token.row leading trailing (Element.node n).allTokens
  | .token t => t.written leading trailing
  | .trivia t => [t.text]

private theorem any_spansText {cs : List Element}
    (parts : ∀ c ∈ cs, c.spansText = c.allTokens.any Token.spansText) :
    cs.any spansText = (cs.flatMap allTokens).any Token.spansText := by
  rw [List.any_flatMap, Bool.eq_iff_iff, List.any_eq_true, List.any_eq_true]
  exact exists_congr fun c => and_congr_right fun mem => by rw [parts c mem]

theorem Sound.spansText_eq {e : Element} (sound : e.Sound) (shape : e.isTrivia = false) :
    e.spansText = e.allTokens.any Token.spansText := by
  induction sound with
  | @node n own parts ih =>
    rw [allTokens_node, ← any_spansText fun c mem => ih c mem (own.shape c mem), Bool.eq_iff_iff,
      spansText, fullWidth, head, own.fullWidth, decide_eq_true_iff,
      List.sum_pos_iff_exists_pos_nat]
    simp [spansText]
  | @token t own =>
    rw [allTokens_token, List.any_cons, List.any_nil, Bool.or_false]
    rfl
  | trivia own => cases shape

private theorem piecesOf_eq_row {cs : List Element} (sound : ∀ c ∈ cs, c.Sound)
    (shape : ∀ c ∈ cs, c.isTrivia = false)
    (parts : ∀ c ∈ cs, c.spansText = true → ∀ l t, c.pieces l t = Token.row l t c.allTokens)
    (l t before : Bool) :
    piecesOf l t before cs = Token.row (l || before) t (cs.flatMap allTokens) := by
  induction cs generalizing before with
  | nil => rfl
  | cons c cs ih =>
    obtain ⟨soundC, soundCs⟩ := List.forall_mem_cons.1 sound
    obtain ⟨shapeC, shapeCs⟩ := List.forall_mem_cons.1 shape
    obtain ⟨partC, partCs⟩ := List.forall_mem_cons.1 parts
    have behind := any_spansText fun d mem => (soundCs d mem).spansText_eq (shapeCs d mem)
    rw [piecesOf, List.flatMap_cons, Token.row_append, ← soundC.spansText_eq shapeC, ← behind,
      Bool.or_assoc, ← ih soundCs shapeCs partCs]
    refine congrArg (· ++ _) ?_
    cases spans : c.spansText with
    | true =>
      rw [partC spans]
      simp
    | false =>
      have bare := spans
      rw [soundC.spansText_eq shapeC] at bare
      simp only [Bool.false_and, Bool.not_false, Bool.or_true]
      rw [soundC.pieces_eq shapeC, Token.row_of_bare bare]

private theorem Sound.pieces_eq_row {e : Element} (sound : e.Sound) (shape : e.isTrivia = false)
    (spans : e.spansText = true) (l t : Bool) : e.pieces l t = Token.row l t e.allTokens := by
  induction sound generalizing l t with
  | @node n own parts ih =>
    have inRow := piecesOf_eq_row parts own.shape
      (fun c mem spans => ih c mem (own.shape c mem) spans) l t false
    rw [pieces, inRow, Bool.or_false, allTokens_node]
  | @token s own =>
    rw [allTokens_token]
    exact (Token.row_singleton_of_spans spans l t).symm
  | trivia own => cases shape

/-- What is offered of a sound element is what is written of it. -/
theorem Sound.pieces_eq_written {e : Element} (sound : e.Sound) (l t : Bool) :
    e.pieces l t = e.written l t := by
  cases sound with
  | @node n own parts =>
    have inRow := piecesOf_eq_row parts own.shape
      (fun c mem spans => (parts c mem).pieces_eq_row (own.shape c mem) spans) l t false
    rw [pieces, inRow, Bool.or_false, written, allTokens_node]
  | @token s own => rfl
  | @trivia s own => rfl

section Sinks

variable {σ : Type} {sink : TextSink σ} {s : σ} {e : Element} {l t : Bool}

theorem textInto_of_takes (taken : sink.takes s (e.pieces l t) = true) :
    e.textInto sink s l t = ((e.pieces l t).foldl sink.add s, true) := by
  rw [textInto, writeText_eq, TextSink.putAll_of_takes taken]

theorem textInto_of_refused {before left : List String} {p : String}
    (pieces : e.pieces l t = before ++ p :: left) (taken : sink.takes s before = true)
    (refused : sink.accepts (before.foldl sink.add s) p = false) :
    e.textInto sink s l t = (sink.refuse (before.foldl sink.add s) p, false) := by
  rw [textInto, writeText_eq, pieces, TextSink.putAll_of_refused left taken refused]

theorem textInto_logged (sink : TextSink σ) (s : σ) (e : Element) (l t : Bool) :
    ∃ offers, e.textInto sink.logged (s, []) l t =
      (((e.textInto sink s l t).1, offers), (e.textInto sink s l t).2) ∧
      ((e.textInto sink s l t).2 = true ∧ offers = (e.pieces l t).map (·, true) ∨
        ∃ before p left, (e.textInto sink s l t).2 = false ∧
          e.pieces l t = before ++ p :: left ∧
          offers = before.map (·, true) ++ [(p, false)]) := by
  rcases sink.takes_or_refuses s (e.pieces l t) with taken |
    ⟨before, p, left, pieces, taken, refused⟩
  · have same : sink.logged.takes (s, []) (e.pieces l t) = true := by
      rw [TextSink.takes_logged, taken]
    rw [textInto_of_takes taken, textInto_of_takes same, TextSink.foldl_logged]
    exact ⟨_, rfl, .inl ⟨rfl, rfl⟩⟩
  · have same : sink.logged.takes (s, []) before = true := by rw [TextSink.takes_logged, taken]
    have end_ := TextSink.foldl_logged sink s [] before
    have refused' : sink.logged.accepts (before.foldl sink.logged.add (s, [])) p = false := by
      rw [end_]; exact refused
    rw [textInto_of_refused pieces taken refused, textInto_of_refused pieces same refused', end_]
    exact ⟨_, rfl, .inr ⟨before, p, left, rfl, pieces, rfl⟩⟩

end Sinks

private theorem bytesIn_append (ps qs : List String) :
    bytesIn (ps ++ qs) = bytesIn ps + bytesIn qs := by
  rw [bytesIn, List.map_append, List.sum_append]
  rfl

private theorem bytesIn_mono {ps qs : List String} (h : ps <+: qs) : bytesIn ps ≤ bytesIn qs := by
  obtain ⟨rest, rfl⟩ := h
  rw [bytesIn_append]
  exact Nat.le_add_right _ _

private theorem map_fst_offers (offered : List String) (taken : Bool) :
    (offered.map (·, taken)).map Prod.fst = offered := by
  rw [List.map_map]
  exact List.map_id offered

private theorem not_mem_taken (taken : List String) (p : String) :
    (p, false) ∉ taken.map (·, true) := by
  intro mem
  obtain ⟨q, -, same⟩ := List.mem_map.1 mem
  cases same

private theorem eq_nil_of_refused {taken : List String} {p q : String}
    {before behind : List (String × Bool)}
    (split : taken.map (·, true) ++ [(p, false)] = before ++ (q, false) :: behind) :
    behind = [] := by
  rcases List.eq_nil_or_concat behind with rfl | ⟨behind, last, rfl⟩
  · rfl
  · rw [List.concat_eq_append, ← List.cons_append, ← List.append_assoc] at split
    have mem : (q, false) ∈ taken.map (·, true) := by
      rw [List.append_inj_left' split rfl]
      exact List.mem_append_right before List.mem_cons_self
    exact absurd mem (not_mem_taken taken q)

theorem textInto_capped (e : Element) (l t : Bool) (cap : Nat) :
    e.textInto (.capped cap) "" l t = (e.text l t, true) ∧ (e.text l t).utf8ByteSize ≤ cap ∨
      cap < (e.text l t).utf8ByteSize ∧ ∃ n, e.textInto (.capped cap) "" l t =
        (String.join ((e.pieces l t).take n), false) ∧
          ∀ m, (String.join ((e.pieces l t).take m)).utf8ByteSize ≤ cap ↔ m ≤ n := by
  have fits (ps : List String) : (TextSink.capped cap).takes "" ps = true ↔
      bytesIn ps ≤ cap := by
    rw [TextSink.capped_takes (Nat.zero_le cap), String.utf8ByteSize_empty, Nat.zero_add]
  rw [text_eq, size_join]
  rcases (TextSink.capped cap).takes_or_refuses "" (e.pieces l t) with taken |
    ⟨before, p, left, pieces, taken, refused⟩
  · exact .inl ⟨textInto_of_takes taken, (fits _).1 taken⟩
  · have full : cap < bytesIn (before ++ [p]) := by
      have above : ¬(String.join before).utf8ByteSize + p.utf8ByteSize ≤ cap :=
        of_decide_eq_false refused
      rw [size_join] at above
      have one : bytesIn [p] = p.utf8ByteSize := List.sum_singleton
      rw [bytesIn_append, one]
      omega
    have stands : before ++ [p] <+: e.pieces l t :=
      ⟨left, by rw [pieces, List.append_assoc]; rfl⟩
    have whole : (e.pieces l t).take before.length = before := by rw [pieces, List.take_left]
    refine .inr ⟨Nat.lt_of_lt_of_le full (bytesIn_mono stands), before.length, ?_, fun m => ?_⟩
    · rw [textInto_of_refused pieces taken refused, whole]
      rfl
    · rw [size_join]
      constructor
      · intro below
        by_contra further
        have long : (before ++ [p]).length ≤ ((e.pieces l t).take m).length := by
          have := stands.length_le
          simp only [List.length_append, List.length_take, List.length_singleton] at *
          omega
        have := bytesIn_mono (List.prefix_of_prefix_length_le stands (List.take_prefix m _) long)
        omega
      · intro short
        have part : (e.pieces l t).take m <+: (e.pieces l t).take before.length :=
          List.take_prefix_take_left short
        rw [whole] at part
        exact Nat.le_trans (bytesIn_mono part) ((fits before).1 taken)

/-- The text of an element is offered piece by piece in source order. A sink is offered the pieces
up to the first that it refuses, and writing fails just if there is one; a sink with a cap takes all
the text if it is not longer than the cap, and else as many whole pieces as fit. -/
theorem Obtained.writing_stops {e : Element} (obtained : e.Obtained) (l t : Bool) :
    (e.textInto TextSink.unlimited.logged ("", []) l t).1.2.map Prod.fst = e.written l t ∧
    (∀ {σ : Type} (sink : TextSink σ) (start : σ),
      let run := e.textInto sink.logged (start, []) l t
      let offers := run.1.2
      (run.1.1, run.2) = e.textInto sink start l t ∧
      offers.map Prod.fst <+: e.written l t ∧
      (run.2 = true → offers.map Prod.fst = e.written l t) ∧
      (∀ before p behind, offers = before ++ (p, false) :: behind → behind = []) ∧
      (run.2 = false ↔ ∃ p, (p, false) ∈ offers)) ∧
    ∀ cap, ((e.textInto (.capped cap) "" l t).2 = true ↔ (e.text l t).utf8ByteSize ≤ cap) ∧
      ((e.textInto (.capped cap) "" l t).2 = false → ∃ n,
        (e.textInto (.capped cap) "" l t).1 = String.join ((e.written l t).take n) ∧
        ∀ m, (String.join ((e.written l t).take m)).utf8ByteSize ≤ cap ↔ m ≤ n) := by
  rw [← obtained.sound.pieces_eq_written]
  refine ⟨?_, fun {σ} sink start => ?_, fun cap => ?_⟩
  · obtain ⟨offers, ran, ⟨-, rfl⟩ | ⟨before, p, left, failed, -, -⟩⟩ :=
      textInto_logged .unlimited "" e l t
    · rw [ran, map_fst_offers]
    · rw [textInto_of_takes (TextSink.unlimited_takes "" _)] at failed
      cases failed
  · intro run offers
    obtain ⟨noted, ran, ends⟩ := textInto_logged sink start e l t
    refine ⟨by rw [show run = _ from ran], ?_⟩
    have ok : run.2 = (e.textInto sink start l t).2 := congrArg Prod.snd ran
    rw [show offers = noted from congrArg (·.1.2) ran, ok]
    rcases ends with ⟨done, rfl⟩ | ⟨before, p, left, failed, pieces, rfl⟩
    · rw [map_fst_offers, done]
      refine ⟨List.prefix_refl _, fun _ => rfl, fun before p behind split => ?_, ?_⟩
      · have mem : (p, false) ∈ (e.pieces l t).map (·, true) := by
          rw [split]
          exact List.mem_append_right before List.mem_cons_self
        exact absurd mem (not_mem_taken _ p)
      · simp
    · rw [List.map_append, map_fst_offers, failed, pieces, List.append_cons before]
      refine ⟨List.prefix_append _ left, nofun, fun _ _ _ => eq_nil_of_refused, ?_⟩
      exact iff_of_true rfl ⟨p, List.mem_append_right _ (List.mem_singleton_self _)⟩
  · rcases e.textInto_capped l t cap with ⟨ran, fits⟩ | ⟨long, n, ran, most⟩
    · rw [ran]
      exact ⟨iff_of_true rfl fits, nofun⟩
    · rw [ran]
      exact ⟨iff_of_false nofun (Nat.not_le.2 long), fun _ => ⟨n, rfl, most⟩⟩

theorem writing_stops_returnOne : returnOne.Obtained ∧
    returnOne.written true true = ["#!", "return", " ", "1", ""] ∧
    returnOne.written false false = ["return", " ", "1", ""] ∧
    (returnOne.textInto TextSink.unlimited.logged ("", []) true true).1.2.map Prod.fst =
      returnOne.written true true ∧
    returnOne.textInto (TextSink.capped 8).logged ("", []) true true =
      (("#!return", [("#!", true), ("return", true), (" ", false)]), false) ∧
    (returnOne.textInto (.capped 10) "" true true).2 = true ∧
    ∃ n, (returnOne.textInto (.capped 8) "" true true).1 =
      String.join ((returnOne.written true true).take n) ∧
      ∀ m, (String.join ((returnOne.written true true).take m)).utf8ByteSize ≤ 8 ↔
        m ≤ n := by
  obtain ⟨all, -, within⟩ := obtained_returnOne.writing_stops true true
  exact ⟨obtained_returnOne, by decide +kernel, by decide +kernel, all, by decide +kernel,
    (within 10).1.2 (by decide +kernel), (within 8).2 (by decide +kernel)⟩

end Element

end GreenTree
