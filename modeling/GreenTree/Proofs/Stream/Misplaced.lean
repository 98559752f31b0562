import GreenTree.Proofs.Stream.Acceptance
import GreenTree.Proofs.Stream.Scripts
import Mathlib.Logic.Relation

/-!
Elements of the wrong shape. A kind is checked before the contents of its record are read, but a
script may give another shape than the kind has. Where trivia of a token are read the shape is
checked again, and another one is refused; where children of a node are read it is not, and the
node's maker faults on trivia. Either ends the reading of everything around, as long as only readers
that come with the library are around, since these hand on how a record in them fails.
-/

namespace GreenTree.Reader

variable {registry : Registry} {gives : Kind → Element → Prop} {limits : Limits}

/-- Where a record can stand. -/
inductive Place where
  | root
  | child
  | trivia

def Place.wanted : Place → KindSet × String
  | .root => (.all, "green")
  | .child => (.children, "node or token")
  | .trivia => (.trivia, "trivia")

/-- A record that is about to be read: its place, the number of levels that are left, and the
session in front of it. -/
structure Site where
  place : Place
  levels : Nat
  session : Reader

namespace Site

def read (registry : Registry) (limits : Limits) (s : Site) :
    EStateM.Result ReadFailure Reader Element :=
  record registry limits s.levels s.place.wanted.1 s.place.wanted.2 s.session

/-- Whether the record fails what is around it: it cannot be read, or is not what its place
takes. -/
def Fails (registry : Registry) (limits : Limits) (failure : ReadFailure) (s : Site) : Prop :=
  match s.place with
  | .trivia => ∃ r, triviaRecord (record registry limits s.levels) s.session = .error failure r
  | _ => ∃ r, s.read registry limits = .error failure r

def Fit (limits : Limits) (s : Site) : Prop :=
  ∃ depth, depth + s.levels = limits.maxDepth.toNat ∧ s.session.Fit limits depth

/-- Whether a record begins with a header, for the kind of which there is a reader; its contents
begin where `r` is. -/
inductive Opens (registry : Registry) (limits : Limits) :
    Site → Nat → RecordHeader → RecordReader → Reader → Prop
  | mk {place : Place} {levels word : Nat} {r r₁ r₂ r₃ : Reader} {k : Kind} {o : Overlay}
      {reader : RecordReader} : r.depth < limits.maxDepth.toNat → kind r = .ok k r₁ →
      place.wanted.1.contains k = true → registry.find? k = some reader →
      fixed 2 r₁ = .ok word r₂ → overlay limits r₂ = .ok o r₃ →
      Opens registry limits ⟨place, levels + 1, r⟩ levels
      ⟨k, .ofBitsTruncate word, o⟩ reader
        { r₃ with visits := r₃.visits.push ⟨k, r₃.depth⟩, depth := r₃.depth + 1 }

/-- The steps from a record to one in it, past those in front of that, if a reader that comes with
the library reads it. -/
inductive Step (registry : Registry) (limits : Limits) : Site → Site → Prop
  | child {s : Site} {levels count : Nat} {h : RecordHeader} {r r₁ r₂ : Reader}
      {cs : List Element} :
      s.Opens registry limits levels h .node r → h.kind.isNode = true →
      length r = .ok count r₁ →
      Chain (fun r c r' =>
        record registry limits levels .children "node or token" r = .ok c r') r₁ cs r₂ →
      cs.length < count → Step registry limits s ⟨.child, levels, r₂⟩
  | leading {s : Site} {levels count : Nat} {h : RecordHeader} {r r₁ r₂ r₃ : Reader}
      {content : String} {ts : List Trivia} :
      s.Opens registry limits levels h .token r → h.kind.isToken = true →
      text limits r = .ok content r₁ → length r₁ = .ok count r₂ →
      Chain (fun r t r' =>
        triviaRecord (record registry limits levels) r = .ok t r') r₂ ts r₃ →
      ts.length < count → Step registry limits s ⟨.trivia, levels, r₃⟩
  | trailing {s : Site} {levels count : Nat} {h : RecordHeader} {r r₁ r₂ r₃ r₄ : Reader}
      {content : String} {leading ts : List Trivia} :
      s.Opens registry limits levels h .token r → h.kind.isToken = true →
      text limits r = .ok content r₁ →
      triviaList (record registry limits levels) r₁ = .ok leading r₂ →
      length r₂ = .ok count r₃ →
      Chain (fun r t r' =>
        triviaRecord (record registry limits levels) r = .ok t r') r₃ ts r₄ →
      ts.length < count → Step registry limits s ⟨.trivia, levels, r₄⟩

/-- Whether a record is read as a node by the reader that comes with the library, up to the end of
its children. -/
inductive Gathers (registry : Registry) (limits : Limits) (s : Site) (h : RecordHeader)
    (cs : List Element) : Prop
  | mk {levels : Nat} {r r₁ r₂ : Reader} :
      s.Opens registry limits levels h .node r → h.kind.isNode = true →
      length r = .ok cs.length r₁ →
      Chain (fun r c r' =>
        record registry limits levels .children "node or token" r = .ok c r') r₁ cs r₂ →
      Gathers registry limits s h cs

def start (limits : Limits) (body : List UInt8) (cell : Nat) : Site :=
  ⟨.root, limits.maxDepth.toNat, { rest := body, nextCell := cell }⟩

theorem start_fit (limits : Limits) (body : List UInt8) (cell : Nat) :
    (start limits body cell).Fit limits :=
  ⟨0, Nat.zero_add _, .start limits body cell⟩

theorem tree_eq (registry : Registry) (limits : Limits) (body : List UInt8) (cell : Nat) :
    tree registry limits
    { rest := streamMagic ++ UInt8.ofNat streamVersion :: body, nextCell := cell } =
      (start limits body cell).read registry limits := by
  have split (bytes rest : List UInt8) :
      take bytes.length { rest := bytes ++ rest, nextCell := cell } =
        .ok bytes { rest, nextCell := cell } := by
    unfold take
    rw [Bytes.split?_append]
  have version : fixed 1 { rest := UInt8.ofNat streamVersion :: body, nextCell := cell } =
      .ok streamVersion { rest := body, nextCell := cell } :=
    EStateM.bind_of_ok (split [UInt8.ofNat streamVersion] body)
  have magic :
      take 4 { rest := streamMagic ++ UInt8.ofNat streamVersion :: body, nextCell := cell } =
        .ok streamMagic { rest := UInt8.ofNat streamVersion :: body, nextCell := cell } :=
    split streamMagic _
  refine (EStateM.bind_of_ok magic).trans ?_
  refine (EStateM.bind_of_ok version).trans ?_
  exact EStateM.bind_of_ok rfl

theorem fails_of_read {s : Site} {failure : ReadFailure} {r : Reader}
    (run : s.read registry limits = .error failure r) : s.Fails registry limits failure := by
  obtain ⟨place, levels, session⟩ := s
  cases place with
  | root => exact ⟨r, run⟩
  | child => exact ⟨r, run⟩
  | trivia => exact ⟨r, EStateM.bind_eq_error_iff.2 (.inl run)⟩

theorem fails_of_shape {s : Site} {e : Element} {r : Reader} (place : s.place = .trivia)
    (run : s.read registry limits = .ok e r) (shape : e.isTrivia = false) :
    s.Fails registry limits (.error (.unexpectedShape "trivia" e.kind)) := by
  obtain ⟨_, levels, session⟩ := s
  subst place
  refine ⟨r, EStateM.bind_eq_error_iff.2 (.inr ⟨e, r, run, ?_⟩)⟩
  cases e with
  | node n => rfl
  | token t => rfl
  | trivia t => cases shape

section Registered

variable (small : limits.maxOverlayBytes.toNat < OverlayBlock.addressLimit)
  (keeps : registry.Keeps limits gives)

include small keeps

/-- A record is read as what is behind its header, one level deeper. -/
theorem Opens.read_eq {s : Site} {levels : Nat} {h : RecordHeader}
    {reader : RecordReader} {r : Reader} (opens : s.Opens registry limits levels h reader r)
    (fit : s.Fit limits) :
    s.read registry limits = outside
    (contents limits (record registry limits levels) h reader r) ∧
      ∃ depth, depth + levels = limits.maxDepth.toNat ∧ r.Fit limits depth := by
  obtain ⟨room, tagged, allows, found, bits, attached⟩ := opens
  rename_i place word r r₁ r₂ r₃ k o
  obtain ⟨depth, total, fit⟩ := fit
  dsimp only at total fit
  have deep : depth < limits.maxDepth.toNat := by omega
  have opened : header registry limits place.wanted.1 place.wanted.2 r =
      .ok (⟨k, .ofBitsTruncate word, o⟩, reader) r₃ :=
    header_eq_ok_iff.2 ⟨room, allows, found, word, r₁, r₂, tagged, bits, rfl, attached⟩
  have closed := Confined.closed (registry.Blames gives) small
  obtain ⟨fit', heads⟩ := (Follows.header closed registry _ _).gives.ok fit opened
  have noted :
      Reader.Fit limits depth { r₃ with visits := r₃.visits.push ⟨k, r₃.depth⟩ } :=
    ⟨⟨fit'.depth, fit'.interned⟩, fit'.short⟩
  have total : depth + 1 + levels = limits.maxDepth.toNat := by omega
  have below := Confined.record small keeps total
  have inside :=
    Follows.contents closed (Confined.scripts small keeps) below heads.addressable found
  refine ⟨?_, depth + 1, by omega, noted.deeper⟩
  rw [Site.read, record_succ]
  exact recordWith_of_ok opened (inside.gives.stays (limits.lt_maxSize deep) noted)

theorem Opens.fails {s : Site} {levels : Nat} {h : RecordHeader}
    {reader : RecordReader} {r : Reader} {failure : ReadFailure}
    (opens : s.Opens registry limits levels h reader r) (fit : s.Fit limits)
    (failed : ∃ r',
      contents limits (record registry limits levels) h reader r = .error failure r') :
    s.Fails registry limits failure := by
  obtain ⟨r', run⟩ := failed
  obtain ⟨same, -⟩ := opens.read_eq small keeps fit
  rw [run] at same
  cases failure with
  | error e => exact fails_of_read same
  | fault cause => exact fails_of_read same

theorem Step.fit {s s' : Site} (step : Step registry limits s s') (fit : s.Fit limits) :
    s'.Fit limits := by
  have closed := Confined.closed (registry.Blames gives) small
  have counts {depth : Nat} : Gives limits depth length _ := (Follows.fixed closed 4).gives
  have reads {depth : Nat} : Gives limits depth (text limits) _ := (Follows.text closed).gives
  cases step with
  | child opens isNode counted chain more =>
    obtain ⟨-, depth, total, fit⟩ := opens.read_eq small keeps fit
    have inside := Confined.record small keeps total .children "node or token"
    exact ⟨depth, total, inside.gives.chain (counts.ok fit counted).1 chain⟩
  | leading opens isToken spelled counted chain more =>
    obtain ⟨-, depth, total, fit⟩ := opens.read_eq small keeps fit
    have trivia := Follows.triviaRecord closed (Confined.record small keeps total)
    have fit' := (counts.ok (reads.ok fit spelled).1 counted).1
    exact ⟨depth, total, trivia.gives.chain fit' chain⟩
  | trailing opens isToken spelled before counted chain more =>
    obtain ⟨-, depth, total, fit⟩ := opens.read_eq small keeps fit
    have inside := Confined.record small keeps total
    have front := Follows.triviaList closed inside
    have fit' := (front.gives.ok (reads.ok fit spelled).1 before).1
    have trivia := Follows.triviaRecord closed inside
    exact ⟨depth, total, trivia.gives.chain (counts.ok fit' counted).1 chain⟩

theorem Step.fails {s s' : Site} {failure : ReadFailure} (step : Step registry limits s s')
    (fit : s.Fit limits) (failed : s'.Fails registry limits failure) :
    s.Fails registry limits failure := by
  cases step with
  | child opens isNode counted chain more =>
    obtain ⟨r', run⟩ := failed
    have children := repeated_eq_error_of_chain chain more run
    refine opens.fails small keeps fit ⟨r', ?_⟩
    rw [contents, nodeContents_eq _ isNode, EStateM.bind_eq_error_iff]
    exact .inl (EStateM.bind_eq_error_iff.2 (.inr ⟨_, _, counted, children⟩))
  | leading opens isToken spelled counted chain more =>
    obtain ⟨r', run⟩ := failed
    have trivia := repeated_eq_error_of_chain chain more run
    refine opens.fails small keeps fit ⟨r', ?_⟩
    rw [contents, tokenContents_eq _ isToken]
    refine (EStateM.bind_of_ok spelled).trans (EStateM.bind_eq_error_iff.2 (.inl ?_))
    exact EStateM.bind_eq_error_iff.2 (.inr ⟨_, _, counted, trivia⟩)
  | trailing opens isToken spelled before counted chain more =>
    obtain ⟨r', run⟩ := failed
    have trivia := repeated_eq_error_of_chain chain more run
    refine opens.fails small keeps fit ⟨r', ?_⟩
    rw [contents, tokenContents_eq _ isToken]
    refine (EStateM.bind_of_ok spelled).trans ((EStateM.bind_of_ok before).trans ?_)
    refine EStateM.bind_eq_error_iff.2 (.inl ?_)
    exact EStateM.bind_eq_error_iff.2 (.inr ⟨_, _, counted, trivia⟩)

theorem fit_of_steps {s s' : Site} (steps : Relation.ReflTransGen (Step registry limits) s s')
    (fit : s.Fit limits) : s'.Fit limits := by
  induction steps with
  | refl => exact fit
  | tail _ step ih => exact step.fit small keeps ih

theorem fails_of_steps {s s' : Site} {failure : ReadFailure}
    (steps : Relation.ReflTransGen (Step registry limits) s s') (fit : s.Fit limits)
    (failed : s'.Fails registry limits failure) : s.Fails registry limits failure := by
  induction steps using Relation.ReflTransGen.head_induction_on with
  | refl => exact failed
  | head step _ ih => exact step.fails small keeps fit (ih (step.fit small keeps fit))

theorem Gathers.fails {s : Site} {h : RecordHeader} {cs : List Element}
    (gathers : s.Gathers registry limits h cs) (fit : s.Fit limits) {c : Element}
    (inside : c ∈ cs) (isTrivia : c.isTrivia = true) :
    s.Fails registry limits (.fault (.triviaChild h.kind)) := by
  obtain ⟨opens, isNode, counted, chain⟩ := gathers
  rename_i levels r r₁ r₂
  have children := repeated_eq_ok_iff.2 ⟨rfl, chain⟩
  have cell : freshCell r₂ = .ok r₂.nextCell { r₂ with nextCell := r₂.nextCell + 1 } := rfl
  refine opens.fails small keeps fit ⟨{ r₂ with nextCell := r₂.nextCell + 1 }, ?_⟩
  rw [contents, nodeContents_eq _ isNode]
  refine (EStateM.bind_of_ok ((EStateM.bind_of_ok counted).trans children)).trans ?_
  refine (EStateM.bind_of_ok cell).trans ?_
  rw [Node.make_eq_triviaChild _ _ _ isNode inside isTrivia]
  rfl

end Registered

end Site

/-- Under scripts that keep their contracts, whatever shapes they give, every sequence of bytes is
read as a sound tree, is refused with an error, or makes a node fault of which a script gave a child
as trivia. A record that can be reached through readers that come with the library decides how all
ends: with the error for an unexpected shape if it stands where trivia have to be and a script gives
no trivia for it, and with the fault if it is read as a node up to the end of its children and one
of them is trivia. -/
theorem read_with_scripts (small : limits.maxOverlayBytes.toNat < OverlayBlock.addressLimit)
    (keeps : registry.Keeps limits gives) (bytes : List UInt8) (cell : Nat) :
    ((∃ t session, tree registry limits { rest := bytes, nextCell := cell } = .ok t session ∧
    t.Sound) ∨
      (∃ e session, tree registry limits { rest := bytes, nextCell := cell } =
        .error (.error e) session) ∨
      ∃ parent child session, tree registry limits { rest := bytes, nextCell := cell } =
        .error (.fault (.triviaChild parent)) session ∧ registry.Clash gives parent child) ∧
    ∀ body s, bytes = streamMagic ++ UInt8.ofNat streamVersion :: body →
      Relation.ReflTransGen (Site.Step registry limits) (.start limits body cell) s →
      (∀ e r, s.place = .trivia → s.read registry limits = .ok e r → e.isTrivia = false →
        ∃ session, tree registry limits { rest := bytes, nextCell := cell } =
          .error (.error (.unexpectedShape "trivia" e.kind)) session) ∧
      ∀ h cs, s.Gathers registry limits h cs → (∃ c ∈ cs, c.isTrivia = true) →
        ∃ session, tree registry limits { rest := bytes, nextCell := cell } =
          .error (.fault (.triviaChild h.kind)) session := by
  refine ⟨read_refused_or_blamed small keeps bytes cell, ?_⟩
  rintro body s rfl steps
  have start := Site.start_fit limits body cell
  have fit : s.Fit limits := Site.fit_of_steps small keeps steps start
  rw [Site.tree_eq]
  refine ⟨fun e r place run shape => ?_, fun h cs gathers ⟨c, inside, isTrivia⟩ => ?_⟩
  · exact Site.fails_of_steps small keeps steps start (Site.fails_of_shape place run shape)
  · exact Site.fails_of_steps small keeps steps start
      (gathers.fails small keeps fit inside isTrivia)

def asBlank (_ : RecordHeader) : Script Element := do
  let text ← Script.request .text
  let blank ← Script.request (.intern .whitespaceTrivia text)
  return .trivia blank

def asName (_ : RecordHeader) : Script Element :=
  Script.make fun cell => Element.token <$> Token.plain cell .ident "x"

theorem follow_asBlank (inner : Inner) (h : RecordHeader) : follow limits inner (asBlank h) = (do
    let text ← text limits
    let blank ← intern .whitespaceTrivia text
    return .trivia blank) := by
  refine (follow_bind (Script.request .text) _).trans ?_
  rw [follow_request]
  refine congrArg (text limits >>= ·) (funext fun text => ?_)
  refine (follow_bind (Script.request (.intern .whitespaceTrivia text)) _).trans ?_
  rw [follow_request]
  rfl

theorem asBlank_keeps (limits : Limits) (h : RecordHeader) :
    (asBlank h).Keeps limits fun e => e.Sound ∧ True := by
  have reads : Request.Harmless .text := trivial
  apply Script.Keeps.bind (.request reads)
  intro text short
  have shares : Request.Harmless (.intern .whitespaceTrivia text) :=
    ⟨rfl, Nat.le_trans short limits.maxStringLength_le⟩
  apply Script.Keeps.bind (.request shares)
  rintro blank ⟨sound, -⟩
  exact .done ⟨.trivia sound, trivial⟩

theorem asName_keeps (limits : Limits) (h : RecordHeader) :
    (asName h).Keeps limits fun e => e.Sound ∧ True := by
  apply Script.Keeps.make
  intro cell
  have made : Token.plain cell .ident "x" =
      .ok ⟨cell, ⟨.ident, {}, 1, .empty⟩, "x", [], [], 0, 0⟩ := rfl
  have sound := ((Token.make_eq_ok_iff (by simp) (by simp) (by simp)).1 made).1
  exact ⟨_, by rw [made]; rfl, .token sound, trivial⟩

def swapped : Registry :=
  (Registry.standard.register .ident (.script asBlank)).register .whitespaceTrivia (.script asName)

theorem swapped_keeps (limits : Limits) : swapped.Keeps limits fun _ _ => True :=
  ((Registry.standard_onlyStandard.keeps limits _).register fun h _ _ =>
    asBlank_keeps limits h).register fun h _ _ => asName_keeps limits h

/-- The record of a comma behind a blank. -/
def blankComma : List UInt8 :=
  [12, 0, 0, 0, 0, 0, 0, 1, 0, 0, 0, 44, 1, 0, 0, 0, 0, 0, 0, 0, 0, 0]

def blankSite : Site where
  place := .trivia
  levels := 511
  session :=
    { rest := [0, 0, 0, 0, 0, 0]
      strings := StringTable.empty.push ","
      depth := 1
      visits := #[⟨.comma, 0⟩] }

def nameInReference : List UInt8 :=
  [45, 0, 0, 0, 0, 0, 1, 0, 0, 0, 25, 0, 0, 0, 0, 0, 0, 1, 0, 0, 0, 120]

def nameSite : Site where
  place := .child
  levels := 511
  session :=
    { rest := [25, 0, 0, 0, 0, 0, 0, 1, 0, 0, 0, 120], depth := 1, visits := #[⟨.nameRef, 0⟩] }

theorem gathers_nameInReference :
    Site.Gathers swapped .standard (.start .standard nameInReference 0)
    ⟨.nameRef, .ofBitsTruncate 0, .empty⟩
    [.trivia ⟨0, ⟨.whitespaceTrivia, .empty, 1, .empty⟩, "x"⟩] := by
  have fit : nameSite.Fit .standard :=
    ⟨1, rfl, ⟨⟨rfl, Interner.sound_empty⟩, fun _ impossible => nomatch impossible⟩⟩
  have below : 1 < Limits.standard.maxDepth.toNat := by decide
  have opens : nameSite.Opens swapped .standard 510 ⟨.ident, .ofBitsTruncate 0, .empty⟩
      (.script asBlank) _ :=
    .mk below rfl rfl rfl rfl rfl
  have read := (opens.read_eq (by decide) (swapped_keeps .standard) fit).1
  rw [contents, follow_asBlank] at read
  have above : 0 < Limits.standard.maxDepth.toNat := by decide
  have around : (Site.start .standard nameInReference 0).Opens swapped .standard 511
      ⟨.nameRef, .ofBitsTruncate 0, .empty⟩ .node _ := .mk above rfl rfl rfl rfl rfl
  exact .mk around rfl rfl (.cons (read.trans rfl) (.nil _))

theorem read_with_scripts_swapped : swapped.Keeps .standard (fun _ _ => True) ∧
    (∃ session, tree swapped .standard
      { rest := streamMagic ++ UInt8.ofNat streamVersion :: blankComma, nextCell := 0 } =
        .error (.error (.unexpectedShape "trivia" .ident)) session) ∧
    ∃ session, tree swapped .standard
      { rest := streamMagic ++ UInt8.ofNat streamVersion :: nameInReference, nextCell := 0 } =
        .error (.fault (.triviaChild .nameRef)) session := by
  have keeps := swapped_keeps .standard
  have step : Site.Step swapped .standard (.start .standard blankComma 0) blankSite :=
    .leading (.mk (by decide) rfl rfl rfl rfl rfl) rfl rfl rfl (.nil _) (by decide)
  have run : ∃ r, blankSite.read swapped .standard =
      .ok (.token ⟨0, ⟨.ident, {}, 1, .empty⟩, "x", [], [], 0, 0⟩) r := ⟨_, rfl⟩
  obtain ⟨r, run⟩ := run
  have comma := (read_with_scripts (by decide) keeps _ 0).2 blankComma blankSite rfl (.single step)
  have reference := (read_with_scripts (by decide) keeps _ 0).2 nameInReference _ rfl .refl
  exact ⟨keeps, comma.1 _ r rfl run rfl,
    reference.2 _ _ gathers_nameInReference ⟨_, .head _, rfl⟩⟩

/-- Scripts that keep their contracts can still make the reader of nodes fault. -/
theorem not_always_refused : ¬∀ (registry : Registry) (limits : Limits) (bytes : List UInt8)
    (cell : Nat),
    limits.maxOverlayBytes.toNat < OverlayBlock.addressLimit →
    registry.Keeps limits (fun _ _ => True) →
      (∃ t session, tree registry limits { rest := bytes, nextCell := cell } = .ok t session) ∨
        ∃ e session, tree registry limits { rest := bytes, nextCell := cell } =
          .error (.error e) session := by
  intro always
  have outcome :=
    always swapped .standard (streamMagic ++ UInt8.ofNat streamVersion :: nameInReference) 0
    (by decide) (swapped_keeps .standard)
  obtain ⟨session, faults⟩ :=
    gathers_nameInReference.fails (by decide) (swapped_keeps .standard)
    (Site.start_fit .standard nameInReference 0) (.head _) rfl
  rw [Site.tree_eq, faults] at outcome
  rcases outcome with ⟨t, session, read⟩ | ⟨e, session, refused⟩
  · cases read
  · cases refused

end GreenTree.Reader
