import GreenTree.Proofs.Stream.Nesting

/-!
What readers from outside can do. A script keeps its contracts if it raises no fault of its own,
whatever it is answered, and says in the end that the record is some sound element; the element may
be of any kind and shape. A registry is blamed for a fault only where a script may give trivia for a
record under a node.
-/

namespace GreenTree

/-- What a session can answer. Elements are sound, but a script may have given another one than the
kind promised. -/
def Request.CanAnswer (limits : Limits) : (request : Request) → request.Answer → Prop
  | .byte => fun (n : Nat) => n < Bytes.capacity 1
  | .half => fun (n : Nat) => n < Bytes.capacity 2
  | .word | .length => fun (n : Nat) => n < Bytes.capacity 4
  | .flag => fun _ => True
  | .text => fun (text : String) => text.utf8ByteSize ≤ limits.maxStringLength.toNat
  | .diagnostics => fun (diagnostics : List Diagnostic) => Overlay.Addressable { diagnostics }
  | .annotations => fun (annotations : List Annotation) => Overlay.Addressable { annotations }
  | .element _ _ => fun (e : Element) => e.Sound
  | .trivia => fun (t : Trivia) => t.Sound
  | .intern kind content =>
    fun (t : Trivia) => t.Sound ∧ t.blueprint = ⟨kind, content, .empty⟩

/-- Whether a request keeps its contract: only trivia of an allowed size can be shared. -/
def Request.Harmless : Request → Prop
  | .intern kind content => kind.isTrivia = true ∧ content.utf8ByteSize ≤ maxSize
  | _ => True

/-- Whether a script keeps its contracts, whatever a session can answer, and what it gives has a
property. -/
inductive Script.Keeps {α : Type} (limits : Limits) (post : α → Prop) : Script α → Prop
  | done {a : α} : post a → Keeps limits post (.done a)
  | fail (e : ReadError) : Keeps limits post (.fail (.error e))
  | ask {request : Request} {next : Except ReadError request.Answer → Script α} :
      request.Harmless →
      (∀ a, request.CanAnswer limits a → Keeps limits post (next (.ok a))) →
      (∀ e, Keeps limits post (next (.error e))) → Keeps limits post (.ask request next)
  | cell {next : Nat → Script α} : (∀ cell, Keeps limits post (next cell)) →
      Keeps limits post (.cell next)

namespace Script.Keeps

variable {α β : Type} {limits : Limits} {post : α → Prop}

theorem bind {script : Script α} {next : α → Script β} {post' : β → Prop}
    (first : script.Keeps limits post) (second : ∀ a, post a → (next a).Keeps limits post') :
    (script.bind next).Keeps limits post' := by
  induction first with
  | done given => exact second _ given
  | fail e => exact .fail e
  | ask harmless _ _ answered refused => exact .ask harmless answered refused
  | cell _ ih => exact .cell ih

theorem request {r : Request} (harmless : r.Harmless) :
    (Script.request r).Keeps limits (r.CanAnswer limits) :=
  .ask harmless (fun _ possible => .done possible) fun e => .fail e

theorem make {new : Nat → Except Fault α} (ok : ∀ cell, ∃ a, new cell = .ok a ∧ post a) :
    (Script.make new).Keeps limits post := by
  refine .cell fun cell => ?_
  obtain ⟨a, made, given⟩ := ok cell
  rw [made]
  exact .done given

end Script.Keeps

namespace Registry

def Keeps (registry : Registry) (limits : Limits) (gives : Kind → Element → Prop) : Prop :=
  ∀ kind script, registry.find? kind = some (.script script) →
    ∀ h : RecordHeader, h.kind = kind →
    h.overlay.Addressable → (script h).Keeps limits fun e => e.Sound ∧ gives kind e

theorem Keeps.register {registry : Registry} {limits : Limits} {gives : Kind → Element → Prop}
    (keeps : registry.Keeps limits gives) {kind : Kind} {script : RecordHeader → Script Element}
    (script_keeps : ∀ h : RecordHeader, h.kind = kind → h.overlay.Addressable →
      (script h).Keeps limits fun e => e.Sound ∧ gives kind e) :
    (registry.register kind (.script script)).Keeps limits gives := by
  intro k other found h same readable
  by_cases this : k = kind
  · subst this
    have found : some (RecordReader.script script) = some (.script other) := by
      simpa [Registry.register] using found
    obtain rfl := RecordReader.script.inj (Option.some.inj found)
    exact script_keeps h same readable
  · have found : registry.find? k = some (.script other) := by
      simpa [Registry.register, this] using found
    exact keeps k other found h same readable

def OnlyStandard (registry : Registry) : Prop :=
  ∀ kind reader, registry.find? kind = some reader → reader = .standard kind

theorem standard_onlyStandard : standard.OnlyStandard := by
  intro kind reader found
  exact (Option.some.inj found).symm

theorem OnlyStandard.no_script {registry : Registry} (only : registry.OnlyStandard) {kind : Kind}
    {script : RecordHeader → Script Element} : registry.find? kind ≠ some (.script script) := by
  intro found
  have standard := only kind _ found
  rcases kind.class_cases with ⟨isTrivia, -, -⟩ | ⟨-, isToken, -⟩ | ⟨-, -, isNode⟩
  · rw [RecordReader.standard_of_isTrivia isTrivia] at standard
    cases standard
  · rw [RecordReader.standard_of_isToken isToken] at standard
    cases standard
  · rw [RecordReader.standard_of_isNode isNode] at standard
    cases standard

theorem OnlyStandard.keeps {registry : Registry} (only : registry.OnlyStandard) (limits : Limits)
    (gives : Kind → Element → Prop) : registry.Keeps limits gives :=
  fun _ _ found => absurd found only.no_script

def CanGive (registry : Registry) (gives : Kind → Element → Prop) (kind : Kind)
    (e : Element) : Prop :=
  e.isTrivia = kind.isTrivia ∨
    ∃ script, registry.find? kind = some (.script script) ∧ gives kind e

/-- Whether the kind of a parent has the reader of nodes that comes with the library, while a script
may give trivia for a record of the kind of a child, which can stand under a node. -/
structure Clash (registry : Registry) (gives : Kind → Element → Prop)
    (parent child : Kind) : Prop where
  isNode : parent.isNode = true
  own : registry.find? parent = some .node
  below : child.isTrivia = false
  trivia : ∃ script e, registry.find? child = some (.script script) ∧ gives child e ∧
    e.isTrivia = true

/-- The only fault to which a registry can give rise whose scripts keep their contracts. -/
def Blames (registry : Registry) (gives : Kind → Element → Prop) (cause : Fault) : Prop :=
  ∃ parent child, cause = .triviaChild parent ∧ registry.Clash gives parent child

end Registry

end GreenTree
