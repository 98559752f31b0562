import GreenTree.Proofs.Stream.Reading

/-!
Reading does not fault. Whatever the bytes are, a stream is read or refused with an error: the
makers are asked only for what they make or find too wide, the number of open records stays in its
word, and no text is bought that is too long for a buffer, as long as the limit on overlay blocks is
not.
-/

namespace GreenTree

variable {α β : Type}

namespace OverlayBlock

theorem spend_of_le {count : Nat} {s : State} (enough : count ≤ s.budget) (next : Decode α) :
    (do spend count; next) s = next { s with budget := s.budget - count } := by
  have paid : spend count s = .ok () { s with budget := s.budget - count } := by
    unfold spend
    rw [if_pos enough]
  change EStateM.bind (spend count) (fun _ => next) s = _
  rw [EStateM.bind, paid]

theorem spend_of_lt {count : Nat} {s : State} (short : s.budget < count) (next : Decode α) :
    (do spend count; next) s = .error (.error .sizeLimit) s := by
  have refused : spend count s = .error (.error .sizeLimit) s := by
    unfold spend
    rw [if_neg (by omega)]
  change EStateM.bind (spend count) (fun _ => next) s = _
  rw [EStateM.bind, refused]

/-- Whether a decoder that may spend no more than a limit ends without a fault and gets no more to
spend. -/
structure Faultless (limit : Nat) (decode : Decode α) : Prop where
  no_fault : ∀ {s cause s'}, s.budget ≤ limit → decode s ≠ .error (.fault cause) s'
  within : ∀ {s a s'}, s.budget ≤ limit → decode s = .ok a s' → s'.budget ≤ limit

namespace Faultless

variable {limit : Nat}

theorem bind {first : Decode α} {next : α → Decode β} (head : Faultless limit first)
    (tail : ∀ a, Faultless limit (next a)) : Faultless limit (first >>= next) where
  no_fault := by
    intro s cause s' small run
    rcases EStateM.bind_eq_error_iff.1 run with run | ⟨a, t, run, rest⟩
    · exact head.no_fault small run
    · exact (tail a).no_fault (head.within small run) rest
  within := by
    intro s b s' small run
    obtain ⟨a, t, run, rest⟩ := EStateM.bind_eq_ok_iff.1 run
    exact (tail a).within (head.within small run) rest

theorem pure (a : α) : Faultless limit (pure a) where
  no_fault := by
    intro s cause s' small run
    cases run
  within := by
    intro s b s' small run
    cases run
    exact small

theorem refuse (e : OverlayError) : Faultless limit (throw (.error e) : Decode α) where
  no_fault := by
    intro s cause s' small run
    cases run
  within := by
    intro s b s' small run
    cases run

theorem take (count : Nat) : Faultless limit (take count) where
  no_fault := by
    intro s cause s' small run
    unfold OverlayBlock.take at run
    split at run
    · cases run
    · cases run
  within := by
    intro s bytes s' small run
    unfold OverlayBlock.take at run
    split at run
    · cases run
      exact small
    · cases run

theorem paid {count : Nat} {next : Decode α}
    (affordable : count ≤ limit → Faultless limit next) :
    Faultless limit (do spend count; next) where
  no_fault := by
    intro s cause s' small run
    by_cases enough : count ≤ s.budget
    · rw [spend_of_le enough] at run
      have less : s.budget - count ≤ limit := by omega
      exact (affordable (by omega)).no_fault less run
    · rw [spend_of_lt (by omega)] at run
      cases run
  within := by
    intro s a s' small run
    by_cases enough : count ≤ s.budget
    · rw [spend_of_le enough] at run
      have less : s.budget - count ≤ limit := by omega
      exact (affordable (by omega)).within less run
    · rw [spend_of_lt (by omega)] at run
      cases run

theorem text (small : limit < addressLimit) (number : Faultless limit number) :
    Faultless limit text := by
  unfold OverlayBlock.text
  apply bind number
  intro length
  apply paid
  intro affordable
  rw [if_neg (by omega)]
  apply bind (take length)
  intro bytes
  split
  · exact pure _
  · exact refuse _

theorem closed (small : limit < addressLimit) : Closed fun _ => Faultless limit where
  pure := pure
  refuse := refuse
  bind := bind
  fixed := fun width => paid fun _ => bind (take width) fun _ => pure _
  text := text small

end Faultless

end OverlayBlock

namespace Reader

variable {limits : Limits} {depth : Nat} {blame : Fault → Prop}

/-- Whether a reader in a fit session ends with no fault but those that are allowed. -/
def Confined (blame : Fault → Prop) (limits : Limits) (depth : Nat) (reader : Read α) : Prop :=
  ∀ r cause r', r.Fit limits depth → reader r = .error (.fault cause) r' → blame cause

namespace Confined

theorem bind {reader : Read α} {next : α → Read β} {post : α → Prop}
    (gives : Gives limits depth reader post) (head : Confined blame limits depth reader)
    (tail : ∀ a, post a → Confined blame limits depth (next a)) :
    Confined blame limits depth (reader >>= next) := by
  intro r cause r' fit run
  rcases EStateM.bind_eq_error_iff.1 run with run | ⟨a, t, run, rest⟩
  · exact head r cause r' fit run
  · obtain ⟨fit', given⟩ := gives.ok fit run
    exact tail a given t cause r' fit' rest

theorem throw {cause : Fault} (allowed : blame cause) :
    Confined blame limits depth (throw (.fault cause) : Read α) := by
  intro r cause r' fit run
  cases run
  exact allowed

theorem block {decode : OverlayBlock.Decode α}
    (faultless : OverlayBlock.Faultless limits.maxOverlayBytes.toNat decode) :
    Confined blame limits depth (block limits decode) := by
  intro r cause r' fit run
  unfold Reader.block at run
  split at run
  · cases run
  · cases run
  · rename_i decoded
    exact absurd decoded (faultless.no_fault (Nat.le_refl _))

theorem nested {inside : Read α} {post : α → Prop} (small : depth < maxSize)
    (gives : Gives limits (depth + 1) inside post)
    (confined : Confined blame limits (depth + 1) inside) :
    Confined blame limits depth (nested inside) := by
  intro r cause r'' fit run
  rw [nested_eq (gives.stays small fit), outside_eq_fault_iff] at run
  exact confined _ cause r'' fit.deeper run

theorem change (f : Reader → Reader) : Confined blame limits depth (modify f) := by
  intro r cause r' fit run
  cases run

theorem closed (blame : Fault → Prop)
    (small : limits.maxOverlayBytes.toNat < OverlayBlock.addressLimit) :
    Closed limits fun _ => Confined blame limits where
  pure := by
    intro α depth a r cause r' fit run
    cases run
  fail := by
    intro α depth e r cause r' fit run
    cases run
  bind := bind
  look := by
    intro α depth next blind each r cause r' fit run
    exact each r fit r cause r' fit run
  change := fun _ _ _ => change _
  take := by
    intro depth count r cause r' fit run
    unfold Reader.take at run
    split at run
    · cases run
    · cases run
  diagnostics := fun _ => block (OverlayBlock.Faultless.closed small).diagnostics
  annotations := fun _ => block (OverlayBlock.Faultless.closed small).annotations
  record := record_of_nested bind (fun _ _ => change _) nested

end Confined

/-- Under a limit on overlay blocks that a buffer can hold, every sequence of bytes is read as a
tree or refused with an error, and so it is where the whole sequence has to be one. -/
theorem read_or_refused (limits : Limits)
    (small : limits.maxOverlayBytes.toNat < OverlayBlock.addressLimit) (bytes : List UInt8)
    (cell : Nat) :
    ((∃ t session, tree .standard limits { rest := bytes, nextCell := cell } = .ok t session) ∨
      ∃ e session,
        tree .standard limits { rest := bytes, nextCell := cell } = .error (.error e) session) ∧
    ((∃ t, Element.ofBytes cell bytes = .ok t) ∨ ∃ e, Element.ofBytes cell bytes =
      .error (.error e)) := by
  have outcome (limits : Limits)
      (small : limits.maxOverlayBytes.toNat < OverlayBlock.addressLimit) :
      (∃ t session, tree .standard limits { rest := bytes, nextCell := cell } = .ok t session) ∨
        ∃ e session,
          tree .standard limits { rest := bytes, nextCell := cell } =
            .error (.error e) session := by
    cases read : tree .standard limits { rest := bytes, nextCell := cell } with
    | ok t session => exact .inl ⟨t, session, rfl⟩
    | error failure session =>
      cases failure with
      | error e => exact .inr ⟨e, session, rfl⟩
      | fault cause =>
        have confined := (Follows.tree (Confined.closed (fun _ => False) small)
          (.of_only Registry.standard_onlyStandard)).holds
        exact (confined _ cause session (.start limits bytes cell) read).elim
  refine ⟨outcome limits small, ?_⟩
  unfold Element.ofBytes
  rcases outcome .standard (by decide) with ⟨t, session, read⟩ | ⟨e, session, read⟩
  · rw [read]
    dsimp only
    split
    · exact .inl ⟨t, rfl⟩
    · exact .inr ⟨_, rfl⟩
  · rw [read]
    exact .inr ⟨e, rfl⟩

def widestLimits : Limits where
  maxDepth := 4294967295
  maxStringLength := 4294967295
  maxOverlayBytes := 9223372036854775807

theorem read_or_refused_widest :
    widestLimits.maxOverlayBytes.toNat < OverlayBlock.addressLimit ∧
    ((∃ t session, tree .standard widestLimits
          { rest := streamMagic ++ [1, 25, 0, 0, 0, 0, 1, 1, 0, 1, 252], nextCell := 0 } =
        .ok t session) ∨
      ∃ e session, tree .standard widestLimits
          { rest := streamMagic ++ [1, 25, 0, 0, 0, 0, 1, 1, 0, 1, 252], nextCell := 0 } =
        .error (.error e) session) ∧
    ((∃ t, Element.ofBytes 0 (streamMagic ++ [1, 25, 0, 0, 0, 0, 1, 1, 0, 1, 252]) = .ok t) ∨
      ∃ e, Element.ofBytes 0 (streamMagic ++ [1, 25, 0, 0, 0, 0, 1, 1, 0, 1, 252]) =
        .error (.error e)) :=
  ⟨by decide, read_or_refused widestLimits (by decide) _ 0⟩

example : ∃ session, tree .standard { maxOverlayBytes := 9223372036854775820 }
    { rest := streamMagic ++ [1, 25, 0, 0, 0, 0, 1, 1, 0, 1, 253, 0, 0, 0, 0, 0, 0, 0, 128],
      nextCell := 0 } = .error (.fault .capacityOverflow) session :=
  ⟨_, rfl⟩

end Reader

end GreenTree
