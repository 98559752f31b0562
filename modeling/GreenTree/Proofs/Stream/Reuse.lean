import GreenTree.Proofs.Stream.Loosening
import GreenTree.Proofs.Stream.Twins

/-!
Sessions that go on after errors. However deep a call fails, the session leaves all records that it
was in, so the next call may go as deep as the first one could. It ends as in a session that begins
there and knows the same texts.
-/

namespace GreenTree.Reader

theorem Twins.afresh {r : Reader} (ready : r.Ready 0) (cell : Nat) :
    Twins 0 r { rest := r.rest, strings := r.strings, nextCell := cell } :=
  ⟨rfl, rfl, ready, ⟨rfl, Interner.sound_empty⟩⟩

/-- In a session with readers for some kinds, whatever calls were answered or refused before: every
call that is answered or refused leaves as many records open as were open before it, which are none;
no record is ever begun where that would exceed the limit, and the number of open records neither
overflows nor goes below zero. The next call is refused with an error, be it for depth or for
another reason, exactly if it is in a new session with the same bytes left and the same texts known,
and it is answered alike and with the same left behind. -/
theorem serve_after_calls (limits : Limits) (kept : KindSet) {bytes : List UInt8} {cell : Nat}
    {requests : List Request} {r : Reader}
    (calls : Chain (Called (Registry.standard.restrict kept) limits)
      { rest := bytes, nextCell := cell } requests r)
    (request : Request) (cell' : Nat) :
    let result := serve (Registry.standard.restrict kept) limits request r
    let afresh := serve (Registry.standard.restrict kept) limits request
      { rest := r.rest, strings := r.strings, nextCell := cell' }
    r.depth = 0 ∧
    (∀ a r', result = .ok a r' → r'.depth = r.depth) ∧
    (∀ e r', result = .error (.error e) r' → r'.depth = r.depth) ∧
    (∀ cause r', result = .error (.fault cause) r' → cause ≠ .sumOverflow ∧
      cause ≠ .differenceOverflow) ∧
    (stateAfter result).depth ≤ limits.maxDepth.toNat ∧
    (∀ v ∈ (stateAfter result).visits, v.depth + 1 ≤ limits.maxDepth.toNat) ∧
    (∀ e, (∃ r', result = .error (.error e) r') ↔ ∃ s, afresh = .error (.error e) s) ∧
    ∀ a r', result = .ok a r' → ∃ b s, afresh = .ok b s ∧
      request.content a = request.content b ∧
      s.rest = r'.rest ∧ s.strings = r'.strings := by
  intro result afresh
  have only := Registry.standard_onlyStandard.restrict kept
  have within : 0 ≤ limits.maxDepth.toNat := Nat.zero_le _
  obtain ⟨fit, before, spent⟩ := spent_of_calls calls only within (.start limits bytes cell)
  have level : r.depth = 0 := fit.depth
  have follows := Pays.serve only within request
  obtain ⟨begun, spent'⟩ := follows.holds.spent fit
  have alike : Alike 0 request.content result afresh :=
    serve_together only limits request _ _ (.afresh fit.toReady cell')
  refine ⟨level, ?_, ?_, ?_, Pays.within follows within fit, ?_, ?_, ?_⟩
  · exact fun a r' run => (follows.gives.ok fit run).1.depth.trans level.symm
  · exact fun e r' run => (follows.gives.error fit run).depth.trans level.symm
  · intro cause r' run
    obtain ⟨-, counts⟩ := follows.holds.fault within fit run
    constructor
    · rintro rfl
      cases counts
    · rintro rfl
      cases counts
  · intro v noted
    have whole := spent.trans level spent'
    have listed : v ∈ before ++ begun := by
      have all := whole.visits
      rw [List.nil_append] at all
      exact all ▸ Array.mem_toList_iff.2 noted
    exact whole.allowed v listed
  · intro e
    generalize result = x, afresh = y at alike
    cases alike with
    | ok _ _ => simp
    | error _ => simp
    | fault => simp
  · intro a r' run
    generalize result = x, afresh = y at alike run
    cases alike with
    | ok same twins =>
      cases run
      exact ⟨_, _, rfl, same, twins.rest, twins.strings⟩
    | error _ => cases run
    | fault => cases run

/-- A comma in a list in a list, which is one record too deep. -/
def nestedComma : List UInt8 :=
  [31, 0, 0, 0, 0, 0, 1, 0, 0, 0, 31, 0, 0, 0, 0, 0, 1, 0, 0, 0] ++
    [12, 0, 0, 0, 0, 0, 0, 1, 0, 0, 0, 44, 0, 0, 0, 0, 0, 0, 0, 0]

theorem serve_after_calls_nestedComma :
    let limits : Limits := { maxDepth := 2 }
    let kept := KindSet.ofList [.listNode, .comma]
    let request : Request := .element .all "green"
    ∃ r, Chain (Called (Registry.standard.restrict kept) limits)
        { rest := nestedComma } [request] r ∧ r.visits.size = 2 ∧
      ∃ a r', serve (Registry.standard.restrict kept) limits request r = .ok a r' ∧
        r'.depth = 0 ∧ ∃ b s, serve (Registry.standard.restrict kept) limits request
          { rest := r.rest, strings := r.strings, nextCell := 9 } = .ok b s ∧
            request.content a = request.content b ∧ s.rest = r'.rest := by
  intro limits kept request
  have read : (
      match serve (Registry.standard.restrict kept) limits request { rest := nestedComma } with
      | .error (.error (.tooDeep 2)) r => r.visits.size == 2 &&
        match serve (Registry.standard.restrict kept) limits request r with
        | .ok _ _ => true
        | .error _ _ => false
      | _ => false) = true := by decide +kernel
  split at read
  · rename_i r refused
    split at read
    · rename_i a r' answered
      have calls : Chain (Called (Registry.standard.restrict kept) limits)
          { rest := nestedComma } [request] r :=
        .cons (.inr ⟨_, refused⟩) (.nil r)
      obtain ⟨level, ok, -, -, -, -, -, again⟩ := serve_after_calls limits kept calls request 9
      obtain ⟨b, s, afresh, same, rest, -⟩ := again a r' answered
      exact ⟨r, calls, by simpa using read, a, r', answered, (ok a r' answered).trans level, b, s,
        afresh, same, rest⟩
    · simp at read
  · cases read

end GreenTree.Reader
