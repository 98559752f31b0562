import GreenTree.Text.Quoted
import Mathlib.Data.List.Basic

/-!
Quoted text can be read back. An escape says which character it stands for, whatever stands behind
it, and none begins like the closing quote; so where a quoted text ends in a line, and what it
quotes, does not depend on what the text is.
-/

namespace GreenTree

theorem append_inj_of_span {α : Type} {p : α → Prop} {xs ys us vs : List α}
    (left : ∀ x ∈ xs, p x) (right : ∀ y ∈ ys, p y) (leftEnds : ∀ u ∈ us.head?, ¬p u)
    (rightEnds : ∀ v ∈ vs.head?, ¬p v) (same : xs ++ us = ys ++ vs) : xs = ys ∧ us = vs := by
  induction xs generalizing ys with
  | nil =>
    cases ys with
    | nil => exact ⟨rfl, same⟩
    | cons y ys =>
      obtain rfl : us = y :: (ys ++ vs) := same
      exact absurd (right y List.mem_cons_self) (leftEnds y rfl)
  | cons x xs ih =>
    cases ys with
    | nil =>
      obtain rfl : x :: (xs ++ us) = vs := same
      exact absurd (left x List.mem_cons_self) (rightEnds x rfl)
    | cons y ys =>
      obtain ⟨rfl, rest⟩ := List.cons.inj same
      obtain ⟨-, left⟩ := List.forall_mem_cons.1 left
      obtain ⟨-, right⟩ := List.forall_mem_cons.1 right
      obtain ⟨rfl, behind⟩ := ih left right rest
      exact ⟨rfl, behind⟩

namespace Quoted

def digitValue (c : Char) : Nat := if c.toNat < 58 then c.toNat - 48 else c.toNat - 87

def hexValue (digits : List Char) : Nat := digits.foldl (fun n c => n * 16 + digitValue c) 0

private theorem digitValue_digitChar : ∀ d < 16, digitValue d.digitChar = d := by decide

theorem hexValue_hex (n : Nat) : hexValue (hex n) = n := by
  induction n using Nat.strongRecOn with
  | ind n ih =>
    rw [hex, Nat.toDigits_eq_if (by decide)]
    split
    · rename_i small
      simpa [hexValue] using digitValue_digitChar n small
    · rename_i large
      have front := ih (n / 16) (by omega)
      rw [hexValue, List.foldl_append, ← hexValue, ← hex, front, List.foldl_cons,
        List.foldl_nil, digitValue_digitChar _ (Nat.mod_lt n (by decide)), Nat.div_add_mod']

theorem exists_of_mem_hex {n : Nat} {c : Char} (mem : c ∈ hex n) :
    ∃ d < 16, c = d.digitChar := by
  induction n using Nat.strongRecOn with
  | ind n ih =>
    rw [hex, Nat.toDigits_eq_if (by decide)] at mem
    split at mem
    · rename_i small
      exact ⟨n, small, List.mem_singleton.1 mem⟩
    · rename_i large
      rcases List.mem_append.1 mem with mem | mem
      · exact ih (n / 16) (by omega) mem
      · exact ⟨n % 16, Nat.mod_lt n (by decide), List.mem_singleton.1 mem⟩

theorem ne_of_mem_hex {n : Nat} {c : Char} (mem : c ∈ hex n) : c ≠ '\n' ∧ c ≠ '\x7d' := by
  have digits : ∀ d < 16, d.digitChar ≠ '\n' ∧ d.digitChar ≠ '\x7d' := by decide
  obtain ⟨d, small, rfl⟩ := exists_of_mem_hex mem
  exact digits d small

def short (c : Char) : Char :=
  if c = '0' then '\x00' else if c = 't' then '\t' else if c = 'n' then '\n'
    else if c = 'r' then '\r' else c

/-- Reads one character that was escaped, and gives what stands behind it. -/
def unescape : List Char → Option (Char × List Char)
  | '\\' :: 'u' :: cs =>
    some (.ofNat (hexValue (cs.tail.takeWhile (· ≠ '\x7d'))),
      (cs.tail.dropWhile (· ≠ '\x7d')).tail)
  | '\\' :: c :: cs => some (short c, cs)
  | c :: cs => some (c, cs)
  | [] => none

private theorem unescape_hidden (c : Char) (rest : List Char) :
    unescape ('\\' :: 'u' :: '\x7b' :: (hex c.toNat ++ '\x7d' :: rest)) = some (c, rest) := by
  have digits : ∀ d ∈ hex c.toNat, decide (d ≠ '\x7d') = true :=
    fun d mem => decide_eq_true (ne_of_mem_hex mem).2
  rw [unescape, List.tail_cons, List.takeWhile_append_of_pos digits,
    List.dropWhile_append_of_pos digits, List.takeWhile_cons_of_neg (by decide),
    List.dropWhile_cons_of_neg (by decide), List.append_nil, hexValue_hex,
    Char.ofNat_toNat]
  rfl

/-- What was escaped is read back, and what stands behind it is left. -/
theorem unescape_escape (c : Char) (rest : List Char) :
    unescape (escape c ++ rest) = some (c, rest) := by
  unfold escape
  split_ifs with h₁ h₂ h₃ h₄ h₅ h₆ hidden
  · rw [h₁]; rfl
  · rw [h₂]; rfl
  · rw [h₃]; rfl
  · rw [h₄]; rfl
  · rw [h₅]; rfl
  · rw [h₆]; rfl
  · rw [List.append_assoc, List.append_assoc]
    exact unescape_hidden c rest
  · simp [unescape, h₆]

theorem escape_append_inj {c d : Char} {us vs : List Char}
    (same : escape c ++ us = escape d ++ vs) :
    c = d ∧ us = vs := by
  have read := congrArg unescape same
  rw [unescape_escape, unescape_escape] at read
  exact Prod.mk.inj (Option.some.inj read)

theorem exists_of_escape (c : Char) : ∃ x xs, escape c = x :: xs ∧ x ≠ '"' := by
  unfold escape
  split_ifs with h₁ h₂ h₃ h₄ quote
  all_goals first
    | exact ⟨_, _, rfl, quote⟩
    | exact ⟨_, _, rfl, by decide⟩

private theorem flatMap_escape_inj {s t us vs : List Char}
    (same : s.flatMap escape ++ '"' :: us = t.flatMap escape ++ '"' :: vs) : s = t ∧ us = vs := by
  induction s generalizing t with
  | nil =>
    cases t with
    | nil => exact ⟨rfl, (List.cons.inj same).2⟩
    | cons d t =>
      obtain ⟨x, xs, begins, other⟩ := exists_of_escape d
      rw [List.flatMap_cons, begins] at same
      exact absurd (List.cons.inj same).1.symm other
  | cons c s ih =>
    cases t with
    | nil =>
      obtain ⟨x, xs, begins, other⟩ := exists_of_escape c
      rw [List.flatMap_cons, begins] at same
      exact absurd (List.cons.inj same).1 other
    | cons d t =>
      rw [List.flatMap_cons, List.flatMap_cons, List.append_assoc, List.append_assoc] at same
      obtain ⟨rfl, rest⟩ := escape_append_inj same
      obtain ⟨rfl, behind⟩ := ih rest
      exact ⟨rfl, behind⟩

theorem encode_append_inj {s t us vs : List Char} (same : encode s ++ us = encode t ++ vs) :
    s = t ∧ us = vs := by
  rw [encode, encode, List.cons_append, List.cons_append, List.append_assoc, List.append_assoc]
    at same
  exact flatMap_escape_inj (List.cons.inj same).2

theorem newline_not_mem_escape (c : Char) : '\n' ∉ escape c := by
  unfold escape
  split_ifs with h₁ h₂ newline h₄ h₅ h₆ hidden
  · decide
  · decide
  · decide
  · decide
  · decide
  · decide
  · have digits : '\n' ∉ hex c.toNat := fun mem => (ne_of_mem_hex mem).1 rfl
    simp [digits]
  · exact fun mem => newline (List.mem_singleton.1 mem).symm

theorem newline_not_mem_encode (text : List Char) : '\n' ∉ encode text := by
  have inner : '\n' ∉ text.flatMap escape := fun mem => by
    obtain ⟨c, -, here⟩ := List.mem_flatMap.1 mem
    exact newline_not_mem_escape c here
  simp [encode, inner]

end Quoted

end GreenTree
