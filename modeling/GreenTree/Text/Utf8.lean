/-!
Text as bytes. Bytes that are no text are refused with the length of the longest part at the front
that is text, and with what stands behind it: the number of bytes that begin a character and are not
continued, or the end of the bytes inside a character.
-/

namespace GreenTree

/-- Where bytes stop being text. `badLength` is the number of bytes that belong together at that
place; it is absent if the bytes end inside a character. -/
structure Utf8Error where
  validUpTo : Nat
  badLength : Option Nat
deriving DecidableEq, Repr

def Utf8Error.message (e : Utf8Error) : String :=
  match e.badLength with
  | some n =>
    "invalid utf-8 sequence of " ++ toString n ++ " bytes from index " ++ toString e.validUpTo
  | none => "incomplete utf-8 byte sequence from index " ++ toString e.validUpTo

namespace Utf8

/-- A place in a text: between characters, or inside one of which `seen` bytes have been read. The
next byte then has to lie from `low` to `high`, and `more` bytes follow that one. -/
inductive Place where
  | between
  | inside (seen : Nat) (low high : UInt8) (more : Nat)
deriving DecidableEq, Repr

def afterLead (b : UInt8) : Option Place :=
  if b < 0x80 then some .between
  else if b < 0xc2 then none
  else if b < 0xe0 then some (.inside 1 0x80 0xbf 0)
  else if b = 0xe0 then some (.inside 1 0xa0 0xbf 1)
  else if b = 0xed then some (.inside 1 0x80 0x9f 1)
  else if b < 0xf0 then some (.inside 1 0x80 0xbf 1)
  else if b = 0xf0 then some (.inside 1 0x90 0xbf 2)
  else if b < 0xf4 then some (.inside 1 0x80 0xbf 2)
  else if b = 0xf4 then some (.inside 1 0x80 0x8f 2)
  else none

def afterNext (seen : Nat) (more : Nat) : Place :=
  match more with
  | 0 => .between
  | more + 1 => .inside (seen + 1) 0x80 0xbf more

/-- Where bytes stop being text, from a place on; `valid` bytes in front of the current character
are text. A text stops at its end. -/
def stopFrom (valid : Nat) : Place → List UInt8 → Utf8Error
  | _, [] => ⟨valid, none⟩
  | .between, b :: bs =>
    match afterLead b with
    | some .between => stopFrom (valid + 1) .between bs
    | some place => stopFrom valid place bs
    | none => ⟨valid, some 1⟩
  | .inside seen low high more, b :: bs =>
    if low ≤ b ∧ b ≤ high then
      match afterNext seen more with
      | .between => stopFrom (valid + seen + 1) .between bs
      | place => stopFrom valid place bs
    else ⟨valid, some seen⟩

def decode (bytes : List UInt8) : Except Utf8Error String :=
  match String.fromUTF8? ⟨bytes.toArray⟩ with
  | some text => .ok text
  | none => .error (stopFrom 0 .between bytes)

def encode (text : String) : List UInt8 := text.toUTF8.data.toList

@[simp] theorem decode_encode (text : String) : decode (encode text) = .ok text := by
  have valid : String.fromUTF8? text.toByteArray = some text := by
    simp [String.fromUTF8?, String.fromUTF8, text.isValidUTF8]
  simp [decode, encode, valid]

theorem encode_of_decode {bytes : List UInt8} {text : String} (h : decode bytes = .ok text) :
    encode text = bytes := by
  unfold decode at h
  split at h
  · rename_i found accepted
    simp only [Except.ok.injEq] at h
    subst h
    simp only [String.fromUTF8?, String.fromUTF8] at accepted
    split at accepted
    · simp only [Option.some.injEq] at accepted
      simp [encode, ← accepted]
    · simp at accepted
  · simp at h

end Utf8

end GreenTree
