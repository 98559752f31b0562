import GreenTree.Text.Hidden

/-!
Quoted text: a text between double quotes, with the characters that would break or blur it written
as escapes. A quoted text never contains a line break.
-/

namespace GreenTree.Quoted

def hex (n : Nat) : List Char := Nat.toDigits 16 n

def escape (c : Char) : List Char :=
  if c = '\x00' then ['\\', '0']
  else if c = '\t' then ['\\', 't']
  else if c = '\n' then ['\\', 'n']
  else if c = '\r' then ['\\', 'r']
  else if c = '"' then ['\\', '"']
  else if c = '\\' then ['\\', '\\']
  else if isHidden c then ['\\', 'u', '\x7b'] ++ hex c.toNat ++ ['\x7d']
  else [c]

def encode (text : List Char) : List Char := '"' :: text.flatMap escape ++ ['"']

end GreenTree.Quoted

namespace GreenTree

def quoted (text : String) : String := String.ofList (Quoted.encode text.toList)

end GreenTree
