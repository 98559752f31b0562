/-!
Values shown for reading. A shown value is a leaf, a named tuple, a named record, a list or a set;
it is written on one line, or as a block with one part a line and four more blanks for each level.
-/

namespace GreenTree

inductive Shown where
  | leaf (text : String)
  | tuple (name : String) (parts : List Shown)
  /-- A name with named fields; `more` says that other fields are left out. -/
  | record (name : String) (fields : List (String × Shown)) (more : Bool)
  | list (parts : List Shown)
  | set (members : List Shown)

namespace Shown

def option : Option Shown → Shown
  | none => .leaf "None"
  | some s => .tuple "Some" [s]

def number (n : Nat) : Shown := .leaf (toString n)

def truth (b : Bool) : Shown := .leaf (if b then "true" else "false")

mutual

def line : Shown → String
  | .leaf text => text
  | .tuple name [] => name
  | .tuple name (part :: parts) =>
    name ++ "(" ++ ", ".intercalate (line part :: lines parts) ++ ")"
  | .record name [] more => if more then name ++ " \x7b .. \x7d" else name
  | .record name (field :: fields) more =>
    name ++ " \x7b " ++
      ", ".intercalate ((field.1 ++ ": " ++ line field.2) :: fieldLines fields ++
        (if more then [".."] else [])) ++ " \x7d"
  | .list parts => "[" ++ ", ".intercalate (lines parts) ++ "]"
  | .set members => "\x7b" ++ ", ".intercalate (lines members) ++ "\x7d"

def lines : List Shown → List String
  | [] => []
  | part :: parts => line part :: lines parts

def fieldLines : List (String × Shown) → List String
  | [] => []
  | (name, value) :: fields => (name ++ ": " ++ line value) :: fieldLines fields

end

def indent (depth : Nat) : String := String.ofList (List.replicate (4 * depth) ' ')

def enclose (depth : Nat) (opening closing : String) (parts : List String) : String :=
  opening ++ "\n" ++ String.join (parts.map fun part => indent (depth + 1) ++ part ++ "\n") ++
    indent depth ++ closing

mutual

/-- The value as a block that begins `depth` levels down. -/
def block (depth : Nat) : Shown → String
  | .leaf text => text
  | .tuple name [] => name
  | .tuple name (part :: parts) =>
    enclose depth (name ++ "(") ")" ((block (depth + 1) part ++ ",") :: blocks (depth + 1) parts)
  | .record name [] more => if more then name ++ " \x7b .. \x7d" else name
  | .record name (field :: fields) more =>
    enclose depth (name ++ " \x7b") "\x7d"
      ((field.1 ++ ": " ++ block (depth + 1) field.2 ++ ",") :: fieldBlocks (depth + 1) fields ++
        (if more then [".."] else []))
  | .list [] => "[]"
  | .list (part :: parts) =>
    enclose depth "[" "]" ((block (depth + 1) part ++ ",") :: blocks (depth + 1) parts)
  | .set [] => "\x7b\x7d"
  | .set (part :: parts) =>
    enclose depth "\x7b" "\x7d" ((block (depth + 1) part ++ ",") :: blocks (depth + 1) parts)

def blocks (depth : Nat) : List Shown → List String
  | [] => []
  | part :: parts => (block depth part ++ ",") :: blocks depth parts

def fieldBlocks (depth : Nat) : List (String × Shown) → List String
  | [] => []
  | (name, value) :: fields =>
    (name ++ ": " ++ block depth value ++ ",") :: fieldBlocks depth fields

end

end Shown

end GreenTree
