import GreenTree.Element.Walk

/-!
Outlines: one line for each element in source order, two blanks deeper for each level. A line gives
the kind and width, the text of a leaf, and what is to be known about the element.
-/

namespace GreenTree

/-- An outline under construction: the lines so far, the level, and the side of a token that is
being written. -/
structure Outline where
  text : String := ""
  depth : Nat := 0
  side : String := ""

namespace Outline

def entry (head : Head) (text : Option String) : String :=
  head.kind.name ++ "@" ++ toString head.fullWidth ++
    (match text with
      | some s => " " ++ quoted s
      | none => "") ++
    (if head.summary.missing then " missing" else "") ++
    (if head.summary.skippedText then " skipped" else "") ++
    (if head.overlay.diagnostics.isEmpty then ""
      else " diagnostics=[" ++
        ", ".intercalate (head.overlay.diagnostics.map fun d => d.code.label) ++ "]") ++
    (if head.overlay.annotations.isEmpty then ""
      else " annotations=" ++ toString head.overlay.annotations.length)

def line (head : Head) (text : Option String) (o : Outline) : Outline :=
  { o with
    text := o.text ++ String.ofList (List.replicate (2 * o.depth) ' ') ++ o.side ++
      entry head text ++ "\n" }

def walker : Walker (StateM Outline) where
  node n children := do
    modify (line n.head none)
    modify fun o => { o with depth := o.depth + 1 }
    children
    modify fun o => { o with depth := o.depth - 1 }
  token t leading trailing := do
    modify (line t.head (some t.text))
    modify fun o => { o with depth := o.depth + 1, side := "leading " }
    leading
    modify fun o => { o with side := "trailing " }
    trailing
    modify fun o => { o with depth := o.depth - 1, side := "" }
  trivia t := modify (line t.head (some t.text))

end Outline

def Element.outline (e : Element) : String := ((Outline.walker.walk e).run {}).2.text

end GreenTree
