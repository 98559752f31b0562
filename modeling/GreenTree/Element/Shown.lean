import GreenTree.Element

/-!
Elements as they are shown: each shape as a record of what it says about itself, with everything
that it holds inside it.
-/

namespace GreenTree

def Summary.shown (s : Summary) : Shown := .tuple "NodeFlags" [.leaf s.label]

def KindSet.shown (s : KindSet) : Shown := .set (s.toList.map fun k => .leaf k.name)

def Head.shown (h : Head) : Shown :=
  .record "GreenHead"
    [("kind", .leaf h.kind.name), ("flags", h.summary.shown), ("full_width", .number h.fullWidth),
      ("overlay", h.overlay.shown)] false

def Trivia.shown (t : Trivia) : Shown :=
  .record "GreenTrivia"
    [("kind", .leaf t.head.kind.name), ("text", .leaf (quoted t.text)),
      ("flags", t.head.summary.shown)] true

def Token.shown (t : Token) : Shown :=
  .record "GreenToken"
    [("kind", .leaf t.head.kind.name), ("text", .leaf (quoted t.text)),
      ("leading", .list (t.leading.map Trivia.shown)),
      ("trailing", .list (t.trailing.map Trivia.shown)), ("flags", t.head.summary.shown)] true

namespace Element

mutual

def shown : Element → Shown
  | .node n =>
    .tuple "Node"
      [.record "GreenNode"
        [("kind", .leaf n.head.kind.name), ("full_width", .number n.head.fullWidth),
          ("flags", n.head.summary.shown), ("children", .list (shownAll n.children))] true]
  | .token t => .tuple "Token" [t.shown]
  | .trivia t => .tuple "Trivia" [t.shown]

def shownAll : List Element → List Shown
  | [] => []
  | c :: cs => shown c :: shownAll cs

end

end Element

end GreenTree
