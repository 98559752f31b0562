import GreenTree.Element

/-!
Outermost terminals. The first terminal of an element is the first token below it that spans any
text; the search follows the cached widths and so never enters an empty part. The trivia before the
first terminal and behind the last one are the outermost trivia of the element.
-/

namespace GreenTree

namespace Element

mutual

/-- The first token that spans any text; a token is its own first terminal. -/
def firstTerminal? : Element → Option Token
  | .node n => firstTerminalIn n.children
  | .token t => some t
  | .trivia _ => none

def firstTerminalIn : List Element → Option Token
  | [] => none
  | c :: cs => if c.spansText then c.firstTerminal? else firstTerminalIn cs

end

mutual

def lastTerminal? : Element → Option Token
  | .node n => lastTerminalIn (fun _ => none) n.children
  | .token t => some t
  | .trivia _ => none

def lastTerminalIn (found : Unit → Option Token) : List Element → Option Token
  | [] => found ()
  | c :: cs =>
    if c.spansText then lastTerminalIn (fun _ => c.lastTerminal?) cs else lastTerminalIn found cs

end

/-- The number of bytes of trivia before the first terminal. -/
def leadingWidth : Element → Nat
  | .node n => ((firstTerminalIn n.children).map Token.leadingWidth).getD 0
  | .token t => t.leadingWidth
  | .trivia _ => 0

def trailingWidth : Element → Nat
  | .node n => ((lastTerminalIn (fun _ => none) n.children).map Token.trailingWidth).getD 0
  | .token t => t.trailingWidth
  | .trivia _ => 0

/-- The number of bytes without the outermost trivia, which must not be wider than everything. -/
def checkedWidth (e : Element) : Except Fault Nat := do
  subSize (← subSize e.fullWidth e.leadingWidth) e.trailingWidth

/-- The number of bytes without the outermost trivia, where these are not wider than everything. -/
def width (e : Element) : Nat := e.fullWidth - e.leadingWidth - e.trailingWidth

theorem checkedWidth_eq_ok_iff {e : Element} {n : Nat} :
    e.checkedWidth = .ok n ↔ e.leadingWidth + n + e.trailingWidth = e.fullWidth := by
  unfold checkedWidth subSize
  by_cases leading : e.leadingWidth ≤ e.fullWidth
  · by_cases trailing : e.trailingWidth ≤ e.fullWidth - e.leadingWidth
    · simp only [if_pos leading, if_pos trailing, bind, Except.bind, Except.ok.injEq]
      omega
    · simp only [if_pos leading, if_neg trailing, bind, Except.bind, reduceCtorEq, false_iff]
      omega
  · simp only [if_neg leading, bind, Except.bind, reduceCtorEq, false_iff]
    omega

end Element

end GreenTree
