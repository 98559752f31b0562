import GreenTree.Stream.Tree

/-!
Traces: what writing and reading a stream reports about itself, as lines. Each session is framed by
its name; a trace may leave out the records and keep the summaries.
-/

namespace GreenTree

inductive TraceLevel where
  | debug
  | trace
deriving DecidableEq, Repr

namespace TraceLevel

/-- A session's lines: those of its records if they are wanted, then the last one if it was
successful. -/
def framed (level : TraceLevel) (name : String) (records : List String)
    (summary : Option String) : List String :=
  ["enter " ++ name] ++ (if level = .trace then records else []) ++ summary.toList ++
    ["exit " ++ name]

end TraceLevel

def traceSummary (what : String) (kind : Kind) (records strings : Nat) : String :=
  "DEBUG " ++ what ++ " green tree kind=" ++ kind.name ++ " records=" ++ toString records ++
    " strings=" ++ toString strings

namespace Writer

def traceLines (level : TraceLevel) (root : Element) (w : Writer) (complete : Bool) :
    List String :=
  level.framed "write_tree"
    (w.records.toList.map fun kind => "TRACE write record kind=" ++ kind.name)
    (if complete then some (traceSummary "wrote" root.kind w.records.size w.strings.size)
      else none)

end Writer

namespace Reader

def traceLines (level : TraceLevel) (root : Option Element) (r : Reader) : List String :=
  level.framed "read_tree"
    (r.visits.toList.map fun v =>
      "TRACE read record kind=" ++ v.kind.name ++ " depth=" ++ toString v.depth)
    (root.map fun e => traceSummary "read" e.kind r.visits.size r.strings.size)

end Reader

end GreenTree
