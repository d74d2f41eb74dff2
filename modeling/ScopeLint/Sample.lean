import ScopeLint.Linter

/-!
# A sample template

A small component library with two macros, and the report on it.  The macro
`card` misspells its title and reads the loop variable after the loop; the
macro `badge` declares all it reads.
-/

namespace ScopeLint.Sample

private def node (id : Nat) (line column : Int) (shape : Shape Node) : Node :=
  ⟨id, ⟨line, column⟩, shape⟩

private def read (id : Nat) (line column : Int) (word : String) : Node :=
  node id line column (.name word "load")

private def write (id : Nat) (line column : Int) (word : String) : Node :=
  node id line column (.name word "store")

private def parameter (id : Nat) (line column : Int) (title : String) : Node :=
  node id line column (.parameter title none)

private def output (id : Nat) (line column : Int) (value : Node) : Node :=
  node id line column (.output value true)

def card : Node :=
  node 1 1 0 <| .definition "card"
    [parameter 2 1 9 "title", parameter 3 1 16 "items"]
    [node 4 2 0 (.text "<h2>"),
      output 5 2 6 (read 6 2 9 "titel"),
      node 7 3 2 <| .loop .plain (write 8 3 9 "item") (read 9 3 17 "items")
        [output 10 3 31
            (node 11 3 34 (.member (read 12 3 34 "item") "label"))] [] none,
      output 13 4 9 (read 14 4 12 "item")]
    [] none none

def badge : Node :=
  node 15 6 0 <| .definition "badge"
    [parameter 16 6 10 "text"]
    [node 17 6 17 (.assign .plain (write 18 6 24 "css")
        (node 19 6 30 (.literal (.text "badge")))),
      output 20 6 50 (read 21 6 53 "css"),
      output 22 6 62 (read 23 6 65 "text")]
    [] none none

def template : Node :=
  node 0 1 0 (.template [card, badge] (some "components.html"))

/-- The check of the sample, with its findings written to the log. -/
def checked : Checked (List Diagnostic) :=
  Linter.check { sink := some (.logging Sink.defaultLogger) } template none

/-- The report: how many findings there are, and then each of them. -/
def report (colors : Bool) (findings : List Diagnostic) : String :=
  "=== " ++ findings.length.repr ++ " finding(s) ===\n\n" ++
    "\n".intercalate (findings.map (Diagnostic.format colors)) ++ "\n"

end ScopeLint.Sample
