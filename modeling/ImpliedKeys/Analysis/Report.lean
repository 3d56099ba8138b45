import ImpliedKeys.Analysis.Findings
import ImpliedKeys.Json.Printer

/-!
# Reports

The findings of an analysis are shown to a reader as lines of text, coloured or not, or given to a
program as JSON.
-/
namespace ImpliedKeys

/-- How a piece of text stands out on a terminal. -/
inductive Emphasis where
  | bold
  | cyan
  | green
  | yellow
  deriving DecidableEq, Inhabited

namespace Emphasis

def opening : Emphasis → List Char
  | bold => "\x1b[1m".toList
  | cyan => "\x1b[36m".toList
  | green => "\x1b[32m".toList
  | yellow => "\x1b[33m".toList

def closing : List Char := "\x1b[0m".toList

/-- A text in which every end of an emphasis is followed by a new beginning. -/
def resumed (e : Emphasis) : List Char → List Char
  | [] => []
  | '\x1b' :: '[' :: '0' :: 'm' :: rest => closing ++ e.opening ++ e.resumed rest
  | c :: rest => c :: e.resumed rest

/-- A text that stands out, if colours are wanted. -/
def paint (e : Emphasis) (coloured : Bool) (s : String) : String :=
  if coloured then String.ofList (e.opening ++ e.resumed s.toList ++ closing) else s

end Emphasis

inductive ReportFormat where
  | text
  | json
  deriving DecidableEq, Inhabited

/-- The result of analysing a schema of a number of tables. -/
structure Report where
  tables : Nat
  findings : Findings
  deriving DecidableEq

namespace Report

def summary (r : Report) : String :=
  toString r.findings.size ++ " weak association(s) (" ++
    toString r.findings.associations.length ++ " column pair(s)) found in " ++
    toString r.tables ++ " table(s)."

def keyText (coloured : Bool) (k : ImpliedKey) : String :=
  Emphasis.cyan.paint coloured k.name ++ "\n" ++
    String.join (k.pairs.map fun a => "  " ++ a.text ++ "\n")

def text (r : Report) (coloured : Bool) : String :=
  let head := Emphasis.bold.paint coloured "=== Weak Associations ===" ++ "\n\n"
  let body := String.join (r.findings.keys.map (keyText coloured))
  if r.findings.keys.isEmpty then
    head ++ body ++ Emphasis.green.paint coloured "✓" ++ " " ++ r.summary
  else head ++ body ++ "\n" ++ Emphasis.yellow.paint coloured "!" ++ " " ++ r.summary

def toJson (r : Report) : Json :=
  .obj [("tables", .int r.tables), ("weak_associations", r.findings.toJson)]

def render (r : Report) (coloured : Bool) : ReportFormat → String
  | .text => r.text coloured
  | .json => r.toJson.pretty

end Report

end ImpliedKeys
