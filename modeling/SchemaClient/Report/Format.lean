import SchemaClient.Failure
import SchemaClient.Report.Pretty

/-!
# Output formats

A report is a JSON value. A command writes it as indented JSON, as JSON on one line, or in a layout
for people.
-/

namespace SchemaClient.Report

/-- How a report is written. -/
inductive Format where
  | json
  | text
  | pretty
deriving DecidableEq, Repr

namespace Format

instance : Inhabited Format := ⟨.pretty⟩

/-- The name of a format. -/
def name : Format → String
  | json => "json"
  | text => "text"
  | pretty => "pretty"

/-- All formats. -/
def all : List Format := [json, text, pretty]

/-- The format of a name, in capitals or not. Outside ASCII no character has a lower case that
occurs in a name. -/
def ofName? (s : String) : Except Failure Format :=
  match all.find? (·.name.toList == s.toList.map Char.toLower) with
  | some f => .ok f
  | none =>
    .error (.invalidArgument
      ("invalid output format: '" ++ s ++ "' (expected: json, text, or pretty)"))

end Format

/-- The text of a report in a format. Only the layout for people may have colours. -/
def render (format : Format) (colours : Bool) (report : Json) : String :=
  match format with
  | .json => report.indented 0
  | .text => report.compact
  | .pretty => pretty colours report

end SchemaClient.Report
