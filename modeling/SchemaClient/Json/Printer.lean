import SchemaClient.Json.Value
import SchemaClient.Text.Space

/-!
# Printing JSON

A JSON value is written on one line without spaces, or indented by two spaces a level. Strings
escape quotes, backslashes and control characters and nothing else.
-/

namespace SchemaClient.Json

/-- The hexadecimal digit of a number below 16, in lower case. -/
def hexDigit (n : Nat) : Char :=
  Nat.digitChar n

/-- A character inside a JSON string. -/
def escapeChar (c : Char) : List Char :=
  if c = '"' then ['\\', '"']
  else if c = '\\' then ['\\', '\\']
  else if c = '\x08' then ['\\', 'b']
  else if c = '\t' then ['\\', 't']
  else if c = '\n' then ['\\', 'n']
  else if c = '\x0c' then ['\\', 'f']
  else if c = '\r' then ['\\', 'r']
  else if c.toNat < 0x20 then
    ['\\', 'u', '0', '0', hexDigit (c.toNat / 16), hexDigit (c.toNat % 16)]
  else [c]

/-- The JSON string of a text. -/
def quote (s : String) : String :=
  "\"" ++ String.ofList (s.toList.flatMap escapeChar) ++ "\""

/-- An exponent, which always has a sign. -/
def printExponent (e : Int) : String :=
  "e" ++ (if e < 0 then "-" else "+") ++ toString e.natAbs

/-- How a floating point number is written: as digits with a point while the point stands within
16 places in front of the digits' end or up to five places in front of their beginning, and with
an exponent otherwise. -/
def Binary64.print (x : Binary64) : String :=
  if x.mantissa = 0 then "0.0"
  else
    let (d, p) := x.shortest
    let digits := Nat.toDigits 10 d
    let point : Int := digits.length + p
    if 0 ≤ p ∧ point ≤ 16 then
      String.ofList (digits ++ List.replicate p.toNat '0') ++ ".0"
    else if 0 < point ∧ point ≤ 16 then
      String.ofList (digits.take point.toNat) ++ "." ++ String.ofList (digits.drop point.toNat)
    else if -5 < point ∧ point ≤ 0 then
      "0." ++ String.ofList (List.replicate (-point).toNat '0' ++ digits)
    else
      let exponent := printExponent (point - 1)
      match digits with
      | [d] => String.ofList [d] ++ exponent
      | ds => String.ofList (ds.take 1) ++ "." ++ String.ofList (ds.drop 1) ++ exponent

/-- The text of a number. -/
def Number.print : Number → String
  | .integer i => toString i
  | .float negative x => (if negative then "-" else "") ++ x.print

/-- The text of a truth value. -/
def printBool (b : Bool) : String :=
  if b then "true" else "false"

mutual

/-- The value on one line without spaces. -/
def compact : Json → String
  | .null => "null"
  | .bool b => printBool b
  | .number n => n.print
  | .string s => quote s
  | .array [] => "[]"
  | .array (v :: vs) => "[" ++ v.compact ++ compactItems vs ++ "]"
  | .object [] => "\x7b\x7d"
  | .object ((k, v) :: es) => "\x7b" ++ quote k ++ ":" ++ v.compact ++ compactEntries es ++ "\x7d"

/-- The items after the first. -/
def compactItems : List Json → String
  | [] => ""
  | v :: vs => "," ++ v.compact ++ compactItems vs

/-- The entries after the first. -/
def compactEntries : List (String × Json) → String
  | [] => ""
  | (k, v) :: es => "," ++ quote k ++ ":" ++ v.compact ++ compactEntries es

end

/-- The beginning of a line at a level, behind the end of the line in front of it. -/
def newline (level : Nat) : String :=
  "\n" ++ Text.indent level

mutual

/-- The value with each item and entry on a line of its own; `level` is that of the line on which
the value begins. -/
def indented (level : Nat) : Json → String
  | .null => "null"
  | .bool b => printBool b
  | .number n => n.print
  | .string s => quote s
  | .array [] => "[]"
  | .array (v :: vs) =>
    "[" ++ newline (level + 1) ++ v.indented (level + 1) ++ indentedItems (level + 1) vs ++
      newline level ++ "]"
  | .object [] => "\x7b\x7d"
  | .object ((k, v) :: es) =>
    "\x7b" ++ newline (level + 1) ++ quote k ++ ": " ++ v.indented (level + 1) ++
      indentedEntries (level + 1) es ++ newline level ++ "\x7d"

/-- The items after the first. -/
def indentedItems (level : Nat) : List Json → String
  | [] => ""
  | v :: vs => "," ++ newline level ++ v.indented level ++ indentedItems level vs

/-- The entries after the first. -/
def indentedEntries (level : Nat) : List (String × Json) → String
  | [] => ""
  | (k, v) :: es =>
    "," ++ newline level ++ quote k ++ ": " ++ v.indented level ++ indentedEntries level es

end

end SchemaClient.Json
