import SchemaClient.Json.Printer

/-!
# Templates

A template is text with places for the values of a context, which is a JSON value. A block repeats
its body for each element of a list. Values are written as they are: nothing is escaped. Some names
are kept for helpers, of which only the one that repeats a block is offered with something to be
about.
-/

namespace SchemaClient.Template

/-- What a block is about. -/
inductive Subject where
  /-- The value at a path into the context. -/
  | path (names : List String)
  /-- A number, a text, a truth value or null, which is written out. -/
  | scalar
deriving DecidableEq, Repr

/-- A piece of a template. -/
inductive Piece where
  | text (text : String)
  /-- The value at a path into the context. -/
  | value (path : List String)
  /-- A helper with all that it is about. -/
  | helper (name : String) (subjects : List Subject)
  /-- A block of a helper, and what is written in place of its body if there is nothing to write
  it for. -/
  | block (helper : String) (subject : Option Subject) (body : List Piece)
      (otherwise : Option (List Piece))
deriving Inhabited

/-- The helper whose blocks repeat their body for each element. -/
def eachHelper : String := "each"

/-- The helper whose blocks write their body as it is. -/
def rawHelper : String := "raw"

/-- The names of all helpers. -/
def helpers : List String :=
  [eachHelper, rawHelper, "if", "unless", "with", "lookup", "log", "eq", "ne", "gt", "gte", "lt",
    "lte", "and", "or", "not", "len"]

/-- What a helper writes that has nothing to be about; most helpers need something. -/
def writtenAlone? (helper : String) : Option String :=
  [(rawHelper, ""), ("log", ""), ("and", "true"), ("or", "false")].lookup helper

/-- What a helper writes that has no body. Those that only deal with bodies write nothing then. -/
def written? (helper : String) (subjects : List Subject) : Option String :=
  if subjects.isEmpty then writtenAlone? helper
  else if [eachHelper, rawHelper, "if", "unless", "log"].contains helper then some ""
  else none

/-- The number of an element, if a name is one. -/
def position? (name : String) : Option Nat :=
  let cs := name.toList
  if !cs.isEmpty && cs.all Char.isDigit then
    some (cs.foldl (fun n c => 10 * n + (c.toNat - '0'.toNat)) 0)
  else none

/-- The value under a name inside another one. The elements of an array are named by their
numbers. -/
def member? (v : Json) (name : String) : Option Json :=
  match v with
  | .array vs => (position? name).bind fun n => vs[n]?
  | v => v.get? name

/-- The value at a path into a context. -/
def lookup? (context : Json) (path : List String) : Option Json :=
  path.foldlM member? context

mutual

/-- How a value is written: texts as they are, null as nothing, and the values of an array in
brackets. The inside of an object is not written. -/
def display : Json → String
  | .null => ""
  | .bool b => Json.printBool b
  | .number n => n.print
  | .string s => s
  | .array [] => "[]"
  | .array (v :: vs) => "[" ++ display v ++ displayFurther vs ++ "]"
  | .object _ => "[object]"

/-- The values of an array after the first. -/
def displayFurther : List Json → String
  | [] => ""
  | v :: vs => ", " ++ display v ++ displayFurther vs

end

/-- The values over which a block repeats: the items of an array, or the values of an object. -/
def elements? : Json → Option (List Json)
  | .array vs => some vs
  | .object es => some (es.map (·.2))
  | _ => none

/-- The texts of several values one behind the other. -/
def concatEach (f : Json → Option String) : List Json → Option String
  | [] => some ""
  | v :: vs => do
    let s ← f v
    let r ← concatEach f vs
    return s ++ r

/-- The values over which a block about something repeats. -/
def Subject.elements? (context : Json) : Subject → Option (List Json)
  | .path names => (lookup? context names).bind Template.elements?
  | .scalar => none

mutual

/-- The text of a piece in a context; nothing if the context lacks a value, or a block has no
elements to repeat over. -/
def Piece.render? (context : Json) : Piece → Option String
  | .text s => some s
  | .value path => (lookup? context path).map display
  | .helper name subjects => written? name subjects
  | .block helper subject body otherwise =>
    if helper = eachHelper then
      match subject.map (·.elements? context) with
      | none => none
      | some (some (v :: vs)) => concatEach (fun v => renderAll? v body) (v :: vs)
      | some elements => match otherwise with
        | some pieces => renderAll? context pieces
        | none => elements.map fun _ => ""
    else if helper = rawHelper then renderAll? context body
    else if subject.isNone then writtenAlone? helper
    else none

/-- The text of pieces one behind the other. -/
def renderAll? (context : Json) : List Piece → Option String
  | [] => some ""
  | p :: ps => do
    let s ← p.render? context
    let r ← renderAll? context ps
    return s ++ r

end

end SchemaClient.Template
