import SchemaClient.Client.Cycle
import SchemaClient.Client.Enum
import SchemaClient.Client.Route
import SchemaClient.Failure
import SchemaClient.Schema.Inventory
import SchemaClient.Template.Collection

/-!
# Client modules

An inventory becomes one module: a header, the structs, the enums, the routes and the registry of
the routes. There is no module for an inventory whose types contain each other.
-/

namespace SchemaClient.Client

open SchemaClient.Schema SchemaClient.Code

/-- How much of an inventory a module declares. -/
structure Stats where
  structs : Nat
  enums : Nat
  variants : Nat
  omittedVariants : Nat
  routes : Nat
  skippedItems : Nat
deriving DecidableEq, Repr, Inhabited

/-- A client module and the file that holds it. -/
structure Module where
  version : String
  fileName : String
  content : String
  stats : Stats
deriving DecidableEq, Repr, Inhabited

/-- The declarations of a module by section, and their numbers. -/
structure Sections where
  structs : List Declaration
  /-- Each enum's union, followed by its variants. -/
  enums : List Declaration
  routes : List RouteFunction
  stats : Stats

namespace Sections

/-- The sections without any declaration. -/
def empty : Sections := ⟨[], [], [], ⟨0, 0, 0, 0, 0, 0⟩⟩

/-- An item is declared at the end of the section of its kind and counted; an unknown one is only
counted. -/
def add (names : List String) (s : Sections) (i : Item) : Sections :=
  match i.definition with
  | .struct d =>
    { s with
      structs := s.structs ++ [declareStruct names i d]
      stats := { s.stats with structs := s.stats.structs + 1 } }
  | .enum e =>
    let d := declareEnum names i e
    { s with
      enums := s.enums ++ d.all
      stats :=
        { s.stats with
          enums := s.stats.enums + 1
          variants := s.stats.variants + d.variants.length
          omittedVariants := s.stats.omittedVariants + d.omitted } }
  | .route r =>
    { s with
      routes := s.routes ++ [declareRoute names i r]
      stats := { s.stats with routes := s.stats.routes + 1 } }
  | .unknown => { s with stats := { s.stats with skippedItems := s.stats.skippedItems + 1 } }

/-- The names of the routes among some items. -/
def linkNames (items : List Item) : List String :=
  (items.filter (·.definition matches .route _)).map (·.name)

/-- The declarations for an inventory, item by item. Links of every documentation lead to the routes
of the whole inventory. -/
def ofInventory (inv : Inventory) : Sections :=
  inv.items.foldl (add (linkNames inv.items)) empty

/-- The declared types: the structs, then the enums. -/
def types (s : Sections) : List Declaration :=
  s.structs ++ s.enums

def registry (s : Sections) : Registry :=
  .ofFunctions s.routes

/-- The line in front of a module. -/
def header : String := "// This file was @generated by typegen"

/-- A part of a module: an empty line, then the part's lines. -/
def entry (text : String) : String :=
  "\n" ++ text

/-- The parts of a module for its template. -/
def context (s : Sections) : Json :=
  .object
    [("header", .string header),
     ("structs", .array (s.structs.map fun d => .string (entry (d.print 0)))),
     ("enums", .array (s.enums.map fun d => .string (entry (d.print 0)))),
     ("routes", .array (s.routes.map fun f => .string (entry (f.print 0)))),
     ("registry", .string (entry (s.registry.print 0)))]

/-- The text of a module; nothing if its template does not take the parts. -/
def content? (s : Sections) : Option String :=
  Template.Collection.initial.render? Template.Collection.moduleName s.context

end Sections

/-- The module for an inventory. -/
def generate (inv : Inventory) : Except Failure Module :=
  let s := Sections.ofInventory inv
  match findCycle? s.types with
  | some chain => .error (.flattenCycle chain)
  | none =>
    match s.content? with
    | some content => .ok ⟨inv.version, inv.fileName, content, s.stats⟩
    | none => .error (.render "the template does not fit the module")

end SchemaClient.Client
