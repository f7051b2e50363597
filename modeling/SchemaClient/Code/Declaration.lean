import SchemaClient.Code.Type

/-!
# Declarations of a client module

A module declares interfaces and type aliases, functions that build the URL of a route, and a
registry that exports those functions.
-/

namespace SchemaClient.Code

/-- What a declared name stands for. -/
inductive Shape where
  | interface (bases : List String) (members : List Member)
  | alias (type : Ty)
deriving Inhabited

/-- A declared type. -/
structure Declaration where
  name : String
  doc : Option String
  shape : Shape
deriving Inhabited

/-- The name that a type refers to, if it is a plain reference. -/
def Ty.referenced? : Ty → Option String
  | .ref n => some n
  | _ => none

/-- The names whose members become part of the declared type: the bases of an interface, and the
alternatives of an alias. Types of members do not count. -/
def Declaration.dependencies (d : Declaration) : List String :=
  match d.shape with
  | .interface bases _ => bases
  | .alias (.union ts) => ts.filterMap Ty.referenced?
  | .alias t => t.referenced?.toList

/-- A parameter of a function. -/
structure Parameter where
  name : String
  type : Ty
deriving Inhabited

/-- A piece of a template literal: text as it is, or the value of a parameter. -/
inductive TemplatePart where
  | text (text : String)
  | value (name : String)
deriving DecidableEq, Repr, Inhabited

/-- A function that builds the URL of a route. -/
structure RouteFunction where
  name : String
  doc : Option String
  parameters : List Parameter
  template : List TemplatePart
deriving Inhabited

/-- A function listed in the registry, with the documentation of its route. -/
structure RegistryEntry where
  name : String
  doc : Option String
deriving DecidableEq, Repr, Inhabited

/-- The exported constant that lists the route functions. -/
structure Registry where
  entries : List RegistryEntry
deriving DecidableEq, Repr, Inhabited

namespace Registry

/-- The name of the exported constant. -/
def constantName : String := "ROUTES"

/-- The registry of the given functions, in their order. -/
def ofFunctions (fs : List RouteFunction) : Registry :=
  ⟨fs.map fun f => ⟨f.name, f.doc⟩⟩

end Registry

end SchemaClient.Code
