import SchemaClient.Template.Reader

/-!
# Collections of templates

A collection holds templates by name. One of them is there from the start: it arranges the parts
of a client module.
-/

namespace SchemaClient.Template

/-- Templates by name, the latest first. -/
structure Collection where
  templates : List (String × List Piece)

namespace Collection

/-- The name of the template of a client module. -/
def moduleName : String := "module"

/-- The block that writes the elements of a list one behind the other. -/
def eachOf (name : String) : Piece :=
  .block eachHelper (some (.path [name])) [.value []] none

/-- The template of a client module: the header and, behind a line feed, the structs, the enums,
the routes and the registry. -/
def moduleTemplate : List Piece :=
  [.value ["header"], .text "\n", eachOf "structs", eachOf "enums", eachOf "routes",
    .value ["registry"]]

/-- The collection that holds the template of a client module alone. -/
def initial : Collection := ⟨[(moduleName, moduleTemplate)]⟩

/-- The collection with a template under a name, in place of an earlier one; nothing if the text is
no template. -/
def register? (c : Collection) (name text : String) : Option Collection :=
  (ofString? text).map fun t => ⟨(name, t) :: c.templates⟩

/-- The text of a template in a context; nothing if there is no such template or it does not fit
the context. -/
def render? (c : Collection) (name : String) (context : Json) : Option String := do
  renderAll? context (← c.templates.lookup name)

end Collection

end SchemaClient.Template
