import SchemaClient.Json.Printer
import SchemaClient.Schema.Inventory

/-!
# Writing schema documents

The JSON form of items, indexes and inventories, with every field in the order of its declaration.
The kind of a definition or a variant comes first.
-/

namespace SchemaClient.Schema

open SchemaClient

def Field.toJson (f : Field) : Json :=
  .object
    [("name", .string f.name), ("doc", .optional f.doc), ("field_type", .string f.type),
     ("flattened", .bool f.flattened), ("nullable", .bool f.nullable),
     ("ommitable", .bool f.omittable)]

/-- The entries that say what a variant carries. -/
def Payload.entries : Payload → List (String × Json)
  | .unit => []
  | .tuple type => [("field_type", .string type)]
  | .struct fields => [("fields", .array (fields.map Field.toJson))]

def Variant.toJson (v : Variant) : Json :=
  .object (("type", .string v.payload.kind.name) :: ("name", .string v.name) ::
    ("doc", .optional v.doc) :: v.payload.entries)

def RouteParam.toJson (p : RouteParam) : Json :=
  .object [("name", .string p.name), ("param_type", .string p.type)]

/-- The entries of a definition behind its kind. -/
def Definition.entries : Definition → List (String × Json)
  | .struct s => [("fields", .array (s.fields.map Field.toJson))]
  | .enum e =>
    [("tag", .optional e.tag), ("untagged", .bool e.untagged), ("content", .optional e.content),
     ("rename_all", .optional (e.renameAll.map RenameRule.spelling)),
     ("variants", .array (e.variants.map Variant.toJson))]
  | .route r =>
    [("method", .string r.method), ("route", .string r.path),
     ("path_params", .array (r.pathParams.map RouteParam.toJson)),
     ("query_params", .array (r.queryParams.map RouteParam.toJson)),
     ("body_type", .optional r.bodyType), ("return_type", .optional r.returnType),
     ("guards", .array (r.guards.map .string))]
  | .unknown => []

def Definition.toJson (d : Definition) : Json :=
  .object (("type", .string d.kind) :: d.entries)

def Item.toJson (i : Item) : Json :=
  .object
    [("name", .string i.name), ("doc", .string i.doc), ("category", .string i.category),
     ("hidden", .bool i.hidden), ("package", .string i.package),
     ("item", i.definition.toJson)]

def Index.toJson (i : Index) : Json :=
  .object [("version", .string i.version), ("items", .array (i.items.map .string))]

def Inventory.toJson (i : Inventory) : Json :=
  .object [("version", .string i.version), ("items", .array (i.items.map Item.toJson))]

end SchemaClient.Schema
