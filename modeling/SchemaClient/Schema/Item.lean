import SchemaClient.Text.Case

/-!
# Items of a schema inventory

An inventory lists the items of an API: structs, enums, routes, and items of kinds that this
version does not know. Types are texts such as `Option<Vec<u64>>`.
-/

namespace SchemaClient.Schema

/-- A field of a struct or of a struct variant. -/
structure Field where
  name : String
  doc : Option String
  type : String
  /-- Whether the members of the field's type are merged into the container. -/
  flattened : Bool
  nullable : Bool
  /-- Whether the field may be absent. -/
  omittable : Bool
deriving DecidableEq, Repr, Inhabited

/-- A rule that respells the names of enum variants. A rule of another spelling is kept as it is
written. -/
inductive RenameRule where
  | lower
  | upper
  | pascal
  | camel
  | snake
  | screamingSnake
  | kebab
  | screamingKebab
  | other (spelling : String)
deriving DecidableEq, Repr, Inhabited

namespace RenameRule

/-- The spelling of a rule in a schema. -/
def spelling : RenameRule → String
  | lower => "lowercase"
  | upper => "UPPERCASE"
  | pascal => "PascalCase"
  | camel => "camelCase"
  | snake => "snake_case"
  | screamingSnake => "SCREAMING_SNAKE_CASE"
  | kebab => "kebab-case"
  | screamingKebab => "SCREAMING-KEBAB-CASE"
  | other s => s

/-- The rules with a spelling of their own. -/
def known : List RenameRule :=
  [lower, upper, pascal, camel, snake, screamingSnake, kebab, screamingKebab]

/-- The rule that a spelling names. -/
def ofSpelling (s : String) : RenameRule :=
  (known.find? (·.spelling == s)).getD (other s)

end RenameRule

/-- The name of an enum variant under a rule. Only the rule for capitals with underscores respells
names; the others keep them as they are declared. -/
def renameVariant (rule : Option RenameRule) (name : String) : String :=
  if rule = some .screamingSnake then Text.screamingCase name else name

/-- What a variant of an enum carries. -/
inductive Payload where
  | unit
  | tuple (type : String)
  | struct (fields : List Field)
deriving DecidableEq, Repr, Inhabited

/-- What a variant carries, without the details. -/
inductive VariantKind where
  | unit
  | tuple
  | struct
deriving DecidableEq, Repr, Inhabited

/-- The kind of a payload. -/
def Payload.kind : Payload → VariantKind
  | .unit => .unit
  | .tuple _ => .tuple
  | .struct _ => .struct

/-- The name of a variant's kind. -/
def VariantKind.name : VariantKind → String
  | .unit => "unit"
  | .tuple => "tuple"
  | .struct => "struct"

/-- A variant of an enum. -/
structure Variant where
  name : String
  doc : Option String
  payload : Payload
deriving DecidableEq, Repr, Inhabited

/-- A struct with named fields. -/
structure Struct where
  fields : List Field
deriving DecidableEq, Repr, Inhabited

/-- An enum. `tag` names the member that tells its variants apart and `content` the member that
wraps what they carry. -/
structure Enumeration where
  tag : Option String
  untagged : Bool
  content : Option String
  renameAll : Option RenameRule
  variants : List Variant
deriving DecidableEq, Repr, Inhabited

/-- The member that tells the variants of an enum apart; an untagged enum has none, whatever its
tag. -/
def Enumeration.discriminant (e : Enumeration) : Option String :=
  if e.untagged then none else e.tag

/-- A parameter of a route. -/
structure RouteParam where
  name : String
  type : String
deriving DecidableEq, Repr, Inhabited

/-- An HTTP route. -/
structure Route where
  method : String
  path : String
  pathParams : List RouteParam
  queryParams : List RouteParam
  bodyType : Option String
  returnType : Option String
  guards : List String
deriving DecidableEq, Repr, Inhabited

/-- What an item defines. -/
inductive Definition where
  | struct (s : Struct)
  | enum (e : Enumeration)
  | route (r : Route)
  | unknown
deriving DecidableEq, Repr, Inhabited

/-- The name of an item's kind. -/
def Definition.kind : Definition → String
  | .struct _ => "struct"
  | .enum _ => "enum"
  | .route _ => "route"
  | .unknown => "unknown"

/-- A named item. -/
structure Item where
  name : String
  /-- The documentation, empty for an undocumented item. -/
  doc : String
  category : String
  hidden : Bool
  package : String
  definition : Definition
deriving DecidableEq, Repr, Inhabited

/-- The documentation of an item, unless it is blank. -/
def Item.doc? (i : Item) : Option String :=
  if Text.isBlank i.doc.toList then none else some i.doc

end SchemaClient.Schema
