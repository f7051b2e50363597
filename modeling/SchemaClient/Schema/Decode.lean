import SchemaClient.Json.Decode
import SchemaClient.Schema.Inventory

/-!
# Reading schema documents

The JSON form of items, indexes and inventories. An item's definition and the variants of an enum
tell their kind under the key `type`; a definition of another kind is unknown, and what else it
says is not looked at.
-/

namespace SchemaClient.Schema.Decode

open SchemaClient.Json SchemaClient.Json.Decode

/-- The key under which a definition and a variant tell their kind. -/
def kindKey : String := "type"

/-- A record inside a definition: an item too many is a wrong shape. -/
def innerRecord {ρ : Type} (slots : List (Slot ρ)) (initial : ρ) : Decoder ρ :=
  record .mismatch slots initial

/-- A record at the level of the document: an item too many is no JSON of the document. -/
def outerRecord {ρ : Type} (slots : List (Slot ρ)) (initial : ρ) : Decoder ρ :=
  record .malformed slots initial

def field : Decoder Field :=
  innerRecord
    [required "name" string fun s f => { f with name := s },
     defaulted "doc" (optional string) fun s f => { f with doc := s },
     required "field_type" string fun s f => { f with type := s },
     defaulted "flattened" bool fun b f => { f with flattened := b },
     defaulted "nullable" bool fun b f => { f with nullable := b },
     defaulted "ommitable" bool fun b f => { f with omittable := b }]
    ⟨"", none, "", false, false, false⟩

def struct : Decoder Struct :=
  innerRecord [defaulted "fields" (list field) fun fs s => { s with fields := fs }] ⟨[]⟩

def renameRule : Decoder RenameRule :=
  fun v => (string v).map .ofSpelling

/-- The fields that all variants have. -/
def variantSlots : List (Slot Variant) :=
  [required "name" string fun s v => { v with name := s },
   defaulted "doc" (optional string) fun s v => { v with doc := s }]

/-- A variant of a known kind. -/
def variantOf : VariantKind → Decoder Variant
  | .unit => innerRecord variantSlots ⟨"", none, .unit⟩
  | .tuple =>
    innerRecord
      (variantSlots ++ [required "field_type" string fun s v => { v with payload := .tuple s }])
      ⟨"", none, .tuple ""⟩
  | .struct =>
    innerRecord
      (variantSlots ++
        [defaulted "fields" (list field) fun fs v => { v with payload := .struct fs }])
      ⟨"", none, .struct []⟩

/-- The kind of a variant: its name, or its number in the order of declaration. -/
def variantKind : Decoder VariantKind
  | .string (some "unit") => .ok .unit
  | .string (some "tuple") => .ok .tuple
  | .string (some "struct") => .ok .struct
  | .number (some (.integer 0)) => .ok .unit
  | .number (some (.integer 1)) => .ok .tuple
  | .number (some (.integer 2)) => .ok .struct
  | v => .error (refusal v)

def variant : Decoder Variant :=
  tagged kindKey variantKind 0 variantOf

def enumeration : Decoder Enumeration :=
  innerRecord
    [defaulted "tag" (optional string) fun s e => { e with tag := s },
     defaulted "untagged" bool fun b e => { e with untagged := b },
     defaulted "content" (optional string) fun s e => { e with content := s },
     defaulted "rename_all" (optional renameRule) fun r e => { e with renameAll := r },
     defaulted "variants" (list variant) fun vs e => { e with variants := vs }]
    ⟨none, false, none, none, []⟩

def routeParam : Decoder RouteParam :=
  innerRecord
    [required "name" string fun s p => { p with name := s },
     required "param_type" string fun s p => { p with type := s }]
    ⟨"", ""⟩

def route : Decoder Route :=
  innerRecord
    [required "method" string fun s r => { r with method := s },
     required "route" string fun s r => { r with path := s },
     defaulted "path_params" (list routeParam) fun ps r => { r with pathParams := ps },
     defaulted "query_params" (list routeParam) fun ps r => { r with queryParams := ps },
     defaulted "body_type" (optional string) fun s r => { r with bodyType := s },
     defaulted "return_type" (optional string) fun s r => { r with returnType := s },
     defaulted "guards" (list string) fun gs r => { r with guards := gs }]
    ⟨"", "", [], [], none, none, []⟩

/-- A definition of an unknown kind: any object, and an array without further items. -/
def unknownDefinition : Decoder Definition
  | .array (_ :: _) _ => .error .mismatch
  | _ => .ok .unknown

/-- A definition of the kind that its key tells. -/
def definitionOf (kind : String) : Decoder Definition := fun v =>
  match kind with
  | "struct" => (struct v).map .struct
  | "enum" => (enumeration v).map .enum
  | "route" => (route v).map .route
  | _ => unknownDefinition v

/-- A definition at a depth of nesting. -/
def definition (depth : Nat) : Decoder Definition :=
  tagged kindKey string depth definitionOf

/-- An item at a depth of nesting. -/
def item (depth : Nat) : Decoder Item :=
  outerRecord
    [required "name" string fun s i => { i with name := s },
     defaulted "doc" string fun s i => { i with doc := s },
     defaulted "category" string fun s i => { i with category := s },
     defaulted "hidden" bool fun b i => { i with hidden := b },
     defaulted "package" string fun s i => { i with package := s },
     required "item" (definition (depth + 1)) fun d i => { i with definition := d }]
    ⟨"", "", "", false, "", .unknown⟩

def index : Decoder Index :=
  outerRecord
    [required "version" string fun s i => { i with version := s },
     required "items" (list string) fun ps i => { i with items := ps }]
    ⟨"", []⟩

def inventory : Decoder Inventory :=
  outerRecord
    [required "version" string fun s i => { i with version := s },
     required "items" (list (item 2)) fun is i => { i with items := is }]
    ⟨"", []⟩

end SchemaClient.Schema.Decode

namespace SchemaClient.Schema

open SchemaClient.Json SchemaClient.Text

/-- The item of a document. -/
def Item.ofGlyphs? (gs : List Glyph) : Except Cause Item :=
  Json.Decode.text (Decode.item 0) gs

/-- The index of a document. -/
def Index.ofGlyphs? (gs : List Glyph) : Except Cause Index :=
  Json.Decode.text Decode.index gs

/-- The inventory of a document. -/
def Inventory.ofGlyphs? (gs : List Glyph) : Except Cause Inventory :=
  Json.Decode.text Decode.inventory gs

end SchemaClient.Schema
