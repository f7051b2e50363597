import SchemaClient.Client.Struct

/-!
# Enums of a module

An enum becomes a union of its variants, each declared on its own. How a variant is declared
depends on whether the enum has a discriminant and a content member, and on what the variant
carries.
-/

namespace SchemaClient.Client

open SchemaClient.Schema SchemaClient.Code

/-- How a variant is declared. -/
inductive VariantShape where
  /-- As an alias of a string literal. -/
  | literalAlias
  /-- As an interface that holds the tag alone. -/
  | tagOnly
  /-- As an interface that holds the tag and the payload under the content member. -/
  | tagWithContent
  /-- As an interface that holds the tag and the variant's fields beside it. -/
  | tagWithInlineFields
  /-- As an interface that holds the tag and the variant's fields under the content member. -/
  | tagWithNestedFields
  /-- Not at all. -/
  | omitted
deriving DecidableEq, Repr

/-- How a variant is declared in an enum with or without a discriminant and a content member. -/
def variantShape (tagged content : Bool) (kind : VariantKind) : VariantShape :=
  match tagged, content, kind with
  | false, _, .unit => .literalAlias
  | false, _, _ => .omitted
  | true, _, .unit => .tagOnly
  | true, false, .tuple => .tagOnly
  | true, true, .tuple => .tagWithContent
  | true, false, .struct => .tagWithInlineFields
  | true, true, .struct => .tagWithNestedFields

/-- The name under which a variant is declared. -/
def variantName (item : Item) (v : Variant) : String :=
  item.name ++ v.name

/-- The literal that stands for a variant. -/
def variantLiteral (e : Enumeration) (v : Variant) : Ty :=
  .literal (renameVariant e.renameAll v.name)

/-- The bases of a variant's interface and its members behind the tag. A payload that does not fit
the shape adds nothing. -/
def layoutOfPayload (routes : List String) : VariantShape → Payload → Option String → Layout
  | .tagWithContent, .tuple type, some c => ⟨[], [.required c (TypeExpr.typeOf type) none]⟩
  | .tagWithInlineFields, .struct fields, _ => layoutOfFields routes fields
  | .tagWithNestedFields, .struct fields, some c =>
    let layout := layoutOfFields routes fields
    ⟨layout.bases, [.required c (.object layout.members) none]⟩
  | _, _, _ => ⟨[], []⟩

/-- The declaration of a variant, if it has one. -/
def declareVariant (routes : List String) (item : Item) (e : Enumeration) (v : Variant) :
    Option Declaration :=
  let shape := variantShape e.discriminant.isSome e.content.isSome v.payload.kind
  let doc := v.doc.bind (Doc.render routes)
  match shape with
  | .omitted => none
  | .literalAlias => some ⟨variantName item v, doc, .alias (variantLiteral e v)⟩
  | _ =>
    e.discriminant.map fun tag =>
      let layout := layoutOfPayload routes shape v.payload e.content
      ⟨variantName item v, none,
        .interface layout.bases (.required tag (variantLiteral e v) doc :: layout.members)⟩

theorem declareVariant_eq_none_iff {routes : List String} {item : Item} {e : Enumeration}
    {v : Variant} : declareVariant routes item e v = none ↔
      variantShape e.discriminant.isSome e.content.isSome v.payload.kind = .omitted := by
  unfold declareVariant
  cases e.discriminant <;> cases e.content <;> cases v.payload <;> simp [variantShape, Payload.kind]

/-- The declarations of an enum. -/
structure EnumDeclarations where
  union : Declaration
  variants : List Declaration
  /-- How many variants have no declaration. -/
  omitted : Nat

/-- The union of an enum, its variants in order; without variants it has no values. -/
def declareUnion (routes : List String) (item : Item) (e : Enumeration) : Declaration where
  name := item.name
  doc := Doc.render routes item.doc
  shape := .alias (match e.variants with
    | [] => .prim .never
    | vs => .union (vs.map fun v => .ref (variantName item v)))

/-- The declarations of an enum's union and variants. -/
def declareEnum (routes : List String) (item : Item) (e : Enumeration) : EnumDeclarations :=
  let declared := e.variants.map (declareVariant routes item e)
  { union := declareUnion routes item e
    variants := declared.filterMap id
    omitted := declared.countP (·.isNone) }

/-- The union, then the variants. -/
def EnumDeclarations.all (d : EnumDeclarations) : List Declaration :=
  d.union :: d.variants

end SchemaClient.Client
