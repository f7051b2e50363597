import SchemaClient.Client.Doc
import SchemaClient.Schema.Item
import SchemaClient.Schema.TypeExpr
import SchemaClient.Code.Printer

/-!
# Structs of a module

A struct becomes an interface. A flattened field contributes a base, named by the text of its
type; every other field contributes a member.
-/

namespace SchemaClient.Client

open SchemaClient.Schema SchemaClient.Code

/-- The member that declares a field. -/
def memberOfField (routes : List String) (f : Field) : Member :=
  .mk f.name (TypeExpr.typeOf f.type) f.omittable (f.doc.bind (Doc.render routes))

/-- The bases and the members of an interface. -/
structure Layout where
  bases : List String
  members : List Member

/-- The layout of fields in one pass over them. -/
def layoutOfFields (routes : List String) : List Field → Layout
  | [] => ⟨[], []⟩
  | f :: fs =>
    let rest := layoutOfFields routes fs
    if f.flattened then { rest with bases := (TypeExpr.typeOf f.type).print 0 :: rest.bases }
    else { rest with members := memberOfField routes f :: rest.members }

/-- The bases that fields contribute. -/
def basesOfFields (fields : List Field) : List String :=
  (fields.filter (·.flattened)).map fun f => (TypeExpr.typeOf f.type).print 0

/-- The members that fields contribute: each has the name of its field and the field's type, may be
left out if the field may, and is documented as the field is. -/
def membersOfFields (routes : List String) (fields : List Field) : List Member :=
  (fields.filter (!·.flattened)).map fun f =>
    .mk f.name (TypeExpr.typeOf f.type) f.omittable (f.doc.bind (Doc.render routes))

theorem layoutOfFields_eq (routes : List String) (fields : List Field) :
    layoutOfFields routes fields = ⟨basesOfFields fields, membersOfFields routes fields⟩ := by
  induction fields with
  | nil => rfl
  | cons f fs ih =>
    rw [layoutOfFields, ih]
    by_cases hf : f.flattened = true
    · simp [hf, basesOfFields, membersOfFields]
    · simp [hf, basesOfFields, membersOfFields, memberOfField]

/-- The interface that declares a struct. -/
def declareStruct (routes : List String) (item : Item) (s : Struct) : Declaration where
  name := item.name
  doc := Doc.render routes item.doc
  shape :=
    let layout := layoutOfFields routes s.fields
    .interface layout.bases layout.members

end SchemaClient.Client
