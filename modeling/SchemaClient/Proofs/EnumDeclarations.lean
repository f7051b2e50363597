import Mathlib.Data.List.Forall2
import Mathlib.Tactic.Lemma
import SchemaClient.Client.Enum

/-!
# The declarations of enums

An enum with a discriminant declares every variant as an interface that begins with the tag, and
what a variant carries stands in one place of it. An enum without a discriminant declares its unit
variants alone. Either way the declarations follow the order in which the union lists the variants.
-/

namespace SchemaClient.Client
open SchemaClient.Schema SchemaClient.Code

variable (routes : List String) (item : Item) (e : Enumeration)

lemma variants_declareEnum : (declareEnum routes item e).variants =
    e.variants.filterMap (declareVariant routes item e) := by
  rw [declareEnum, List.filterMap_map]
  rfl

lemma omitted_declareEnum : (declareEnum routes item e).omitted =
    e.variants.countP fun v => (declareVariant routes item e v).isNone := by
  rw [declareEnum, List.countP_map]
  rfl

lemma length_filterMap_add_countP {α β : Type} (f : α → Option β) (l : List α) :
    (l.filterMap f).length + l.countP (fun a => (f a).isNone) = l.length := by
  rw [List.length_filterMap_eq_countP, List.length_eq_countP_add_countP (fun a => (f a).isSome)]
  congr 2
  funext a
  cases f a <;> rfl

/-! ### Enums with a discriminant -/

/-- What stands beside the tag in the interface of a variant: its bases and its further members. A
payload in a member of its own keeps the flattened fields out of that member. -/
inductive Carries : Option String → Payload → List String → List Member → Prop
  | unit (content : Option String) : Carries content .unit [] []
  | tupleDropped (type : String) : Carries none (.tuple type) [] []
  | tupleUnder (c type : String) :
    Carries (some c) (.tuple type) [] [.mk c (TypeExpr.typeOf type) false none]
  | fieldsBeside (fields : List Field) :
    Carries none (.struct fields) (basesOfFields fields) (membersOfFields routes fields)
  | fieldsUnder (c : String) (fields : List Field) :
    Carries (some c) (.struct fields) (basesOfFields fields)
      [.mk c (.object (membersOfFields routes fields)) false none]

/-- The shape that is chosen for a variant fits its payload, so nothing of it gets lost. -/
lemma carries_layoutOfPayload (content : Option String) (payload : Payload) :
    let layout := layoutOfPayload routes (variantShape true content.isSome payload.kind) payload
      content
    Carries routes content payload layout.bases layout.members := by
  cases payload with
  | unit => exact .unit content
  | tuple type =>
    cases content with
    | none => exact .tupleDropped type
    | some c => exact .tupleUnder c type
  | struct fields =>
    cases content with
    | none =>
      simp only [Option.isSome_none, Payload.kind, variantShape, layoutOfPayload, layoutOfFields_eq]
      exact .fieldsBeside fields
    | some c =>
      simp only [Option.isSome_some, Payload.kind, variantShape, layoutOfPayload, layoutOfFields_eq]
      exact .fieldsUnder c fields

lemma carries_beside_iff (other : Item) (fields : List Field) (bases : List String)
    (members : List Member) : Carries routes none (.struct fields) bases members ↔
      (declareStruct routes other ⟨fields⟩).shape = .interface bases members := by
  simp only [declareStruct, layoutOfFields_eq, Shape.interface.injEq]
  constructor
  · rintro ⟨⟩
    exact ⟨rfl, rfl⟩
  · rintro ⟨rfl, rfl⟩
    exact .fieldsBeside fields

lemma variantShape_of_tag (content : Bool) (kind : VariantKind) :
    variantShape true content kind ≠ .omitted ∧ variantShape true content kind ≠ .literalAlias := by
  cases content <;> cases kind <;> decide

/-- The declaration is an interface without a comment that begins with the required tag, and the
tag's type is the literal of the variant. -/
def IsTaggedBy (tag : String) (v : Variant) (d : Declaration) : Prop :=
  ∃ bases members, Carries routes e.content v.payload bases members ∧
    d = ⟨item.name ++ v.name, none, .interface bases
      (.mk tag (.literal (renameVariant e.renameAll v.name)) false
        (v.doc.bind (Doc.render routes)) :: members)⟩

lemma exists_declareVariant_of_tag {tag : String} (h : e.discriminant = some tag) (v : Variant) :
    ∃ d, declareVariant routes item e v = some d ∧ IsTaggedBy routes item e tag v d := by
  have hcarries := carries_layoutOfPayload routes e.content v.payload
  refine ⟨_, ?_, _, _, hcarries, rfl⟩
  rw [declareVariant, h, Option.isSome_some]
  dsimp only
  obtain ⟨homitted, halias⟩ := variantShape_of_tag e.content.isSome v.payload.kind
  split
  · next hshape => exact absurd hshape homitted
  · next hshape => exact absurd hshape halias
  · rfl

lemma forall₂_filterMap {α β : Type} {f : α → Option β} {R : α → β → Prop}
    (h : ∀ a, ∃ b, f a = some b ∧ R a b) (l : List α) : List.Forall₂ R l (l.filterMap f) := by
  induction l with
  | nil => exact .nil
  | cons a l ih =>
    obtain ⟨b, hb, hR⟩ := h a
    rw [List.filterMap_cons_some hb]
    exact .cons hR ih

/-- An enum with a discriminant declares each variant in turn as an interface that begins with the
tag. What the variant carries stands behind the tag or in the bases, and fields that are not put
under a content member stand as they do in a struct. -/
theorem declareEnum_tagged {tag : String} (h : e.discriminant = some tag) :
    List.Forall₂ (IsTaggedBy routes item e tag) e.variants (declareEnum routes item e).variants ∧
      ∀ (other : Item) (fields : List Field) (bases : List String) (members : List Member),
        Carries routes none (.struct fields) bases members ↔
          (declareStruct routes other ⟨fields⟩).shape = .interface bases members := by
  refine ⟨?_, carries_beside_iff routes⟩
  rw [variants_declareEnum]
  exact forall₂_filterMap (exists_declareVariant_of_tag routes item e h) e.variants

/-- An adjacently tagged enum with variants of each kind and a flattened field. -/
def sampleEnumeration : Enumeration where
  tag := some "type"
  untagged := false
  content := some "d"
  renameAll := some .screamingSnake
  variants :=
    [⟨"SignedOut", some "Gone.", .unit⟩,
     ⟨"Sent", none, .tuple "Vec<Message>"⟩,
     ⟨"RateLimited", none, .struct
       [⟨"retry_after", none, "u64", false, false, true⟩,
        ⟨"base", none, "Base", true, false, false⟩,
        ⟨"reason", some "Why.", "Option<String>", false, true, false⟩]⟩]

theorem declareEnum_tagged_sampleEnumeration :
    sampleEnumeration.discriminant = some "type" ∧
      List.Forall₂ (IsTaggedBy [] default sampleEnumeration "type") sampleEnumeration.variants
        (declareEnum [] default sampleEnumeration).variants ∧
      ∀ (other : Item) (fields : List Field) (bases : List String) (members : List Member),
        Carries [] none (.struct fields) bases members ↔
          (declareStruct [] other ⟨fields⟩).shape = .interface bases members :=
  ⟨rfl, declareEnum_tagged [] default sampleEnumeration rfl⟩

/-! ### Union and variants of any enum -/

/-- Whether a variant has a declaration of its own. -/
def isDeclared (v : Variant) : Bool :=
  v.payload.kind == .unit || e.discriminant.isSome

lemma isSome_declareVariant (v : Variant) :
    (declareVariant routes item e v).isSome = isDeclared e v := by
  rw [Bool.eq_iff_iff, Option.isSome_iff_ne_none, ne_eq, declareVariant_eq_none_iff, isDeclared]
  cases e.discriminant <;> cases e.content <;> cases v.payload <;>
    simp [variantShape, Payload.kind]

lemma name_of_declareVariant {v : Variant} {d : Declaration}
    (h : declareVariant routes item e v = some d) : d.name = item.name ++ v.name := by
  unfold declareVariant at h
  dsimp only at h
  split at h
  · cases h
  · obtain rfl := Option.some.inj h
    rfl
  · obtain ⟨tag, -, rfl⟩ := Option.map_eq_some_iff.mp h
    rfl

lemma declareVariant_of_untagged (h : e.discriminant = none) (v : Variant) :
    declareVariant routes item e v =
      if v.payload.kind = .unit then
        some ⟨item.name ++ v.name, v.doc.bind (Doc.render routes),
          .alias (.literal (renameVariant e.renameAll v.name))⟩
      else none := by
  rw [declareVariant, h]
  cases v.payload with
  | unit => rfl
  | tuple type => rfl
  | struct fields => rfl

lemma shape_declareUnion : (declareUnion routes item e).shape =
    .alias (if e.variants = [] then .prim .never
      else .union ((e.variants.map fun v => item.name ++ v.name).map .ref)) := by
  rw [declareUnion, List.map_map]
  cases e.variants with
  | nil => rfl
  | cons v vs => rfl

lemma shape_declareUnion_eq_never_iff :
    (declareUnion routes item e).shape = .alias (.prim .never) ↔ e.variants = [] := by
  rw [shape_declareUnion]
  split <;> simp_all

/-- What is read off the declarations can be read off the variants that have one. -/
lemma map_filterMap_declareVariant {α : Type} {f : Declaration → α} {g : Variant → α}
    (h : ∀ {v d}, declareVariant routes item e v = some d → f d = g v) (vs : List Variant) :
    (vs.filterMap (declareVariant routes item e)).map f = (vs.filter (isDeclared e)).map g := by
  -- Both sides go through the variants once and keep the same ones.
  induction vs with
  | nil => rfl
  | cons v vs ih =>
    have hsome := isSome_declareVariant routes item e v
    cases hd : declareVariant routes item e v with
    | none =>
      rw [hd, Option.isSome_none] at hsome
      rw [List.filterMap_cons_none hd, List.filter_cons_of_neg (by simp [← hsome]), ih]
    | some d =>
      rw [hd, Option.isSome_some] at hsome
      rw [List.filterMap_cons_some hd, List.filter_cons_of_pos hsome.symm, List.map_cons,
        List.map_cons, ih, h hd]

lemma names_filterMap_declareVariant (vs : List Variant) :
    (vs.filterMap (declareVariant routes item e)).map (·.name) =
      (vs.filter (isDeclared e)).map fun v => item.name ++ v.name :=
  map_filterMap_declareVariant routes item e (name_of_declareVariant routes item e) vs

lemma omitted_eq_countP : (declareEnum routes item e).omitted =
    e.variants.countP fun v => !isDeclared e v := by
  rw [omitted_declareEnum]
  congr 1
  funext v
  rw [← isSome_declareVariant routes item e v, Option.not_isSome]

lemma isDeclared_of_tag (h : e.discriminant.isSome = true) (v : Variant) :
    isDeclared e v = true := by
  rw [isDeclared, h, Bool.or_true]

lemma variants_of_untagged (h : e.discriminant = none) : (declareEnum routes item e).variants =
    (e.variants.filter (·.payload.kind == .unit)).map fun v =>
      ⟨item.name ++ v.name, v.doc.bind (Doc.render routes),
        .alias (.literal (renameVariant e.renameAll v.name))⟩ := by
  rw [variants_declareEnum, ← List.filterMap_eq_map, List.filterMap_filter]
  congr 1
  funext v
  rw [declareVariant_of_untagged routes item e h]
  simp only [beq_iff_eq, Function.comp_apply]

/-- The names that the union of an enum refers to. -/
def references : List String :=
  e.variants.map fun v => item.name ++ v.name

/-- The union of an enum and the declarations of its variants go together. -/
structure IsAligned (d : EnumDeclarations) : Prop where
  never_iff : d.union.shape = .alias (.prim .never) ↔ e.variants = []
  union : d.union.shape =
    .alias (if e.variants = [] then .prim .never else .union ((references item e).map .ref))
  names : d.variants.map (·.name) =
    (e.variants.filter (isDeclared e)).map fun v => item.name ++ v.name
  length : d.variants.length + d.omitted = (references item e).length
  omitted : d.omitted = e.variants.countP fun v => !isDeclared e v
  tagged : e.discriminant.isSome = true →
    d.omitted = 0 ∧ d.variants.map (·.name) = references item e
  untagged : e.discriminant = none →
    d.variants = (e.variants.filter (·.payload.kind == .unit)).map fun v =>
      ⟨item.name ++ v.name, v.doc.bind (Doc.render routes),
        .alias (.literal (renameVariant e.renameAll v.name))⟩

/-- The union of an enum lists its variants in order, and the declarations of the variants follow
that order. A variant is left without a declaration exactly where the table of shapes says so: if
it carries something and the enum has no discriminant. -/
theorem declareEnum_aligned :
    IsAligned routes item e (declareEnum routes item e) ∧
      ∀ v, declareVariant routes item e v = none ↔
        variantShape e.discriminant.isSome e.content.isSome v.payload.kind = .omitted := by
  refine ⟨?_, fun v => declareVariant_eq_none_iff⟩
  have hnames : (declareEnum routes item e).variants.map (·.name) =
      (e.variants.filter (isDeclared e)).map fun v => item.name ++ v.name := by
    rw [variants_declareEnum, names_filterMap_declareVariant]
  have homitted := omitted_eq_countP routes item e
  constructor
  case never_iff => exact shape_declareUnion_eq_never_iff routes item e
  case union => exact shape_declareUnion routes item e
  case names => exact hnames
  case length =>
    rw [variants_declareEnum, omitted_declareEnum, length_filterMap_add_countP, references,
      List.length_map]
  case omitted => exact homitted
  case tagged =>
    intro htag
    have hall : ∀ v ∈ e.variants, isDeclared e v = true :=
      fun v _ => isDeclared_of_tag e htag v
    refine ⟨?_, ?_⟩
    · rw [homitted, List.countP_eq_zero]
      exact fun v hv => by simp [hall v hv]
    · rw [hnames, List.filter_eq_self.mpr hall, references]
  case untagged => exact variants_of_untagged routes item e

end SchemaClient.Client
