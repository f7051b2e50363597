import SchemaClient.Client.Module
import SchemaClient.Proofs.EnumDeclarations

/-!
# What a module does not depend on

Inventories are alike if they differ only in data that no module shows: where items belong, whether
fields accept null, all but the type of flattened fields, how routes are called and answered, and
tags and content members that nothing is declared with. Alike inventories have the same module, or
none because of the same cycle.
-/

namespace SchemaClient.Schema

/-- The fields agree in what a declaration shows of them. -/
structure Field.Alike (f g : Field) : Prop where
  type : f.type = g.type
  flattened : f.flattened = g.flattened
  member : f.flattened = true ∨ f.name = g.name ∧ f.doc = g.doc ∧ f.omittable = g.omittable

/-- The payloads agree in what a declaration shows of them. -/
inductive Payload.Alike : Payload → Payload → Prop
  | unit : Alike .unit .unit
  | tuple (type : String) : Alike (.tuple type) (.tuple type)
  | struct {fs gs : List Field} (h : List.Forall₂ Field.Alike fs gs) :
    Alike (.struct fs) (.struct gs)

/-- The variants agree in what a declaration shows of them. -/
structure Variant.Alike (v w : Variant) : Prop where
  name : v.name = w.name
  doc : v.doc = w.doc
  payload : v.payload.Alike w.payload

/-- The structs agree in what a declaration shows of them. -/
def Struct.Alike (s t : Struct) : Prop :=
  List.Forall₂ Field.Alike s.fields t.fields

/-- The enums agree in what their declarations show of them. The tag of an untagged enum and the
content member of an enum without a discriminant are not shown. -/
structure Enumeration.Alike (d e : Enumeration) : Prop where
  untagged : d.untagged = e.untagged
  tag : d.untagged = true ∨ d.tag = e.tag
  content : d.discriminant = none ∨ d.content = e.content
  renameAll : d.renameAll = e.renameAll
  variants : List.Forall₂ Variant.Alike d.variants e.variants

/-- The routes agree in what their functions show of them. -/
structure Route.Alike (r s : Route) : Prop where
  path : r.path = s.path
  pathParams : r.pathParams = s.pathParams
  queryParams : r.queryParams = s.queryParams

/-- The items define the same kind of thing, alike. -/
inductive Definition.Alike : Definition → Definition → Prop
  | struct {s t : Struct} (h : s.Alike t) : Alike (.struct s) (.struct t)
  | enum {d e : Enumeration} (h : d.Alike e) : Alike (.enum d) (.enum e)
  | route {r s : Route} (h : r.Alike s) : Alike (.route r) (.route s)
  | unknown : Alike .unknown .unknown

/-- The items agree in what a module shows of them. -/
structure Item.Alike (i j : Item) : Prop where
  name : i.name = j.name
  doc : i.doc = j.doc
  definition : i.definition.Alike j.definition

/-- The inventories agree in what a module shows of them. -/
structure Inventory.Alike (a b : Inventory) : Prop where
  version : a.version = b.version
  items : List.Forall₂ Item.Alike a.items b.items

lemma Payload.Alike.kind_eq {p q : Payload} (h : p.Alike q) : p.kind = q.kind := by
  cases h <;> rfl

lemma Enumeration.Alike.discriminant_eq {d e : Enumeration} (h : d.Alike e) :
    d.discriminant = e.discriminant := by
  rw [Enumeration.discriminant, Enumeration.discriminant, ← h.untagged]
  rcases h.tag with huntagged | htag
  · rw [if_pos huntagged, if_pos huntagged]
  · rw [htag]

end SchemaClient.Schema

namespace SchemaClient.Client
open SchemaClient.Schema SchemaClient.Code

lemma map_eq_of_forall₂ {α β : Type} {R : α → α → Prop} {l m : List α} {f g : α → β}
    (h : List.Forall₂ R l m) (hf : ∀ a b, R a b → f a = g b) : l.map f = m.map g := by
  rw [← List.forall₂_eq_eq_eq]
  exact List.rel_map (fun a b hab => hf a b hab) h

variable (routes : List String)

lemma layoutOfFields_eq_of_alike {fs gs : List Field} (h : List.Forall₂ Field.Alike fs gs) :
    layoutOfFields routes fs = layoutOfFields routes gs := by
  induction h with
  | nil => rfl
  | @cons f g fs gs hfg _ ih =>
    rw [layoutOfFields, layoutOfFields, ih, ← hfg.flattened, ← hfg.type]
    rcases hfg.member with hflattened | ⟨hname, hdoc, homittable⟩
    · rw [if_pos hflattened, if_pos hflattened]
    · have hmember : memberOfField routes f = memberOfField routes g := by
        rw [memberOfField, memberOfField, hname, hdoc, hfg.type, homittable]
      rw [hmember]

lemma layoutOfPayload_eq_of_alike (shape : VariantShape) {p q : Payload} (h : p.Alike q)
    (content : Option String) :
    layoutOfPayload routes shape p content = layoutOfPayload routes shape q content := by
  cases h with
  | unit => rfl
  | tuple type => rfl
  | struct hfields =>
    have hlayout := layoutOfFields_eq_of_alike routes hfields
    cases shape <;> cases content <;> simp [layoutOfPayload, hlayout]

variable {i j : Item}

lemma declareStruct_eq_of_alike {s t : Struct} (hname : i.name = j.name) (hdoc : i.doc = j.doc)
    (h : s.Alike t) : declareStruct routes i s = declareStruct routes j t := by
  rw [declareStruct, declareStruct, hname, hdoc, layoutOfFields_eq_of_alike routes h]

lemma declareVariant_eq_of_alike {d e : Enumeration} {v w : Variant} (hname : i.name = j.name)
    (h : d.Alike e) (hvw : v.Alike w) :
    declareVariant routes i d v = declareVariant routes j e w := by
  have hdiscriminant := h.discriminant_eq
  cases htag : e.discriminant with
  | none =>
    rw [declareVariant_of_untagged routes i d (hdiscriminant.trans htag),
      declareVariant_of_untagged routes j e htag, hname, hvw.name, hvw.doc, hvw.payload.kind_eq,
      h.renameAll]
  | some tag =>
    -- The content member is shown here, so both enums have the same one.
    have hcontent : d.content = e.content :=
      h.content.resolve_left (by rw [hdiscriminant, htag]; simp)
    simp only [declareVariant, variantName, variantLiteral, hdiscriminant, hcontent, hname,
      hvw.name, hvw.doc, hvw.payload.kind_eq, h.renameAll,
      layoutOfPayload_eq_of_alike routes _ hvw.payload]

lemma declareUnion_eq_of_alike {d e : Enumeration} (hname : i.name = j.name) (hdoc : i.doc = j.doc)
    (h : d.Alike e) : declareUnion routes i d = declareUnion routes j e := by
  have hreferences : d.variants.map (fun v => i.name ++ v.name) =
      e.variants.map (fun v => j.name ++ v.name) :=
    map_eq_of_forall₂ h.variants fun v w hvw => by rw [hname, hvw.name]
  have hempty : d.variants = [] ↔ e.variants = [] := by
    rw [← List.length_eq_zero_iff, h.variants.length_eq, List.length_eq_zero_iff]
  have hshape : (declareUnion routes i d).shape = (declareUnion routes j e).shape := by
    simp only [shape_declareUnion, hreferences, hempty]
  simp only [declareUnion] at hshape ⊢
  rw [hname, hdoc, hshape]

lemma declareEnum_eq_of_alike {d e : Enumeration} (hname : i.name = j.name) (hdoc : i.doc = j.doc)
    (h : d.Alike e) : declareEnum routes i d = declareEnum routes j e := by
  have hvariants : d.variants.map (declareVariant routes i d) =
      e.variants.map (declareVariant routes j e) :=
    map_eq_of_forall₂ h.variants fun v w => declareVariant_eq_of_alike routes hname h
  rw [declareEnum, declareEnum, hvariants, declareUnion_eq_of_alike routes hname hdoc h]

lemma declareRoute_eq_of_alike {r s : Route} (hname : i.name = j.name) (hdoc : i.doc = j.doc)
    (h : r.Alike s) : declareRoute routes i r = declareRoute routes j s := by
  rw [declareRoute, declareRoute, hname, hdoc, h.path, h.pathParams, h.queryParams]

lemma add_eq_of_alike (s : Sections) (h : i.Alike j) : s.add routes i = s.add routes j := by
  obtain ⟨hname, hdoc, hdefinition⟩ := h
  rw [Sections.add, Sections.add]
  generalize i.definition = x at hdefinition
  generalize j.definition = y at hdefinition
  cases hdefinition with
  | struct h => simp only [declareStruct_eq_of_alike routes hname hdoc h]
  | enum h => simp only [declareEnum_eq_of_alike routes hname hdoc h]
  | route h => simp only [declareRoute_eq_of_alike routes hname hdoc h]
  | unknown => rfl

lemma foldl_add_eq_of_alike {is js : List Item} (h : List.Forall₂ Item.Alike is js)
    (s : Sections) : is.foldl (Sections.add routes) s = js.foldl (Sections.add routes) s := by
  induction h generalizing s with
  | nil => rfl
  | cons hij _ ih => rw [List.foldl_cons, List.foldl_cons, add_eq_of_alike routes s hij, ih]

/-- Alike items have the same names of routes. -/
lemma linkNames_eq_of_alike {is js : List Item} (h : List.Forall₂ Item.Alike is js) :
    Sections.linkNames is = Sections.linkNames js := by
  induction h with
  | nil => rfl
  | @cons i j is js hij _ ih =>
    obtain ⟨hname, -, hdefinition⟩ := hij
    simp only [Sections.linkNames, List.filter_cons] at ih ⊢
    generalize i.definition = x at hdefinition
    generalize j.definition = y at hdefinition
    cases hdefinition with
    | route h => simp [hname, ih]
    | _ => exact ih

variable {a b : Inventory}

lemma ofInventory_eq_of_alike (h : a.Alike b) :
    Sections.ofInventory a = Sections.ofInventory b := by
  rw [Sections.ofInventory, Sections.ofInventory, linkNames_eq_of_alike h.items]
  exact foldl_add_eq_of_alike _ h.items _

/-- Alike inventories have the same module, or none because of the same cycle. -/
theorem generate_eq_of_alike (h : a.Alike b) : generate a = generate b := by
  have hfile : a.fileName = b.fileName := by
    rw [Inventory.fileName, Inventory.fileName, h.version]
  rw [generate, generate, ofInventory_eq_of_alike h, hfile, h.version]

/-- An inventory with an item of each kind. -/
def plainInventory : Inventory where
  version := "1.0.0"
  items :=
    [{ name := "Message", doc := "Sent by [`post`].", category := "", hidden := false, package := ""
       definition := .struct
         ⟨[⟨"base", none, "Stamp", true, false, false⟩,
           ⟨"text", none, "String", false, false, true⟩]⟩ },
     { name := "Event", doc := "", category := "", hidden := false, package := ""
       definition := .enum ⟨none, true, none, none, [⟨"Ping", none, .unit⟩,
         ⟨"Sent", none, .struct [⟨"message", none, "Message", false, false, false⟩]⟩]⟩ },
     { name := "post", doc := "", category := "", hidden := false, package := ""
       definition := .route ⟨"GET", "/post/<id>", [⟨"id", "u64"⟩], [], none, none, []⟩ },
     { name := "Later", doc := "", category := "", hidden := false, package := ""
       definition := .unknown }]

/-- The same inventory with everything filled in that no module shows. -/
def annotatedInventory : Inventory where
  version := "1.0.0"
  items :=
    [{ name := "Message", doc := "Sent by [`post`].", category := "chat", hidden := true
       package := "core"
       definition := .struct
         ⟨[⟨"stamp", some "Its time.", "Stamp", true, true, true⟩,
           ⟨"text", none, "String", false, true, true⟩]⟩ },
     { name := "Event", doc := "", category := "chat", hidden := true, package := "core"
       definition := .enum ⟨some "type", true, some "d", none, [⟨"Ping", none, .unit⟩,
         ⟨"Sent", none, .struct [⟨"message", none, "Message", false, true, false⟩]⟩]⟩ },
     { name := "post", doc := "", category := "chat", hidden := true, package := "api"
       definition := .route ⟨"POST", "/post/<id>", [⟨"id", "u64"⟩], [], some "Message",
         some "Event", ["session"]⟩ },
     { name := "Later", doc := "", category := "", hidden := true, package := "core"
       definition := .unknown }]

lemma alike_annotatedInventory : plainInventory.Alike annotatedInventory := by
  have hmessage : List.Forall₂ Field.Alike
      [⟨"base", none, "Stamp", true, false, false⟩, ⟨"text", none, "String", false, false, true⟩]
      [⟨"stamp", some "Its time.", "Stamp", true, true, true⟩,
        ⟨"text", none, "String", false, true, true⟩] :=
    .cons ⟨rfl, rfl, .inl rfl⟩ (.cons ⟨rfl, rfl, .inr ⟨rfl, rfl, rfl⟩⟩ .nil)
  have hsent : Variant.Alike
      ⟨"Sent", none, .struct [⟨"message", none, "Message", false, false, false⟩]⟩
      ⟨"Sent", none, .struct [⟨"message", none, "Message", false, true, false⟩]⟩ :=
    ⟨rfl, rfl, .struct (.cons ⟨rfl, rfl, .inr ⟨rfl, rfl, rfl⟩⟩ .nil)⟩
  refine ⟨rfl, .cons ⟨rfl, rfl, .struct hmessage⟩ (.cons ⟨rfl, rfl, .enum ?_⟩
    (.cons ⟨rfl, rfl, .route ⟨rfl, rfl, rfl⟩⟩ (.cons ⟨rfl, rfl, .unknown⟩ .nil)))⟩
  exact ⟨rfl, .inl rfl, .inl rfl, rfl, .cons ⟨rfl, rfl, .unit⟩ (.cons hsent .nil)⟩

theorem generate_eq_of_alike_annotatedInventory :
    plainInventory.Alike annotatedInventory ∧
      generate plainInventory = generate annotatedInventory :=
  ⟨alike_annotatedInventory, generate_eq_of_alike alike_annotatedInventory⟩

end SchemaClient.Client
