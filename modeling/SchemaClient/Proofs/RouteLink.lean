import SchemaClient.Proofs.DocComment
import SchemaClient.Proofs.EnumDeclarations
import SchemaClient.Proofs.ModuleText

/-!
# Links to routes

Documentation stands in a module as a comment in front of what it documents: of structs, enums and
their variants, of fields that are members, and, in the registry, of routes. A link in it to the
name of a route, wherever the route stands in the inventory, is written under the name that the
function of the route and its entry in the registry have; a link to any other name is kept.
-/

namespace SchemaClient.Client
open SchemaClient.Schema SchemaClient.Code SchemaClient.Text

/-- At which level of indentation a variant is documented, and in front of what: at its tag, or at
the alias that stands for it. -/
def variantPlace (item : Item) (e : Enumeration) (v : Variant) : Nat × String :=
  match e.discriminant with
  | some tag => (1, tag)
  | none => (0, "export type " ++ (item.name ++ v.name) ++ " = ")

/-- The module of an inventory shows the documentation, at that level of indentation and in front of
that text: of a struct, an enum, a route, a variant that is declared, and of a field that is not
flattened, of a struct or of a variant that is declared. -/
inductive Documents (inv : Inventory) : Nat → String → String → Prop
  | struct {item : Item} {s : Struct} (hitem : item ∈ inv.items)
    (h : item.definition = .struct s) :
    Documents inv 0 ("export interface " ++ item.name) item.doc
  | enum {item : Item} {e : Enumeration} (hitem : item ∈ inv.items)
    (h : item.definition = .enum e) :
    Documents inv 0 ("export type " ++ item.name ++ " = ") item.doc
  | route {item : Item} {r : Route} (hitem : item ∈ inv.items) (h : item.definition = .route r) :
    Documents inv 1 (camelCase item.name ++ ",\n") item.doc
  | variant {item : Item} {e : Enumeration} {v : Variant} {doc : String}
    (hitem : item ∈ inv.items) (h : item.definition = .enum e) (hv : v ∈ e.variants)
    (hdeclared : isDeclared e v = true) (hdoc : v.doc = some doc) :
    Documents inv (variantPlace item e v).1 (variantPlace item e v).2 doc
  | structField {item : Item} {s : Struct} {f : Field} {doc : String}
    (hitem : item ∈ inv.items) (h : item.definition = .struct s) (hf : f ∈ s.fields)
    (hown : f.flattened = false) (hdoc : f.doc = some doc) : Documents inv 1 f.name doc
  | variantField {item : Item} {e : Enumeration} {v : Variant} {fields : List Field} {f : Field}
    {doc : String} (hitem : item ∈ inv.items) (h : item.definition = .enum e)
    (hv : v ∈ e.variants) (hdeclared : isDeclared e v = true)
    (hpayload : v.payload = .struct fields) (hf : f ∈ fields) (hown : f.flattened = false)
    (hdoc : f.doc = some doc) :
    Documents inv (if e.content.isSome then 2 else 1) f.name doc

/-- The comment of a documentation text and the text that it stands in front of. -/
def documented (level : Nat) (doc : Option String) (head : String) : String :=
  Comment.optional (indent level) doc ++ indent level ++ head

/-! ### Comments of members and declarations -/

lemma occurs_member (m : Member) (level : Nat) :
    Occurs (documented level m.doc m.name) (m.print level) := by
  cases m with
  | mk name type optional doc =>
    have hprint : (Member.mk name type optional doc).print level =
        documented level doc name ++
          ((if optional then "?" else "") ++ ": " ++ type.print level ++ ";\n") := by
      rw [Member.print]
      simp only [documented, String.append_assoc]
    rw [hprint]
    exact (Occurs.refl _).append_right _

lemma occurs_members {m : Member} {ms : List Member} (h : m ∈ ms) (level : Nat) :
    Occurs (documented level m.doc m.name) (Member.printAll level ms) := by
  induction ms with
  | nil => cases h
  | cons n ms ih =>
    rw [Member.printAll]
    rcases List.mem_cons.mp h with rfl | hlater
    · exact (occurs_member m level).append_right _
    · exact (ih hlater).append_left _

lemma occurs_object {m : Member} {ms : List Member} (h : m ∈ ms) (name : String) (optional : Bool)
    (doc : Option String) (level : Nat) : Occurs (documented (level + 1) m.doc m.name)
      ((Member.mk name (.object ms) optional doc).print level) := by
  obtain ⟨n, ns, rfl⟩ := List.exists_cons_of_ne_nil (List.ne_nil_of_mem h)
  have hobject : Occurs (documented (level + 1) m.doc m.name)
      ((Ty.object (n :: ns)).print level) := by
    rw [Ty.print]
    exact (((occurs_members h (level + 1)).append_left _).append_right _).append_right _
  rw [Member.print]
  exact (hobject.append_left _).append_right _

section Declarations

variable (name : String) (doc : Option String) (bases : List String) (members : List Member)

lemma occurs_interface : Occurs (documented 0 doc ("export interface " ++ name))
    (Declaration.print 0 ⟨name, doc, .interface bases members⟩) := by
  have hprint : Declaration.print 0 ⟨name, doc, .interface bases members⟩ =
      documented 0 doc ("export interface " ++ name) ++ (printBases bases ++ " \x7b\n" ++
        Member.printAll 1 members ++ indent 0 ++ "\x7d\n") := by
    simp only [Declaration.print, documented, String.append_assoc, Nat.zero_add]
  rw [hprint]
  exact (Occurs.refl _).append_right _

lemma occurs_interface_members {s : String} (hs : Occurs s (Member.printAll 1 members)) :
    Occurs s (Declaration.print 0 ⟨name, doc, .interface bases members⟩) := by
  rw [Declaration.print]
  exact (((hs.append_left _).append_right _).append_right _).append_left _

lemma occurs_alias (type : Ty) : Occurs (documented 0 doc ("export type " ++ name ++ " = "))
    (Declaration.print 0 ⟨name, doc, .alias type⟩) := by
  have hprint : Declaration.print 0 ⟨name, doc, .alias type⟩ =
      documented 0 doc ("export type " ++ name ++ " = ") ++ (type.print 0 ++ ";\n") := by
    simp only [Declaration.print, documented, String.append_assoc]
  rw [hprint]
  exact (Occurs.refl _).append_right _

end Declarations

lemma occurs_registryLine {f : RouteFunction} {fs : List RouteFunction} (h : f ∈ fs) :
    Occurs (documented 1 f.doc (f.name ++ ",\n")) (registryText fs) := by
  have hline : Occurs (documented 1 f.doc (f.name ++ ",\n")) (registryLine f) := by
    rw [registryLine, String.append_assoc]
    exact Occurs.refl _
  have hjoin : Occurs (registryLine f) (String.join (fs.map registryLine)) :=
    Occurs.join (List.mem_map_of_mem h)
  have hne : ¬fs.isEmpty = true := by
    rw [List.isEmpty_iff]
    exact List.ne_nil_of_mem h
  rw [registryText, if_neg hne]
  exact ((hline.trans hjoin).append_left _).append_right _

/-! ### Comments of a module -/

section Parts

variable {inv : Inventory}

lemma occurs_part {s : String} (h : s ∈ (declaredTypes inv).map (·.print 0) ++
    (routeFunctions inv).map (·.print 0) ++ [registryText (routeFunctions inv)]) :
    Occurs s (moduleText inv) := by
  have hentry : Occurs s ("\n" ++ s) := (Occurs.refl s).append_left _
  exact (hentry.trans (Occurs.join (List.mem_map_of_mem h))).append_left _

lemma occurs_type {d : Declaration} (h : d ∈ declaredTypes inv) :
    Occurs (d.print 0) (moduleText inv) :=
  occurs_part (List.mem_append_left _ (List.mem_append_left _ (List.mem_map_of_mem h)))

lemma occurs_registry (inv : Inventory) :
    Occurs (registryText (routeFunctions inv)) (moduleText inv) :=
  occurs_part (List.mem_append_right _ (List.mem_singleton.mpr rfl))

variable {item : Item} (hitem : item ∈ inv.items)
include hitem

lemma mem_declaredTypes_struct {s : Struct} (h : item.definition = .struct s) :
    declareStruct (routeNames inv) item s ∈ declaredTypes inv :=
  List.mem_append_left _ (List.mem_filterMap.mpr ⟨item, hitem, by rw [h]⟩)

lemma mem_declaredTypes_union {e : Enumeration} (h : item.definition = .enum e) :
    declareUnion (routeNames inv) item e ∈ declaredTypes inv :=
  List.mem_append_right _ (List.mem_flatMap.mpr ⟨item, hitem, by rw [h]; exact List.mem_cons_self⟩)

lemma mem_declaredTypes_variant {e : Enumeration} {v : Variant} {d : Declaration}
    (h : item.definition = .enum e) (hv : v ∈ e.variants)
    (hd : declareVariant (routeNames inv) item e v = some d) : d ∈ declaredTypes inv := by
  have hvariant : d ∈ e.variants.filterMap (declareVariant (routeNames inv) item e) :=
    List.mem_filterMap.mpr ⟨v, hv, hd⟩
  exact List.mem_append_right _
    (List.mem_flatMap.mpr ⟨item, hitem, by rw [h]; exact List.mem_cons_of_mem _ hvariant⟩)

lemma mem_routeFunctions {r : Route} (h : item.definition = .route r) :
    declareRoute (routeNames inv) item r ∈ routeFunctions inv :=
  List.mem_filterMap.mpr ⟨item, hitem, by rw [h]⟩

end Parts

section Fields

variable (names : List String) {fields : List Field} {f : Field} (hf : f ∈ fields)
  (hown : f.flattened = false)
include hf hown

lemma mem_membersOfFields : .mk f.name (TypeExpr.typeOf f.type) f.omittable
    (f.doc.bind (Doc.render names)) ∈ membersOfFields names fields :=
  List.mem_map.mpr ⟨f, List.mem_filter.mpr ⟨hf, by simp [hown]⟩, rfl⟩

lemma occurs_field {doc : String} (hdoc : f.doc = some doc) (level : Nat) :
    Occurs (documented level (Doc.render names doc) f.name)
      (Member.printAll level (membersOfFields names fields)) := by
  have hoccurs := occurs_members (mem_membersOfFields names hf hown) level
  rwa [hdoc] at hoccurs

end Fields

section Variants

variable {names : List String} {item : Item} {e : Enumeration} {v : Variant}

lemma exists_declaration_of_isDeclared (names : List String) (item : Item)
    (h : isDeclared e v = true) : ∃ d, declareVariant names item e v = some d := by
  rw [← isSome_declareVariant names item e v] at h
  exact Option.isSome_iff_exists.mp h

lemma occurs_variant {d : Declaration} {doc : String}
    (hd : declareVariant names item e v = some d) (hdoc : v.doc = some doc) :
    Occurs (documented (variantPlace item e v).1 (Doc.render names doc) (variantPlace item e v).2)
      (d.print 0) := by
  cases htag : e.discriminant with
  | none =>
    have hplace :
        variantPlace item e v = (0, "export type " ++ (item.name ++ v.name) ++ " = ") := by
      rw [variantPlace, htag]
    rw [declareVariant_of_untagged names item e htag, hdoc] at hd
    split at hd
    · obtain rfl := Option.some.inj hd
      rw [hplace]
      exact occurs_alias _ _ _
    · cases hd
  | some tag =>
    have hplace : variantPlace item e v = (1, tag) := by rw [variantPlace, htag]
    obtain ⟨d', hd', bases, members, -, rfl⟩ := exists_declareVariant_of_tag names item e htag v
    obtain rfl := Option.some.inj (hd.symm.trans hd')
    have htagged := occurs_members (List.mem_cons_self (a := Member.mk tag
      (.literal (renameVariant e.renameAll v.name)) false (v.doc.bind (Doc.render names)))
      (l := members)) 1
    rw [Member.doc, Member.name, hdoc, Option.bind_some] at htagged
    rw [hplace, hdoc, Option.bind_some]
    exact occurs_interface_members (item.name ++ v.name) none bases _ htagged

lemma occurs_variant_field {d : Declaration} {fields : List Field} {f : Field} {doc : String}
    (hd : declareVariant names item e v = some d) (hpayload : v.payload = .struct fields)
    (hf : f ∈ fields) (hown : f.flattened = false) (hdoc : f.doc = some doc) :
    Occurs (documented (if e.content.isSome then 2 else 1) (Doc.render names doc) f.name)
      (d.print 0) := by
  -- A variant with fields is declared only under a discriminant.
  cases htag : e.discriminant with
  | none =>
    rw [declareVariant_of_untagged names item e htag, hpayload] at hd
    cases hd
  | some tag =>
    obtain ⟨d', hd', bases, members, hcarries, rfl⟩ :=
      exists_declareVariant_of_tag names item e htag v
    obtain rfl := Option.some.inj (hd.symm.trans hd')
    rw [hpayload] at hcarries
    apply occurs_interface_members
    rw [Member.printAll]
    apply Occurs.append_left
    generalize e.content = content at hcarries
    cases hcarries with
    | fieldsBeside => exact occurs_field names hf hown hdoc 1
    | fieldsUnder c =>
      have hobject := occurs_object (mem_membersOfFields names hf hown) c false none 1
      rw [hdoc] at hobject
      rw [Member.printAll]
      exact hobject.append_right _

end Variants

lemma occurs_of_documents {inv : Inventory} {level : Nat} {head doc : String}
    (h : Documents inv level head doc) :
    Occurs (documented level (Doc.render (routeNames inv) doc) head) (moduleText inv) := by
  cases h with
  | struct hitem h =>
    exact (occurs_interface _ _ _ _).trans (occurs_type (mem_declaredTypes_struct hitem h))
  | enum hitem h =>
    exact (occurs_alias _ _ _).trans (occurs_type (mem_declaredTypes_union hitem h))
  | route hitem h =>
    exact (occurs_registryLine (mem_routeFunctions hitem h)).trans (occurs_registry inv)
  | @variant item e v doc hitem h hv hdeclared hdoc =>
    obtain ⟨d, hd⟩ := exists_declaration_of_isDeclared (routeNames inv) item hdeclared
    exact (occurs_variant hd hdoc).trans (occurs_type (mem_declaredTypes_variant hitem h hv hd))
  | structField hitem h hf hown hdoc =>
    have hfield := occurs_field (routeNames inv) hf hown hdoc 1
    have hdeclared := mem_declaredTypes_struct hitem h
    rw [declareStruct, layoutOfFields_eq] at hdeclared
    exact (occurs_interface_members _ _ _ _ hfield).trans (occurs_type hdeclared)
  | @variantField item e v fields f doc hitem h hv hdeclared hpayload hf hown hdoc =>
    obtain ⟨d, hd⟩ := exists_declaration_of_isDeclared (routeNames inv) item hdeclared
    exact (occurs_variant_field hd hpayload hf hown hdoc).trans
      (occurs_type (mem_declaredTypes_variant hitem h hv hd))

/-! ### Functions of a module and their entries -/

lemma append_append_of_eq {s t u : String} (h : s ++ t = u) (rest : String) :
    s ++ (t ++ rest) = u ++ rest := by
  rw [← String.append_assoc, h]

lemma print_function (f : RouteFunction) : ∃ parameters body, "\n" ++ f.print 0 =
    "\nfunction " ++ f.name ++ "(" ++ parameters ++ "): string \x7b\n  return `" ++ body ++
      "`;\n\x7d\n" := by
  have hpad : indent 0 = "" := rfl
  have hhead := append_append_of_eq (s := "\n") (t := "function ") (u := "\nfunction ") (by decide)
  have hreturn := append_append_of_eq (s := "): string \x7b\n") (t := "  return `")
    (u := "): string \x7b\n  return `") (by decide)
  have hend : "`;\n" ++ "\x7d\n" = "`;\n\x7d\n" := by decide
  refine ⟨", ".intercalate (f.parameters.map (·.print 0)),
    String.join (f.template.map TemplatePart.print), ?_⟩
  simp only [RouteFunction.print, hpad, String.append_empty, String.empty_append,
    String.append_assoc, hhead, hreturn, hend]

lemma registryText_of_split (fs gs : List RouteFunction) (f : RouteFunction) :
    "\n" ++ registryText (fs ++ f :: gs) = "\nexport const ROUTES = \x7b\n" ++
      String.join (fs.map registryLine) ++ Comment.optional "  " f.doc ++ "  " ++ f.name ++ ",\n" ++
      String.join (gs.map registryLine) ++ "\x7d;\n" := by
  have hopening := append_append_of_eq (s := "\n") (t := "export const ROUTES = \x7b\n")
    (u := "\nexport const ROUTES = \x7b\n") (by decide)
  have hne : ¬(fs ++ f :: gs).isEmpty = true := by simp
  rw [registryText, if_neg hne]
  simp only [List.map_append, List.map_cons, String.join_append, String.join_cons, registryLine,
    String.append_assoc, hopening]

lemma join_split (f : String → String) (ss ts : List String) (s t : String) :
    String.join ((ss ++ s :: ts ++ [t]).map f) =
      String.join (ss.map f) ++ f s ++ String.join (ts.map f) ++ f t := by
  simp [String.join_append, String.join_cons, String.append_assoc]

/-- A module around one of its functions. -/
lemma moduleText_of_split {inv : Inventory} {fs gs : List RouteFunction} {f : RouteFunction}
    (h : routeFunctions inv = fs ++ f :: gs) : ∃ front between, moduleText inv =
      front ++ ("\n" ++ f.print 0) ++ between ++ ("\n" ++ registryText (fs ++ f :: gs)) := by
  have hparts : (declaredTypes inv).map (·.print 0) ++ (fs ++ f :: gs).map (·.print 0) =
      ((declaredTypes inv).map (·.print 0) ++ fs.map (·.print 0)) ++
        f.print 0 :: gs.map (·.print 0) := by
    rw [List.map_append, List.map_cons, List.append_assoc]
  refine ⟨"// This file was @generated by typegen\n" ++ String.join
    (((declaredTypes inv).map (·.print 0) ++ fs.map (·.print 0)).map ("\n" ++ ·)),
    String.join ((gs.map (·.print 0)).map ("\n" ++ ·)), ?_⟩
  unfold moduleText
  dsimp only
  rw [h, hparts, join_split]
  simp only [← String.append_assoc]

/-! ### Links of a module -/

section Links

variable (inv : Inventory) (m : Module)

/-- The name of a route, which may stand anywhere among the items. -/
def IsRouteName (name : String) : Prop :=
  ∃ i ∈ inv.items, i.name = name ∧ i.definition.isRoute = true

lemma mem_routeNames_iff (name : String) : name ∈ routeNames inv ↔ IsRouteName inv name := by
  rw [routeNames, IsRouteName, List.mem_filterMap]
  constructor
  · rintro ⟨i, hi, hname⟩
    split at hname
    · next r hroute => exact ⟨i, hi, Option.some.inj hname, by rw [hroute]; rfl⟩
    · cases hname
  · rintro ⟨i, hi, hname, hroute⟩
    cases hdefinition : i.definition with
    | route r => exact ⟨i, hi, by simp [hdefinition, hname]⟩
    | _ =>
      rw [hdefinition] at hroute
      cases hroute

/-- The module has a comment in front of the head in which a link to the target follows a text. The
comment shows the link in one piece. -/
def ShowsLink (level : Nat) (head front target : String) : Prop :=
  ∃ back, let text := Doc.withoutBreaks front ++ ("\x7b@link " ++ target ++ "\x7d") ++ back
    Occurs (Comment.block (indent level) text ++ indent level ++ head) m.content ∧
      Occurs ("\x7b@link " ++ target ++ "\x7d") (Comment.block (indent level) text)

/-- The module has a function under the name, and the registry at its end has a line for it, behind
the documentation of the route. -/
def ShowsRoute (name : String) : Prop :=
  ∃ fs f gs front parameters body between, routeFunctions inv = fs ++ f :: gs ∧ f.name = name ∧
    m.content = front ++ "\nfunction " ++ name ++ "(" ++ parameters ++
      "): string \x7b\n  return `" ++ body ++ "`;\n\x7d\n" ++ between ++
      "\nexport const ROUTES = \x7b\n" ++ String.join (fs.map registryLine) ++
      Comment.optional "  " f.doc ++ "  " ++ name ++ ",\n" ++
      String.join (gs.map registryLine) ++ "\x7d;\n"

variable {inv m} (h : generate inv = .ok m)
include h

lemma content_of_generate : m.content = moduleText inv := by
  rw [eq_of_generate h]

lemma showsRoute_of_generate {name : String} (hroute : IsRouteName inv name) :
    ShowsRoute inv m (camelCase name) := by
  obtain ⟨item, hitem, rfl, hisRoute⟩ := hroute
  cases hdefinition : item.definition with
  | route r =>
    obtain ⟨fs, gs, hsplit⟩ := List.append_of_mem (mem_routeFunctions hitem hdefinition)
    obtain ⟨front, between, htext⟩ := moduleText_of_split hsplit
    obtain ⟨parameters, body, hfunction⟩ := print_function (declareRoute (routeNames inv) item r)
    refine ⟨fs, _, gs, front, parameters, body, between, hsplit, rfl, ?_⟩
    rw [content_of_generate h, htext, hfunction, registryText_of_split]
    simp only [declareRoute, String.append_assoc]
  | _ =>
    rw [hdefinition] at hisRoute
    cases hisRoute

variable {level : Nat} {head front name back : String}

lemma showsLink_of_generate
    (hdoc : Documents inv level head (front ++ "[`" ++ name ++ "`]" ++ back))
    (hfront : ¬Occurs "[`" front) (hname : Doc.IsLinkable name) :
    ShowsLink m level head front (Doc.linkTarget (routeNames inv) name) := by
  have hoccurs := occurs_of_documents hdoc
  rw [Doc.render_first_link (routeNames inv) hfront hname] at hoccurs
  rw [ShowsLink, content_of_generate h]
  exact ⟨_, hoccurs, Doc.occurs_inlineLink (routeNames inv) hname _ _ _⟩

/-- The first link of any documentation that a module shows leads to the function of a route if it
names a route, wherever that route stands. Other names are kept. -/
theorem links_of_generate
    (hdoc : Documents inv level head (front ++ "[`" ++ name ++ "`]" ++ back))
    (hfront : ¬Occurs "[`" front) (hname : Doc.IsLinkable name) :
    (IsRouteName inv name →
      ShowsLink m level head front (camelCase name) ∧ ShowsRoute inv m (camelCase name)) ∧
    (¬IsRouteName inv name → ShowsLink m level head front name) := by
  have hlink := showsLink_of_generate h hdoc hfront hname
  rw [Doc.linkTarget] at hlink
  constructor
  · intro hroute
    rw [if_pos ((mem_routeNames_iff inv name).mpr hroute)] at hlink
    exact ⟨hlink, showsRoute_of_generate h hroute⟩
  · intro hother
    rwa [if_neg ((mem_routeNames_iff inv name).not.mpr hother)] at hlink

end Links

def linkingField : Field :=
  ⟨"at", some "See [`get_all2`] */ and [`Other`].", "u64", false, false, false⟩

def linkingEnumeration : Enumeration :=
  ⟨some "type", false, some "data", none, [⟨"Seen", none, .struct [linkingField]⟩]⟩

/-- An inventory in which the field of a variant is documented with a link to a later route. -/
def linkedInventory : Inventory where
  version := "1.0.0"
  items :=
    [{ name := "Event", doc := "", category := "", hidden := false, package := ""
       definition := .enum linkingEnumeration },
     { name := "get_all2", doc := "", category := "", hidden := false, package := ""
       definition := .route ⟨"GET", "/all", [], [], none, none, []⟩ }]

theorem links_of_generate_linkedInventory :
    ∃ m, generate linkedInventory = .ok m ∧
      Documents linkedInventory 2 "at" ("See " ++ "[`" ++ "get_all2" ++ "`]" ++
        " */ and [`Other`].") ∧
      ¬Occurs "[`" "See " ∧ Doc.IsLinkable "get_all2" ∧
      ShowsLink m 2 "at" "See " "getAll2" ∧ ShowsRoute linkedInventory m "getAll2" := by
  have hcheck : findCycle? (declaredTypes linkedInventory) = none := by
    cbv
  obtain ⟨m, hm⟩ : ∃ m, generate linkedInventory = .ok m := by
    rw [generate_eq, hcheck]
    exact ⟨_, rfl⟩
  have hdoc : Documents linkedInventory 2 "at" ("See " ++ "[`" ++ "get_all2" ++ "`]" ++
      " */ and [`Other`].") :=
    .variantField (e := linkingEnumeration) (f := linkingField) List.mem_cons_self rfl
      List.mem_cons_self rfl rfl List.mem_cons_self rfl rfl
  have hfront : ¬Occurs "[`" "See " := by decide
  have hname : Doc.IsLinkable "get_all2" := Doc.isLinkable_of_word (by decide) (by simp)
  have hroute : IsRouteName linkedInventory "get_all2" :=
    ⟨_, List.mem_cons_of_mem _ List.mem_cons_self, rfl, rfl⟩
  obtain ⟨hlink, hfunction⟩ := (links_of_generate hm hdoc hfront hname).1 hroute
  have hcamel : camelCase "get_all2" = "getAll2" := by decide
  rw [hcamel] at hlink hfunction
  exact ⟨m, hm, hdoc, hfront, hname, hlink, hfunction⟩

end SchemaClient.Client
