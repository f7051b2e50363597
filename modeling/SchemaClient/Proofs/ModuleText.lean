import SchemaClient.Proofs.OnePass

/-!
# The text of a module

A module is the header and its parts, each behind an empty line: the structs, each enum with its
variants, the route functions and the registry. The template arranges the printed parts and changes
none of them, whatever characters they hold, and so the only failure is a cycle of types.
-/

namespace SchemaClient.Template

section Each

variable {α : Type} (f : α → String)

lemma concatEach_string {render : Json → Option String} (h : ∀ s, render (.string s) = some s)
    (items : List α) :
    concatEach render (items.map fun a => .string (f a)) = some (String.join (items.map f)) := by
  induction items with
  | nil => rfl
  | cons a items ih =>
    rw [List.map_cons, concatEach, h, ih, List.map_cons, String.join_cons]
    rfl

/-- The block that repeats over texts and writes each of them as it is. -/
lemma render?_each {context : Json} {name : String} {items : List α} {body : List Piece}
    (hname : lookup? context [name] = some (.array (items.map fun a => .string (f a))))
    (hbody : ∀ s, renderAll? (.string s) body = some s) :
    (Piece.block eachHelper (some (.path [name])) body none).render? context =
      some (String.join (items.map f)) := by
  have helements : (Subject.path [name]).elements? context =
      some (items.map fun a => .string (f a)) := by
    rw [Subject.elements?, hname]
    rfl
  have hconcat : concatEach (fun v => renderAll? v body) (items.map fun a => .string (f a)) =
      some (String.join (items.map f)) := concatEach_string f hbody items
  rw [Piece.render?, if_pos rfl, Option.map_some, helements]
  cases items with
  | nil => rfl
  | cons a items => exact hconcat

end Each

lemma renderAll?_cons {context : Json} {p : Piece} {s : String} (hp : p.render? context = some s)
    {ps : List Piece} {r : String} (hps : renderAll? context ps = some r) :
    renderAll? context (p :: ps) = some (s ++ r) := by
  rw [renderAll?, hp, hps]
  rfl

/-- Whether a piece is a text that writes nothing. -/
def Piece.isEmptyText : Piece → Bool
  | .text s => s.isEmpty
  | _ => false

lemma renderAll?_filter (context : Json) (ps : List Piece) :
    renderAll? context (ps.filter (!·.isEmptyText)) = renderAll? context ps := by
  induction ps with
  | nil => rfl
  | cons p ps ih =>
    by_cases hp : p.isEmptyText = true
    · have hrender : p.render? context = some "" := by
        cases p with
        | text s => simpa [Piece.isEmptyText, Piece.render?] using hp
        | _ => cases hp
      rw [List.filter_cons_of_neg (by simp [hp]), ih, renderAll?, hrender]
      cases renderAll? context ps <;> simp
    · rw [List.filter_cons_of_pos (by simpa using hp), renderAll?, renderAll?, ih]

lemma renderAll?_self (s : String) : renderAll? (.string s) [.value []] = some s := by
  simp [renderAll?, Piece.render?, lookup?, display]

/-- The text from which the template of a client module is read. -/
def moduleTemplateText : String :=
  "\x7b\x7b\x7bheader\x7d\x7d\x7d\n" ++
    "\x7b\x7b#each structs\x7d\x7d\x7b\x7b\x7bthis\x7d\x7d\x7d\x7b\x7b/each\x7d\x7d" ++
    "\x7b\x7b#each enums\x7d\x7d\x7b\x7b\x7bthis\x7d\x7d\x7d\x7b\x7b/each\x7d\x7d" ++
    "\x7b\x7b#each routes\x7d\x7d\x7b\x7b\x7bthis\x7d\x7d\x7d\x7b\x7b/each\x7d\x7d" ++
    "\x7b\x7b\x7bregistry\x7d\x7d\x7d"

/-- The block that is read for a list of parts, with the empty texts between its tags. -/
def readEach (name : String) : Piece :=
  .block eachHelper (some (.path [name])) [.text "", .value [], .text ""] none

lemma ofString?_moduleTemplateText : ofString? moduleTemplateText =
    some [.text "", .value ["header"], .text "\n", readEach "structs", .text "", readEach "enums",
      .text "", readEach "routes", .text "", .value ["registry"], .text ""] := by
  cbv

end SchemaClient.Template

namespace SchemaClient.Client
open SchemaClient.Schema SchemaClient.Code SchemaClient.Template

namespace Sections

/-- The printed parts of the sections in order. -/
def parts (s : Sections) : List String :=
  s.types.map (·.print 0) ++ s.routes.map (·.print 0) ++ [s.registry.print 0]

/-- The header and, each behind an empty line, the parts. -/
def text (s : Sections) : String :=
  header ++ "\n" ++ String.join (s.parts.map entry)

lemma text_eq (s : Sections) : s.text = header ++ ("\n" ++
    (String.join (s.structs.map fun d => entry (d.print 0)) ++
    (String.join (s.enums.map fun d => entry (d.print 0)) ++
    (String.join (s.routes.map fun f => entry (f.print 0)) ++ entry (s.registry.print 0))))) := by
  simp only [text, parts, types, List.map_append, List.map_map, String.join_append, List.map_cons,
    List.map_nil, String.join_cons, String.join_nil, String.append_empty, String.append_assoc]
  rfl

lemma render?_header (s : Sections) :
    (Piece.value ["header"]).render? s.context = some header := by
  rw [Piece.render?]
  rfl

lemma render?_registry (s : Sections) :
    (Piece.value ["registry"]).render? s.context = some (entry (s.registry.print 0)) := by
  rw [Piece.render?]
  rfl

/-- Templates of this shape arrange the sections without a change. -/
lemma renderAll?_sections (s : Sections) {body : List Piece}
    (hbody : ∀ t, renderAll? (.string t) body = some t) :
    renderAll? s.context [.value ["header"], .text "\n",
      .block eachHelper (some (.path ["structs"])) body none,
      .block eachHelper (some (.path ["enums"])) body none,
      .block eachHelper (some (.path ["routes"])) body none, .value ["registry"]] =
        some s.text := by
  rw [text_eq]
  apply renderAll?_cons s.render?_header
  apply renderAll?_cons (by rw [Piece.render?])
  apply renderAll?_cons (render?_each (fun d : Declaration => entry (d.print 0)) rfl hbody)
  apply renderAll?_cons (render?_each (fun d : Declaration => entry (d.print 0)) rfl hbody)
  apply renderAll?_cons (render?_each (fun f : RouteFunction => entry (f.print 0)) rfl hbody)
  rw [renderAll?_cons s.render?_registry (by rw [renderAll?]), String.append_empty]

lemma content?_eq (s : Sections) : s.content? = some s.text :=
  s.renderAll?_sections renderAll?_self

/-- The template that is read from its text arranges the sections alike. -/
lemma render_moduleTemplateText (s : Sections) :
    (ofString? moduleTemplateText).bind (renderAll? s.context) = some s.text := by
  have hself : ∀ t, renderAll? (.string t) [.text "", .value [], .text ""] = some t := by
    intro t
    rw [← renderAll?_filter]
    exact renderAll?_self t
  rw [ofString?_moduleTemplateText, Option.bind_some, ← renderAll?_filter]
  exact s.renderAll?_sections hself

end Sections

/-- The names of the routes of an inventory in order. -/
def routeNames (inv : Inventory) : List String :=
  inv.items.filterMap fun i => match i.definition with
    | .route _ => some i.name
    | _ => none

/-- The types that an inventory declares: its structs in order, then its enums in order, each as a
union followed by the variants that are not left out. -/
def declaredTypes (inv : Inventory) : List Declaration :=
  let names := routeNames inv
  (inv.items.filterMap fun i => match i.definition with
    | .struct s => some (declareStruct names i s)
    | _ => none) ++
  inv.items.flatMap fun i => match i.definition with
    | .enum e => declareUnion names i e :: e.variants.filterMap (declareVariant names i e)
    | _ => []

/-- The functions of the routes of an inventory in order. -/
def routeFunctions (inv : Inventory) : List RouteFunction :=
  inv.items.filterMap fun i => match i.definition with
    | .route r => some (declareRoute (routeNames inv) i r)
    | _ => none

/-- The line of a function in the registry, behind the documentation of its route. -/
def registryLine (f : RouteFunction) : String :=
  Comment.optional "  " f.doc ++ "  " ++ f.name ++ ",\n"

/-- The registry of some functions, with a line for each of them in order. -/
def registryText (fs : List RouteFunction) : String :=
  if fs.isEmpty then "export const ROUTES = \x7b\x7d;\n"
  else "export const ROUTES = \x7b\n" ++ String.join (fs.map registryLine) ++ "\x7d;\n"

/-- The header and, each behind an empty line, the types, the functions and their registry. -/
def moduleText (inv : Inventory) : String :=
  let parts := (declaredTypes inv).map (·.print 0) ++ (routeFunctions inv).map (·.print 0) ++
    [registryText (routeFunctions inv)]
  "// This file was @generated by typegen\n" ++ String.join (parts.map ("\n" ++ ·))

lemma print_registry (fs : List RouteFunction) :
    (Registry.ofFunctions fs).print 0 = registryText fs := by
  have hempty : Text.indent 0 ++ "export const " ++ Registry.constantName ++ " = \x7b" ++
      "\x7d;\n" = "export const ROUTES = \x7b\x7d;\n" := by decide
  have hopening : Text.indent 0 ++ "export const " ++ Registry.constantName ++ " = \x7b" ++
      "\n" = "export const ROUTES = \x7b\n" := by decide
  have hpad : Text.indent 0 = "" := rfl
  have hlines : (Registry.ofFunctions fs).entries.map (RegistryEntry.print 1) =
      fs.map registryLine := by
    rw [Registry.ofFunctions, List.map_map]
    rfl
  have hnone : (Registry.ofFunctions fs).entries.isEmpty = fs.isEmpty := List.isEmpty_map
  rw [Registry.print, registryText, hnone]
  split
  · exact hempty
  · rw [hopening, hlines, hpad, String.append_empty]

lemma map_name_routes (inv : Inventory) : inv.routes.map (·.1.name) = routeNames inv :=
  inv.map_routes fun i _ => i.name

lemma enumDeclarations_ofItems (names : List String) (inv : Inventory) :
    (Selection.ofItems names inv.items).enumDeclarations = inv.items.flatMap fun i =>
      match i.definition with
      | .enum e => declareUnion names i e :: e.variants.filterMap (declareVariant names i e)
      | _ => [] := by
  have hall (i : Item) (e : Enumeration) : (declareEnum names i e).all =
      declareUnion names i e :: e.variants.filterMap (declareVariant names i e) := by
    rw [EnumDeclarations.all, declareEnum, List.filterMap_map]
    rfl
  simp only [Selection.enumDeclarations, Selection.ofItems, List.flatMap_map, hall]
  exact inv.flatMap_enums fun i e =>
    declareUnion names i e :: e.variants.filterMap (declareVariant names i e)

lemma types_ofInventory (inv : Inventory) :
    (Sections.ofInventory inv).types = declaredTypes inv := by
  rw [ofInventory_eq_selection, Selection.ofInventory, map_name_routes, Sections.types,
    enumDeclarations_ofItems]
  exact congrArg (· ++ _) (inv.map_structs (declareStruct (routeNames inv)))

lemma routes_ofInventory (inv : Inventory) :
    (Sections.ofInventory inv).routes = routeFunctions inv := by
  rw [ofInventory_eq_selection, Selection.ofInventory, map_name_routes]
  exact inv.map_routes (declareRoute (routeNames inv))

lemma text_ofInventory (inv : Inventory) :
    (Sections.ofInventory inv).text = moduleText inv := by
  rw [Sections.text, Sections.parts, types_ofInventory, Sections.registry, routes_ofInventory,
    print_registry]
  rfl

lemma prefix_append (s t : String) : s.toList <+: (s ++ t).toList := by
  rw [String.toList_append]
  exact List.prefix_append _ _

lemma suffix_append (s t : String) : t.toList <:+ (s ++ t).toList := by
  rw [String.toList_append]
  exact List.suffix_append _ _

lemma suffix_registryText (fs : List RouteFunction) :
    "\x7d;\n".toList <:+ (registryText fs).toList := by
  unfold registryText
  split
  · exact suffix_append "export const ROUTES = \x7b" _
  · exact suffix_append _ _

lemma prefix_moduleText (inv : Inventory) :
    "// This file was @generated by typegen\n".toList <+: (moduleText inv).toList :=
  prefix_append _ _

lemma suffix_join (ss : List String) (s : String) :
    s.toList <:+ (String.join (ss ++ [s])).toList := by
  rw [String.join_append, String.join_cons, String.join_nil, String.append_empty]
  exact suffix_append _ _

lemma suffix_moduleText (inv : Inventory) : "\x7d;\n".toList <:+ (moduleText inv).toList := by
  have hregistry := suffix_registryText (routeFunctions inv)
  have hlast : ("\n" ++ registryText (routeFunctions inv)).toList <:+ (moduleText inv).toList := by
    unfold moduleText
    dsimp only
    rw [List.map_append]
    exact (suffix_join _ _).trans (suffix_append _ _)
  exact (hregistry.trans (suffix_append _ _)).trans hlast

/-- Only a cycle of types keeps an inventory from its module. -/
lemma generate_eq (inv : Inventory) : generate inv =
    match findCycle? (declaredTypes inv) with
    | some chain => .error (.flattenCycle chain)
    | none =>
      .ok ⟨inv.version, inv.fileName, moduleText inv, (Sections.ofInventory inv).stats⟩ := by
  have hcontent : (Sections.ofInventory inv).content? = some (moduleText inv) := by
    rw [Sections.content?_eq, text_ofInventory]
  unfold generate
  dsimp only
  rw [types_ofInventory]
  cases findCycle? (declaredTypes inv) with
  | some chain => rfl
  | none => simp only [hcontent]

lemma eq_of_generate {inv : Inventory} {m : Module} (h : generate inv = .ok m) :
    m = ⟨inv.version, inv.fileName, moduleText inv, (Sections.ofInventory inv).stats⟩ := by
  rw [generate_eq] at h
  split at h
  · cases h
  · exact (Except.ok.inj h).symm

/-- A module is made unless the types lead back to each other, and it is the plain text of its
parts, which the template neither changes nor reorders. -/
theorem generate_eq_moduleText (inv : Inventory) :
    (generate inv = match findCycle? (declaredTypes inv) with
      | some chain => .error (.flattenCycle chain)
      | none =>
        .ok ⟨inv.version, inv.fileName, moduleText inv, (Sections.ofInventory inv).stats⟩) ∧
    (ofString? moduleTemplateText).bind (renderAll? (Sections.ofInventory inv).context) =
      some (moduleText inv) ∧
    "// This file was @generated by typegen\n".toList <+: (moduleText inv).toList ∧
    "\x7d;\n".toList <:+ (moduleText inv).toList := by
  refine ⟨generate_eq inv, ?_, prefix_moduleText inv, suffix_moduleText inv⟩
  rw [Sections.render_moduleTemplateText, text_ofInventory]

end SchemaClient.Client
