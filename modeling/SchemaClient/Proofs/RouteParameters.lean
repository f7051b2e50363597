import Mathlib
import SchemaClient.Proofs.CamelCase

/-!
# The parameters of route functions

The function of a route takes the base URL and the parameters of the route, all under their camel
case. Names in snake case stay distinct in it, and none but `base_url` meets the name of the base
URL. Without that name each interpolation of the template refers to the one parameter for which it
was made.
-/

namespace SchemaClient.Schema

/-- The names of a route's path parameters, then of its query parameters. -/
def Route.parameterNames (r : Route) : List String :=
  (r.pathParams ++ r.queryParams).map (·.name)

end SchemaClient.Schema

namespace SchemaClient.Code

/-- The name in an interpolation. -/
def TemplatePart.reference? : TemplatePart → Option String
  | .text _ => none
  | .value name => some name

namespace RouteFunction

/-- The names in the interpolations of a function's template, in order. -/
def references (f : RouteFunction) : List String :=
  f.template.filterMap TemplatePart.reference?

def parameterNames (f : RouteFunction) : List String :=
  f.parameters.map (·.name)

end RouteFunction

end SchemaClient.Code

namespace SchemaClient.Client
open SchemaClient.Schema SchemaClient.Code SchemaClient.Text

lemma filterMap_separated (separator : String) (ps : List Parameter) :
    (ps.flatMap fun p => [.text separator, .value p.name]).filterMap TemplatePart.reference? =
      ps.map (·.name) := by
  induction ps with
  | nil => rfl
  | cons p ps ih =>
    rw [List.flatMap_cons, List.filterMap_append, ih]
    rfl

lemma filterMap_queryTemplate (ps : List Parameter) :
    (queryTemplate ps).filterMap TemplatePart.reference? = ps.map (·.name) := by
  cases ps with
  | nil => rfl
  | cons p ps => exact congrArg (p.name :: ·) (filterMap_separated "&" ps)

lemma filterMap_urlTemplate (path : String) (pathParams queryParams : List Parameter) :
    (urlTemplate path pathParams queryParams).filterMap TemplatePart.reference? =
      baseUrlName :: (pathParams ++ queryParams).map (·.name) := by
  have hquery : (.text "/" :: queryTemplate queryParams).filterMap TemplatePart.reference? =
      queryParams.map (·.name) := filterMap_queryTemplate queryParams
  rw [urlTemplate, List.filterMap_append, hquery, List.map_append, ← List.cons_append]
  exact congrArg (baseUrlName :: · ++ _) (filterMap_separated "/" pathParams)

section Parameters

variable (routes : List String) (item : Item) (r : Route)

lemma parameterNames_declareRoute : (declareRoute routes item r).parameterNames =
    ("base_url" :: r.parameterNames).map camelCase := by
  have hbase : camelCase "base_url" = baseUrlName := by decide
  have hnames : ∀ ps : List RouteParam,
      (ps.map parameterOf).map (·.name) = (ps.map (·.name)).map camelCase := by
    intro ps
    rw [List.map_map, List.map_map]
    rfl
  rw [List.map_cons, hbase, Route.parameterNames, List.map_append, List.map_append, ← hnames,
    ← hnames, ← List.map_append]
  rfl

/-- Whatever the names are, the template interpolates each parameter once and in order. -/
lemma references_declareRoute :
    (declareRoute routes item r).references = (declareRoute routes item r).parameterNames := by
  rw [RouteFunction.references, declareRoute, filterMap_urlTemplate]
  rfl

/-- For distinct names in snake case the function of a route has distinct parameters, as long as
none of the names is that of the base URL. Then the interpolation of a parameter refers to that
parameter and to no other one. -/
theorem nodup_parameterNames_iff (hsnake : ∀ n ∈ r.parameterNames, IsSnakeCase n)
    (hnodup : r.parameterNames.Nodup) :
    let f := declareRoute routes item r
    (f.parameterNames.Nodup ↔ "base_url" ∉ r.parameterNames) ∧
      f.references = f.parameterNames ∧
      ("base_url" ∉ r.parameterNames → ∀ (i j : Nat) (name : String),
        f.references[i]? = some name → f.parameterNames[j]? = some name → i = j) := by
  have hiff : (declareRoute routes item r).parameterNames.Nodup ↔
      "base_url" ∉ r.parameterNames := by
    rw [parameterNames_declareRoute]
    constructor
    · intro h
      exact (List.nodup_cons.mp h.of_map).1
    · intro h
      exact nodup_map_camelCase (List.forall_mem_cons.mpr ⟨by decide, hsnake⟩)
        (List.nodup_cons.mpr ⟨h, hnodup⟩)
  refine ⟨hiff, references_declareRoute routes item r, fun hbase i j name hi hj => ?_⟩
  rw [references_declareRoute] at hi
  have hlt := (List.getElem?_eq_some_iff.mp hi).1
  exact (List.getElem?_inj hlt (hiff.mpr hbase)).mp (hi.trans hj.symm)

end Parameters

/-- A route with parameters of these names, the first one in the path. -/
def searchRoute (pathParam queryParam : String) : Route where
  method := "GET"
  path := "/search"
  pathParams := [⟨pathParam, "u64"⟩]
  queryParams := [⟨queryParam, "u32"⟩]
  bodyType := none
  returnType := none
  guards := []

theorem nodup_parameterNames_iff_searchRoute :
    let r := searchRoute "user_id" "user_i_d"
    let f := declareRoute [] default r
    (∀ n ∈ r.parameterNames, IsSnakeCase n) ∧ r.parameterNames.Nodup ∧
      f.parameterNames = ["baseUrl", "userId", "userID"] ∧ f.parameterNames.Nodup ∧
      f.references = f.parameterNames ∧
      ∀ (i j : Nat) (name : String),
        f.references[i]? = some name → f.parameterNames[j]? = some name → i = j := by
  have hsnake : ∀ n ∈ (searchRoute "user_id" "user_i_d").parameterNames, IsSnakeCase n := by
    decide
  have hnodup : (searchRoute "user_id" "user_i_d").parameterNames.Nodup := by decide
  have hbase : "base_url" ∉ (searchRoute "user_id" "user_i_d").parameterNames := by decide
  obtain ⟨hiff, hreferences, hunique⟩ := nodup_parameterNames_iff [] default _ hsnake hnodup
  exact ⟨hsnake, hnodup, by decide, hiff.mpr hbase, hreferences, hunique hbase⟩

/-- A parameter of that name stands in the function under the name of the base URL. -/
theorem not_nodup_parameterNames_searchRoute :
    let r := searchRoute "base_url" "page"
    let f := declareRoute [] default r
    (∀ n ∈ r.parameterNames, IsSnakeCase n) ∧ r.parameterNames.Nodup ∧
      f.parameterNames = ["baseUrl", "baseUrl", "page"] ∧ ¬f.parameterNames.Nodup := by
  refine ⟨by decide, by decide, by decide, by decide⟩

end SchemaClient.Client
