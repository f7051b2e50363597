import SchemaClient.Client.Struct

/-!
# Routes of a module

A route becomes a function that builds its URL from a base URL, its path parameters and its query
parameters.
-/

namespace SchemaClient.Client

open SchemaClient.Schema SchemaClient.Code

namespace RoutePath

/-- The text after the first `>`, if there is one. -/
def afterClosing? : List Char → Option (List Char)
  | [] => none
  | c :: cs => if c = '>' then some cs else afterClosing? cs

/-- The characters that may stand between a path and a placeholder. -/
def isSeparator (c : Char) : Bool :=
  c == '/' || c == '?' || c == '&'

/-- The text after a placeholder and the separator in front of it, if it begins so. -/
def afterPlaceholder? : List Char → Option (List Char)
  | '<' :: cs => afterClosing? cs
  | c :: '<' :: cs => if isSeparator c then afterClosing? cs else none
  | _ => none

theorem length_afterClosing? {cs rest : List Char} (h : afterClosing? cs = some rest) :
    rest.length < cs.length := by
  induction cs with
  | nil => simp [afterClosing?] at h
  | cons c cs ih =>
    simp only [afterClosing?] at h
    split at h
    · simp_all
    · have := ih h
      simp
      omega

theorem length_afterPlaceholder? {cs rest : List Char} (h : afterPlaceholder? cs = some rest) :
    rest.length < cs.length := by
  unfold afterPlaceholder? at h
  split at h
  · have := length_afterClosing? h
    simp
    omega
  · split at h
    · have := length_afterClosing? h
      simp
      omega
    · simp at h
  · simp at h

/-- The text without its placeholders, each with the separator in front of it. -/
def strip : List Char → List Char
  | [] => []
  | c :: cs =>
    match _h : afterPlaceholder? (c :: cs) with
    | some rest => strip rest
    | none => c :: strip cs
termination_by cs => cs.length
decreasing_by
  · exact length_afterPlaceholder? _h
  · simp

end RoutePath

/-- A route's path without its placeholders. -/
def stripPlaceholders (path : String) : String :=
  String.ofList (RoutePath.strip path.toList)

/-- The name of the parameter for the URL that all routes stand under. -/
def baseUrlName : String := "baseUrl"

/-- The function's parameter for a parameter of the route. -/
def parameterOf (p : RouteParam) : Parameter :=
  ⟨Text.camelCase p.name, TypeExpr.typeOf p.type⟩

/-- The pieces for query parameters, the first behind a question mark and the others behind an
ampersand. -/
def queryTemplate : List Parameter → List TemplatePart
  | [] => []
  | p :: ps => .text "?" :: .value p.name :: ps.flatMap fun p => [.text "&", .value p.name]

/-- The pieces of a route's URL: the base URL, the path without placeholders and without slashes
at its end, the path parameters behind a slash each, a slash, and the query parameters. -/
def urlTemplate (path : String) (pathParams queryParams : List Parameter) : List TemplatePart :=
  let stem := Text.dropEndWhile (· == '/') (RoutePath.strip path.toList)
  .value baseUrlName :: .text (String.ofList stem) ::
    (pathParams.flatMap fun p => [.text "/", .value p.name]) ++
    .text "/" :: queryTemplate queryParams

/-- The function that builds the URL of a route. -/
def declareRoute (routes : List String) (item : Item) (r : Route) : RouteFunction :=
  let pathParams := r.pathParams.map parameterOf
  let queryParams := r.queryParams.map parameterOf
  { name := Text.camelCase item.name
    doc := Doc.render routes item.doc
    parameters := ⟨baseUrlName, .prim .string⟩ :: pathParams ++ queryParams
    template := urlTemplate r.path pathParams queryParams }

end SchemaClient.Client
