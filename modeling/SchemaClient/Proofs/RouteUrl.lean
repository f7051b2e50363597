import Mathlib
import SchemaClient.Client.Route
import SchemaClient.Proofs.Lexeme

/-!
# The URLs of routes

A template literal has a value as soon as the names in it have values. The value of the literal that
a route function returns is the URL of the route, whatever characters the path of the route holds,
and the literal ends at the backtick that is printed behind it.
-/

namespace SchemaClient.Code
open SchemaClient.Text

/-! ### Escaped texts -/

/-- Whether the first character of a text has a meaning in a template literal. -/
def IsSpecial (c : Char) (cs : List Char) : Prop :=
  c = '\\' ∨ c = '\x60' ∨ c = '$' ∧ cs.head? = some '\x7b'

instance (c : Char) (cs : List Char) : Decidable (IsSpecial c cs) :=
  inferInstanceAs (Decidable (_ ∨ _))

/-- The text behind the replacements of single characters. -/
def escapeMarks (cs : List Char) : List Char :=
  replaceAll ['\x60'] ['\\', '\x60'] (replaceAll ['\\'] ['\\', '\\'] cs)

lemma escapeMarks_cons_mark {c : Char} (hc : c = '\\' ∨ c = '\x60') (cs : List Char) :
    escapeMarks (c :: cs) = '\\' :: c :: escapeMarks cs := by
  simp only [escapeMarks, replaceAll_singleton, List.flatMap_cons, List.flatMap_append]
  rcases hc with rfl | rfl <;> simp

lemma escapeMarks_cons_plain {c : Char} (hslash : c ≠ '\\') (htick : c ≠ '\x60')
    (cs : List Char) : escapeMarks (c :: cs) = c :: escapeMarks cs := by
  simp [escapeMarks, replaceAll_singleton, hslash, htick]

lemma head?_escapeMarks (cs : List Char) :
    (escapeMarks cs).head? = some '\x7b' ↔ cs.head? = some '\x7b' := by
  cases cs with
  | nil => simp [escapeMarks, replaceAll_nil]
  | cons c cs =>
    by_cases hc : c = '\\' ∨ c = '\x60'
    · rw [escapeMarks_cons_mark hc]
      rcases hc with rfl | rfl <;> simp
    · obtain ⟨hslash, htick⟩ := not_or.mp hc
      rw [escapeMarks_cons_plain hslash htick, List.head?_cons, List.head?_cons]

/-- The text behind the replacement of dollar signs that a brace follows. -/
def escapeDollars (cs : List Char) : List Char :=
  replaceAll ['$', '\x7b'] ['\\', '$', '\x7b'] cs

lemma escapeDollars_pair (cs : List Char) :
    escapeDollars ('$' :: '\x7b' :: cs) = '\\' :: '$' :: '\x7b' :: escapeDollars cs :=
  replaceAll_append (by simp) cs

lemma escapeDollars_plain {c : Char} {cs : List Char} (h : ¬(c = '$' ∧ cs.head? = some '\x7b')) :
    escapeDollars (c :: cs) = c :: escapeDollars cs := by
  refine replaceAll_cons_of_not_prefix ?_
  rintro ⟨rest, hrest⟩
  obtain ⟨rfl, htail⟩ := List.cons.inj hrest
  exact h ⟨rfl, by rw [← htail]; rfl⟩

/-- The three replacements together put a backslash in front of what is special, in one pass. -/
lemma escapeTemplate_cons (c : Char) (cs : List Char) :
    escapeTemplate (c :: cs) =
      if IsSpecial c cs then '\\' :: c :: escapeTemplate cs else c :: escapeTemplate cs := by
  have htemplate : ∀ cs, escapeTemplate cs = escapeDollars (escapeMarks cs) := fun _ => rfl
  simp only [htemplate]
  by_cases hmark : c = '\\' ∨ c = '\x60'
  · have hspecial : IsSpecial c cs := hmark.imp_right Or.inl
    have hdollar : c ≠ '$' := by rcases hmark with rfl | rfl <;> decide
    rw [if_pos hspecial, escapeMarks_cons_mark hmark, escapeDollars_plain (by simp),
      escapeDollars_plain (by simp [hdollar])]
  · obtain ⟨hslash, htick⟩ := not_or.mp hmark
    rw [escapeMarks_cons_plain hslash htick]
    by_cases hbrace : c = '$' ∧ (escapeMarks cs).head? = some '\x7b'
    -- The brace is the second character of the pair and is not looked at again.
    · obtain ⟨rfl, hhead⟩ := hbrace
      obtain ⟨rest, hrest⟩ := List.head?_eq_some_iff.mp hhead
      rw [if_pos (.inr (.inr ⟨rfl, (head?_escapeMarks cs).mp hhead⟩)), hrest, escapeDollars_pair,
        escapeDollars_plain (by simp)]
    · have hplain : ¬IsSpecial c cs := by
        simp only [IsSpecial, hslash, htick, false_or]
        rwa [← head?_escapeMarks]
      rw [if_neg hplain, escapeDollars_plain hbrace]

@[simp] lemma escapeTemplate_nil : escapeTemplate [] = [] := by
  simp [escapeTemplate, replaceAll_nil]

namespace TemplateLiteral

/-- The name in front of a closing brace, and what follows the brace. -/
def readName? (cs : List Char) : Option (String × List Char) :=
  let name := String.ofList (cs.takeWhile isWordChar)
  match cs.dropWhile isWordChar with
  | '\x7d' :: rest => if IsIdentifier name then some (name, rest) else none
  | _ => none

lemma length_readName? {cs rest : List Char} {name : String}
    (h : readName? cs = some (name, rest)) : rest.length < cs.length := by
  have hle : (cs.dropWhile isWordChar).length ≤ cs.length := (List.dropWhile_sublist _).length_le
  simp only [readName?] at h
  split at h
  · next tail htail =>
    split at h
    · obtain ⟨-, rfl⟩ := Prod.mk.inj (Option.some.inj h)
      rw [htail, List.length_cons] at hle
      exact hle
    · cases h
  · cases h

lemma readName?_append {name : String} (h : IsIdentifier name) (rest : List Char) :
    readName? (name.toList ++ '\x7d' :: rest) = some (name, rest) := by
  have hchars : ∀ c ∈ name.toList, isWordChar c = true := by
    have hword := h.1
    rw [isWord, Bool.and_eq_true, List.all_eq_true] at hword
    exact hword.2
  obtain ⟨htake, hdrop⟩ :=
    (endsWord_cons (by decide) rest : EndsWord ('\x7d' :: rest)).takeWhile_append hchars
  simp only [readName?, htake, hdrop, String.ofList_toList, if_pos h]

variable (value : String → String)

/-- The value of a template literal behind its opening backtick, and what follows its closing one.
A backslash gives the character behind it, and a name in braces behind a dollar sign its value. -/
def evaluate? : List Char → Option (List Char × List Char)
  | [] => none
  | '\x60' :: cs => some ([], cs)
  | '\\' :: c :: cs => (evaluate? cs).map fun p => (c :: p.1, p.2)
  | '$' :: '\x7b' :: cs =>
    match _h : readName? cs with
    | some (name, rest) => (evaluate? rest).map fun p => ((value name).toList ++ p.1, p.2)
    | none => none
  | c :: cs => (evaluate? cs).map fun p => (c :: p.1, p.2)
termination_by cs => cs.length
decreasing_by
  · simp only [List.length_cons]
    omega
  · have hlt := length_readName? _h
    simp only [List.length_cons]
    omega
  · simp only [List.length_cons, Nat.lt_add_one]

lemma evaluate?_backtick (cs : List Char) : evaluate? value ('\x60' :: cs) = some ([], cs) := by
  rw [evaluate?]

lemma evaluate?_backslash (c : Char) (cs : List Char) :
    evaluate? value ('\\' :: c :: cs) = (evaluate? value cs).map fun p => (c :: p.1, p.2) := by
  rw [evaluate?]

lemma evaluate?_plain {c : Char} {cs : List Char} (h : ¬IsSpecial c cs) :
    evaluate? value (c :: cs) = (evaluate? value cs).map fun p => (c :: p.1, p.2) := by
  rw [evaluate?]
  · rintro rfl
    exact h (.inr (.inl rfl))
  · rintro d ds rfl
    exact absurd (.inl rfl) h
  · rintro ds rfl rfl
    exact absurd (.inr (.inr ⟨rfl, rfl⟩)) h

lemma evaluate?_name {name : String} (h : IsIdentifier name) (rest : List Char) :
    evaluate? value ('$' :: '\x7b' :: (name.toList ++ '\x7d' :: rest)) =
      (evaluate? value rest).map fun p => ((value name).toList ++ p.1, p.2) := by
  rw [evaluate?]
  split
  · next found tail htail =>
    rw [readName?_append h] at htail
    obtain ⟨rfl, rfl⟩ := Prod.mk.inj (Option.some.inj htail)
    rfl
  · next hnone => simp [readName?_append h] at hnone

lemma head?_escapeTemplate {cs : List Char} (h : (escapeTemplate cs).head? = some '\x7b') :
    cs.head? = some '\x7b' := by
  cases cs with
  | nil => simp at h
  | cons c cs =>
    rw [escapeTemplate_cons] at h
    split at h
    · simp at h
    · simpa using h

/-- An escaped text stands for itself, unless it ends in a dollar sign and a brace follows. -/
lemma evaluate?_escapeTemplate {cs rest : List Char}
    (h : cs.getLast? = some '$' → rest.head? ≠ some '\x7b') :
    evaluate? value (escapeTemplate cs ++ rest) =
      (evaluate? value rest).map fun p => (cs ++ p.1, p.2) := by
  induction cs with
  | nil => simp
  | cons c cs ih =>
    have htail : cs.getLast? = some '$' → rest.head? ≠ some '\x7b' := by
      intro hlast
      refine h ?_
      rw [List.getLast?_cons, hlast]
      rfl
    rw [escapeTemplate_cons]
    split
    · rw [List.cons_append, List.cons_append, evaluate?_backslash, ih htail, Option.map_map]
      rfl
    · next hplain =>
      have hnext : ¬IsSpecial c (escapeTemplate cs ++ rest) := by
        rintro (rfl | rfl | ⟨rfl, hhead⟩)
        · exact hplain (.inl rfl)
        · exact hplain (.inr (.inl rfl))
        -- A dollar sign at the end of the text meets what follows, any other one the text itself.
        · cases cs with
          | nil => exact h rfl (by simpa using hhead)
          | cons d ds =>
            refine hplain (.inr (.inr ⟨rfl, head?_escapeTemplate ?_⟩))
            rw [← hhead, List.head?_append_of_ne_nil]
            rw [escapeTemplate_cons]
            split <;> simp
      rw [List.cons_append, evaluate?_plain value hnext, ih htail, Option.map_map]
      rfl

/-- The printed pieces of a template literal. -/
def printParts (ps : List TemplatePart) : List Char :=
  ps.flatMap fun p => p.print.toList

/-- What a piece of a template literal stands for. -/
def meaning : TemplatePart → String
  | .text s => s
  | .value name => value name

/-- Names are identifiers, and no text that ends in a dollar sign is followed by a brace. -/
inductive IsReadable : List TemplatePart → Prop
  | nil : IsReadable []
  | value {name : String} {ps : List TemplatePart} (hname : IsIdentifier name)
      (hps : IsReadable ps) : IsReadable (.value name :: ps)
  | text {s : String} {ps : List TemplatePart}
      (hs : s.toList.getLast? = some '$' → (printParts ps).head? ≠ some '\x7b')
      (hps : IsReadable ps) : IsReadable (.text s :: ps)

lemma head?_printParts_slash (ps : List TemplatePart) :
    (printParts (.text "/" :: ps)).head? = some '/' := by
  have hprint : printParts (.text "/" :: ps) = escapeTemplate ['/'] ++ printParts ps := by
    simp [printParts, TemplatePart.print]
  rw [hprint, escapeTemplate_cons, if_neg (by decide)]
  rfl

/-- The printed pieces evaluate to what they stand for, and the literal ends at the backtick behind
them. -/
lemma evaluate?_printParts {ps : List TemplatePart} (h : IsReadable ps) (rest : List Char) :
    evaluate? value (printParts ps ++ '\x60' :: rest) =
      some (ps.flatMap fun p => (meaning value p).toList, rest) := by
  induction h with
  | nil => exact evaluate?_backtick value rest
  | @value name ps hname _ ih =>
    have hprint : printParts (.value name :: ps) ++ '\x60' :: rest =
        '$' :: '\x7b' :: (name.toList ++ '\x7d' :: (printParts ps ++ '\x60' :: rest)) := by
      simp [printParts, TemplatePart.print]
    rw [hprint, evaluate?_name value hname, ih]
    rfl
  | @text s ps hs _ ih =>
    have hprint : printParts (.text s :: ps) ++ '\x60' :: rest =
        escapeTemplate s.toList ++ (printParts ps ++ '\x60' :: rest) := by
      simp [printParts, TemplatePart.print]
    have hnext : s.toList.getLast? = some '$' →
        (printParts ps ++ '\x60' :: rest).head? ≠ some '\x7b' := by
      intro hlast
      rw [List.head?_append]
      cases hhead : (printParts ps).head? with
      | none => simp
      | some c =>
        rw [Option.some_or, ← hhead]
        exact hs hlast
    rw [hprint, evaluate?_escapeTemplate value hnext, ih]
    rfl

end TemplateLiteral

namespace RouteFunction

/-- The text of a route function up to the opening backtick of the literal that it returns. -/
def opening (level : Nat) (f : RouteFunction) : String :=
  indent level ++ "function " ++ f.name ++ "(" ++
    ", ".intercalate (f.parameters.map (·.print level)) ++ "): string \x7b\n" ++ indent level ++
    "  return `"

/-- The text of a route function between the backticks. -/
def literal (f : RouteFunction) : String :=
  String.join (f.template.map TemplatePart.print)

/-- The text of a route function behind the closing backtick. -/
def closing (level : Nat) : String :=
  ";\n" ++ indent level ++ "\x7d\n"

lemma print_eq (level : Nat) (f : RouteFunction) :
    f.print level = f.opening level ++ f.literal ++ "`" ++ closing level := by
  have hend : "`;\n" = "`" ++ ";\n" := rfl
  simp only [RouteFunction.print, opening, literal, closing, hend, String.append_assoc]

lemma toList_literal (f : RouteFunction) :
    f.literal.toList = TemplateLiteral.printParts f.template := by
  simp [literal, TemplateLiteral.printParts, List.flatMap_map]

end RouteFunction
end SchemaClient.Code

namespace SchemaClient.Client
open SchemaClient.Schema SchemaClient.Code SchemaClient.Code.TemplateLiteral

/-- The URL of a route where names have values: the base URL, the path without its placeholders and
without slashes at its end, each path parameter behind a slash, a slash, and the query parameters
behind a question mark with ampersands between them. -/
def urlOf (value : String → String) (r : Route) : String :=
  let valueOf (p : RouteParam) := value (Text.camelCase p.name)
  let stem := (stripPlaceholders r.path).toList.rdropWhile (· == '/')
  let query := if r.queryParams.isEmpty then "" else
    "?" ++ "&".intercalate (r.queryParams.map valueOf)
  value "baseUrl" ++ String.ofList stem ++
    String.join (r.pathParams.map fun p => "/" ++ valueOf p) ++ "/" ++ query

/-- The names of parameters are identifiers. -/
def HasIdentifiers (ps : List Parameter) : Prop :=
  ∀ p ∈ ps, IsIdentifier p.name

lemma isReadable_separated {separator : String} (hseparator : separator.toList.getLast? ≠ some '$')
    {ps : List Parameter} (hps : HasIdentifiers ps) {rest : List TemplatePart}
    (hrest : IsReadable rest) :
    IsReadable ((ps.flatMap fun p => [.text separator, .value p.name]) ++ rest) := by
  induction ps with
  | nil => exact hrest
  | cons p ps ih =>
    obtain ⟨hp, hps⟩ := List.forall_mem_cons.mp hps
    exact .text (fun h => absurd h hseparator) (.value hp (ih hps))

lemma isReadable_queryTemplate {ps : List Parameter} (hps : HasIdentifiers ps) :
    IsReadable (queryTemplate ps) := by
  cases ps with
  | nil => exact .nil
  | cons p ps =>
    obtain ⟨hp, hps⟩ := List.forall_mem_cons.mp hps
    have hfurther : IsReadable (ps.flatMap fun p => [.text "&", .value p.name]) := by
      rw [← List.append_nil (ps.flatMap _)]
      exact isReadable_separated (by decide) hps .nil
    exact .text (fun h => absurd h (by decide)) (.value hp hfurther)

lemma isReadable_urlTemplate (path : String) {pathParams queryParams : List Parameter}
    (hpath : HasIdentifiers pathParams) (hquery : HasIdentifiers queryParams) :
    IsReadable (urlTemplate path pathParams queryParams) := by
  have hslash : IsReadable (.text "/" :: queryTemplate queryParams) :=
    .text (fun h => absurd h (by decide)) (isReadable_queryTemplate hquery)
  refine .value (by decide) (.text (fun _ => ?_) (isReadable_separated (by decide) hpath hslash))
  -- Whatever the path ends in, a slash stands behind it.
  have hhead : (printParts ((pathParams.flatMap fun p => [.text "/", .value p.name]) ++
      .text "/" :: queryTemplate queryParams)).head? = some '/' := by
    cases pathParams with
    | nil => exact head?_printParts_slash _
    | cons p ps => exact head?_printParts_slash _
  exact fun hbrace => absurd (hhead.symm.trans hbrace) (by decide)

section Meaning

variable (value : String → String)

lemma meaning_separated (separator : String) (ps : List RouteParam) :
    ((ps.map parameterOf).flatMap fun p => [.text separator, .value p.name]).flatMap
        (fun p => (meaning value p).toList) =
      (String.join (ps.map fun p => separator ++ value (Text.camelCase p.name))).toList := by
  induction ps with
  | nil => simp
  | cons p ps ih =>
    rw [List.map_cons, List.flatMap_cons, List.flatMap_append, ih, List.map_cons, String.join_cons]
    simp [meaning, parameterOf]

lemma intercalate_cons_eq_join (separator s : String) (l : List String) :
    separator.intercalate (s :: l) = s ++ String.join (l.map (separator ++ ·)) := by
  induction l generalizing s with
  | nil => simp
  | cons t l ih =>
    rw [String.intercalate_cons_cons, ih, List.map_cons, String.join_cons, String.append_assoc,
      String.append_assoc]

lemma meaning_queryTemplate (ps : List RouteParam) :
    (queryTemplate (ps.map parameterOf)).flatMap (fun p => (meaning value p).toList) =
      (if ps.isEmpty then "" else
        "?" ++ "&".intercalate (ps.map fun p => value (Text.camelCase p.name))).toList := by
  cases ps with
  | nil => rfl
  | cons p ps =>
    rw [List.map_cons, List.map_cons, queryTemplate, List.flatMap_cons, List.flatMap_cons,
      meaning_separated, intercalate_cons_eq_join, List.map_map]
    simp [meaning, parameterOf, Function.comp_def]

lemma meaning_urlTemplate (r : Route) :
    ((urlTemplate r.path (r.pathParams.map parameterOf) (r.queryParams.map parameterOf)).flatMap
      fun p => (meaning value p).toList) = (urlOf value r).toList := by
  have hstem : Text.dropEndWhile (· == '/') (RoutePath.strip r.path.toList) =
      (stripPlaceholders r.path).toList.rdropWhile (· == '/') := by
    rw [stripPlaceholders, String.toList_ofList]
    rfl
  rw [urlTemplate, hstem, List.flatMap_append, List.flatMap_cons, List.flatMap_cons,
    List.flatMap_cons, meaning_separated, meaning_queryTemplate]
  simp [urlOf, meaning, baseUrlName]

end Meaning

/-- The function of a route returns a template literal whose value is the URL of the route: reading
the printed literal from its opening backtick gives the URL and stops at its closing backtick,
whatever stands behind. -/
theorem evaluate?_declareRoute (routes : List String) (item : Item) (r : Route)
    (h : ∀ p ∈ r.pathParams ++ r.queryParams, IsIdentifier (Text.camelCase p.name))
    (value : String → String) (level : Nat) :
    (declareRoute routes item r).print level =
        (declareRoute routes item r).opening level ++ (declareRoute routes item r).literal ++ "`" ++
          RouteFunction.closing level ∧
      ∀ rest, evaluate? value ((declareRoute routes item r).literal.toList ++ '\x60' :: rest) =
        some ((urlOf value r).toList, rest) := by
  refine ⟨RouteFunction.print_eq level _, fun rest => ?_⟩
  obtain ⟨hpath, hquery⟩ := List.forall_mem_append.mp h
  have hreadable : IsReadable (declareRoute routes item r).template :=
    isReadable_urlTemplate r.path (List.forall_mem_map.mpr hpath) (List.forall_mem_map.mpr hquery)
  rw [RouteFunction.toList_literal, evaluate?_printParts value hreadable]
  exact congrArg (fun cs => some (cs, rest)) (meaning_urlTemplate value r)

/-- A route whose path holds the marks of template literals. -/
def markedRoute : Route where
  method := "GET"
  path := "/a`b\\/$\x7by\x7d<user_id>/$//"
  pathParams := [⟨"user_id", "u64"⟩]
  queryParams := [⟨"page_size", "u32"⟩, ⟨"page", "u32"⟩]
  bodyType := none
  returnType := none
  guards := []

/-- A value for every name: the name with an exclamation mark. -/
def exclaimed (name : String) : String :=
  name ++ "!"

lemma urlOf_markedRoute : urlOf exclaimed markedRoute =
    "baseUrl!/a`b\\/$\x7by\x7d/$/userId!/?pageSize!&page!" := by
  cbv

/-- The function of that route. -/
def markedFunction : RouteFunction :=
  declareRoute [] default markedRoute

theorem evaluate?_declareRoute_markedRoute :
    (∀ p ∈ markedRoute.pathParams ++ markedRoute.queryParams,
      IsIdentifier (Text.camelCase p.name)) ∧
    markedFunction.print 0 = markedFunction.opening 0 ++ markedFunction.literal ++ "`" ++
      RouteFunction.closing 0 ∧
    evaluate? exclaimed (markedFunction.literal.toList ++ '\x60' :: ";\n\x7d\n".toList) =
      some ("baseUrl!/a`b\\/$\x7by\x7d/$/userId!/?pageSize!&page!".toList,
        ";\n\x7d\n".toList) := by
  have hnames : ∀ p ∈ markedRoute.pathParams ++ markedRoute.queryParams,
      IsIdentifier (Text.camelCase p.name) := by decide
  obtain ⟨hprint, hvalue⟩ := evaluate?_declareRoute [] default markedRoute hnames exclaimed 0
  refine ⟨hnames, hprint, ?_⟩
  rw [← urlOf_markedRoute]
  exact hvalue _

end SchemaClient.Client
