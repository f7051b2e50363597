import SchemaClient.Text.Case

/-!
# Documentation of a module

Schema documentation is text with links such as "see [`Session`]". A module writes each of them
as an inline link, and a link to a route under the name of the route's function.
-/

namespace SchemaClient.Client.Doc

open SchemaClient.Text

/-- The text after the end of a link, if it begins with one. -/
def afterEnd? : List Char → Option (List Char)
  | '\x60' :: ']' :: cs => some cs
  | _ => none

/-- The target of a link that has been opened and the text after the link: the shortest text that
is not empty, has no line feed, and stands in front of an end. -/
def target? : List Char → Option (List Char × List Char)
  | [] => none
  | c :: cs =>
    if c = '\n' then none
    else match afterEnd? cs with
      | some rest => some ([c], rest)
      | none => (target? cs).map fun p => (c :: p.1, p.2)

theorem length_afterEnd? {cs rest : List Char} (h : afterEnd? cs = some rest) :
    rest.length + 2 = cs.length := by
  unfold afterEnd? at h
  split at h <;> simp_all

theorem length_target? {cs t rest : List Char} (h : target? cs = some (t, rest)) :
    rest.length < cs.length := by
  induction cs generalizing t with
  | nil => simp [target?] at h
  | cons c cs ih =>
    simp only [target?] at h
    split at h
    · simp at h
    · split at h
      · next r hr =>
        have := length_afterEnd? hr
        simp at h
        obtain ⟨-, rfl⟩ := h
        simp
        omega
      · obtain ⟨p, hp, he⟩ := Option.map_eq_some_iff.1 h
        simp at he
        obtain ⟨-, rfl⟩ := he
        have := ih hp
        simp
        omega

/-- The text after the beginning of a link, if it begins with one. -/
def afterStart? : List Char → Option (List Char)
  | '[' :: '\x60' :: cs => some cs
  | _ => none

/-- The target of the link that a text begins with, and the text after the link. -/
def link? (cs : List Char) : Option (List Char × List Char) :=
  (afterStart? cs).bind target?

theorem length_afterStart? {cs rest : List Char} (h : afterStart? cs = some rest) :
    rest.length + 2 = cs.length := by
  unfold afterStart? at h
  split at h <;> simp_all

theorem length_link? {cs t rest : List Char} (h : link? cs = some (t, rest)) :
    rest.length < cs.length := by
  obtain ⟨r, hr, ht⟩ := Option.bind_eq_some_iff.1 h
  have := length_afterStart? hr
  have := length_target? ht
  omega

/-- The text with each link written as an inline link to its renamed target. -/
def resolveLinks (rename : List Char → List Char) : List Char → List Char
  | [] => []
  | c :: cs =>
    match _h : link? (c :: cs) with
    | some (t, rest) => "\x7b@link ".toList ++ rename t ++ '\x7d' :: resolveLinks rename rest
    | none => c :: resolveLinks rename cs
termination_by cs => cs.length
decreasing_by
  · exact length_link? _h
  · simp

/-- What a link to a target is written with: a route's function stands under its camel case. -/
def linkName (routes : List String) (target : List Char) : List Char :=
  if routes.contains (String.ofList target) then joinWords false target else target

/-- The text without the line breaks in front and the white space behind. -/
def trim (doc : List Char) : List Char :=
  trimEnd (doc.dropWhile fun c => c == '\n' || c == '\r')

/-- The documentation of a module for a schema's, `routes` being the names of the routes; nothing
for a blank text. -/
def render (routes : List String) (doc : String) : Option String :=
  match trim doc.toList with
  | [] => none
  | cs => some (String.ofList (resolveLinks (linkName routes) cs))

end SchemaClient.Client.Doc
