/-!
# Paths

A path is a text whose parts are separated by slashes. These functions look at the text alone: two
spellings of one place are different paths.
-/

namespace SchemaClient.Store.Path

/-- Whether a path begins at the root. -/
def isAbsolute (p : String) : Bool :=
  p.toList.head? == some '/'

/-- The path `q` taken from the directory `p`: an absolute path stands for itself, and no slash is
added behind one or behind an empty path. -/
def join (p q : String) : String :=
  if isAbsolute q then q
  else if p.isEmpty || p.toList.getLast? == some '/' then p ++ q
  else p ++ "/" ++ q

/-- A reversed path without the slashes and the dots at its end that name no place of their own. -/
def trimReversed : List Char → List Char
  | ['/'] => ['/']
  | '/' :: cs => trimReversed cs
  | '.' :: '/' :: cs => trimReversed ('/' :: cs)
  | cs => cs

/-- A reversed path without its last part; nothing if it has none. -/
def parentReversed? (cs : List Char) : Option (List Char) :=
  match trimReversed cs with
  | [] => none
  | ['/'] => none
  | c :: cs => some (trimReversed ((c :: cs).dropWhile (· != '/')))

/-- The directory that a path stands in; the root and the empty path stand in none. -/
def parent? (p : String) : Option String :=
  (parentReversed? p.toList.reverse).map fun cs => String.ofList cs.reverse

/-- The parts of a path, the empty ones left out. -/
def parts (p : String) : List String :=
  ((p.toList.splitOn '/').filter (!·.isEmpty)).map String.ofList

/-- Whether a path ends with a slash, so that it can only name a directory. -/
def endsWithSlash (p : String) : Bool :=
  p.toList.getLast? == some '/'

end SchemaClient.Store.Path
