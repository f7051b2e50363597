import SchemaClient.Failure
import SchemaClient.Schema.Decode
import SchemaClient.Store.Web

/-!
# Sources of inventories

An inventory is an index and the documents of its items below one root, which is a directory or an
address in the web.
-/

namespace SchemaClient.Load

open SchemaClient.Schema SchemaClient.Store SchemaClient.Text

/-- Where the documents of an inventory stand. -/
inductive Root where
  | web (address : String)
  | directory (path : String)
deriving DecidableEq, Repr

namespace Root

/-- The root at an address in the web; slashes at its end do not count. -/
def ofAddress (s : String) : Root :=
  .web (String.ofList (dropEndWhile (· == '/') s.toList))

/-- The beginnings of addresses in the web. -/
def schemes : List String := ["http://", "https://"]

/-- The root that an argument names. -/
def ofArgument (s : String) : Root :=
  if schemes.any fun p => p.toList.isPrefixOf s.toList then ofAddress s else .directory s

/-- Where the document of a path stands. -/
def location (path : String) : Root → String
  | web address => address ++ "/" ++ String.ofList (path.toList.dropWhile (· == '/'))
  | directory root => Path.join root path

/-- Makes ready what reading below a root needs. -/
def prepare {m : Type → Type} [Monad m] [Web m] (agent : Agent) : Root → m (Except Failure Unit)
  | web address => do return (← Web.prepare agent).mapError (.fetchFailed address)
  | directory _ => return .ok ()

end Root

/-- Documents by path. -/
structure Source (m : Type → Type) where
  /-- How the place of a document is told to the user. -/
  location : String → String
  read : String → m (Except Failure Content)

/-- The path of the index. -/
def indexPath : String := "index.json"

namespace Source

variable {m : Type → Type} [Monad m]

/-- The documents below a root. -/
def ofRoot [Disk m] [Web m] (root : Root) (agent : Agent := {}) : Source m where
  location path := root.location path
  read path := do
    match root with
    | .web _ =>
      let r ← Web.read agent (root.location path)
      return r.mapError (.fetchFailed (root.location path))
    | .directory _ =>
      let r ← Disk.read (root.location path)
      return r.mapError fun e => .fetchFailed (root.location path) e.message

/-- Reads and decodes the document of a path. -/
def fetch {α : Type} (s : Source m) (decode : List Glyph → Except Json.Cause α) (path : String) :
    m (Except Failure α) := do
  match ← s.read path with
  | .error e => return .error e
  | .ok c => return (decode c).mapError (.invalidSchema (s.location path))

def fetchIndex (s : Source m) : m (Except Failure Index) :=
  s.fetch Index.ofGlyphs? indexPath

def fetchItem (s : Source m) (path : String) : m (Except Failure Item) :=
  s.fetch Item.ofGlyphs? path

end Source

end SchemaClient.Load
