import SchemaClient.Command.Session

/-!
# Looking after the configuration

The command shows the configuration, tells where it is kept, or writes one with the defaults.
-/

namespace SchemaClient.Command

open SchemaClient.Store SchemaClient.Text

/-- What is to be done about the configuration. -/
inductive ConfigAction where
  | show
  | path
  /-- Writes the defaults; an earlier file is replaced only by force. -/
  | init (force : Bool)
deriving DecidableEq, Repr

/-- Whether the defaults have been written, and why. -/
structure Initialized where
  written : Bool
  message : String
  path : String
deriving DecidableEq, Repr

def Initialized.toJson (i : Initialized) : Json :=
  .object
    [("written", .bool i.written), ("message", .string i.message), ("path", .string i.path)]

variable {m : Type → Type} [Monad m] [Disk m]

/-- Writes the default configuration to a path. -/
def initConfig (path : String) (force : Bool) : Run m Initialized := do
  if (← (Disk.isThere path : m Bool)) && !force then
    return ⟨false, "configuration file already exists", path⟩
  match Path.parent? path with
  | none => pure ()
  | some parent =>
    during ("failed to create " ++ parent) <| orDiskError (Disk.createAll parent)
  during ("failed to write " ++ path) <|
    orDiskError (Disk.write path ((Config.write {}).map .char))
  return ⟨true, "configuration file created with default values", path⟩

/-- The path of the configuration: the given one, or the default. -/
def resolvePath (s : Session m) (config : Option String) : Run m String :=
  match config.or s.defaultConfig with
  | some path => return path
  | none =>
    throw ⟨[], .plain "cannot determine the configuration directory; pass --config"⟩

/-- Does what is to be done about the configuration, and reports on it. -/
def configure (s : Session m) (config : Option String) (format : Report.Format) :
    ConfigAction → Run m Outcome
  | .show => do
    let c ← loadConfig s config
    return s.report format c.toJson
  | .path => do
    let path ← resolvePath s config
    let isThere ← (Disk.isThere path : m Bool)
    return s.report format (.object [("path", .string path), ("exists", .bool isThere)])
  | .init force => do
    let path ← resolvePath s config
    return s.report format (← initConfig path force).toJson

end SchemaClient.Command
