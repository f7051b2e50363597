import SchemaClient.Command.Error
import SchemaClient.Config
import SchemaClient.Load.Loading
import SchemaClient.Report.Format

/-!
# Sessions

What all commands share: the settings of the session in which they run, what they come to, and
how they read the configuration and the inventory.
-/

namespace SchemaClient.Command

open SchemaClient.Store SchemaClient.Text

/-- The session in which a command runs. -/
structure Session (m : Type → Type) where
  /-- The path of the configuration if none is given. -/
  defaultConfig : Option String
  /-- Whether reports for people have colours. -/
  colours : Bool
  /-- Whether the user agrees that the file of a path is replaced. -/
  confirm : String → m Bool

/-- What a command comes to: its exit code, and what it has printed. -/
structure Outcome where
  code : ExitCode
  output : String
deriving DecidableEq, Repr

variable {m : Type → Type} [Monad m]

/-- A command that may end early. -/
abbrev Run (m : Type → Type) := ExceptT Error m

/-- Runs an operation as part of an activity. -/
def during {α : Type} (context : String) (run : Run m α) : Run m α :=
  run.adapt (·.within context)

/-- The result of an operation that may meet a failure. -/
def orFail {α : Type} (run : m (Except Failure α)) : Run m α := do
  match ← run with
  | .ok a => return a
  | .error f => throw (.ofFailure f)

/-- The result of an operation that may meet a problem with a file. -/
def orDiskError {α : Type} (run : m (Except Problem α)) : Run m α := do
  match ← run with
  | .ok a => return a
  | .error p => throw ⟨[], .disk p⟩

/-- Prints a report. -/
def Session.report (s : Session m) (format : Report.Format) (report : Json) : Outcome :=
  ⟨.success, Report.render format s.colours report ++ "\n"⟩

/-- Reads the configuration of a file. -/
def readConfig [Disk m] (path : String) : m (Except Failure Config) := do
  match ← Disk.read path with
  | .error p => return .error (.io path p.message)
  | .ok content =>
    match Glyph.toChars? content with
    | none => return .error (.io path Problem.notText.message)
    | some cs => return Config.read cs

/-- Reads the configuration of the given file or, if none is given, of the default file. Without
that file every setting has its default. -/
def readConfigOrDefault [Disk m] (s : Session m) (path : Option String) :
    m (Except Failure Config) := do
  match path, s.defaultConfig with
  | some path, _ => readConfig path
  | none, some path => if ← Disk.isThere path then readConfig path else return .ok {}
  | none, none => return .ok {}

/-- Reads the configuration for a command. -/
def loadConfig [Disk m] (s : Session m) (path : Option String) : Run m Config :=
  during "failed to load configuration" <|
    orFail (readConfigOrDefault s path)

/-- The client for the web that a configuration asks for. -/
def agentOf (c : Config) : Agent :=
  { timeoutSeconds := c.fetch.timeoutSeconds }

/-- Loads the inventory for a command. -/
def loadInventory [Disk m] [Web m] (argument : String) (c : Config) : Run m Schema.Inventory := do
  let root := Load.Root.ofArgument argument
  orFail (root.prepare (agentOf c))
  during ("failed to load inventory from " ++ argument) <|
    let source : Load.Source m := .ofRoot root (agentOf c)
    orFail do return (← Load.load source c.fetch.maxConcurrentRequests Load.oldest).result

end SchemaClient.Command
