import SchemaClient.Command.Request
import SchemaClient.Report.Summary

/-!
# Running requests

What a request comes to. A command that ends early prints nothing.
-/

namespace SchemaClient.Command

open SchemaClient.Store

variable {m : Type → Type} [Monad m] [Disk m] [Web m]

/-- Prints the summary of an inventory. -/
def inspect (s : Session m) (config : Option String) (format : Report.Format)
    (inventory : String) : Run m Outcome := do
  let c ← loadConfig s config
  let inv ← loadInventory inventory c
  return s.report format (Report.Summary.ofInventory inv).toJson

/-- The words of the command line, one a line. -/
def completions : String :=
  String.join ((Request.topLevel.commands ++ Request.configLevel.commands).map (· ++ "\n"))

/-- Runs an action with the flags that all commands share. -/
def invoke (s : Session m) (config : Option String) (format : Report.Format) :
    Action → Run m Outcome
  | .generate o => generate s config format o
  | .inspect inventory => inspect s config format inventory
  | .configure action => configure s config format action
  | .completions _ => return ⟨.success, completions⟩

/-- What a run comes to, and its error if it ends early. -/
def finish (run : Run m Outcome) : m (Outcome × Option Error) := do
  match ← run.run with
  | .ok o => return (o, none)
  | .error e => return (⟨e.exitCode, ""⟩, some e)

/-- Runs an invocation. An unknown format is told before anything is done. -/
def runInvocation (s : Session m) (i : Invocation) : m (Outcome × Option Error) :=
  match Report.Format.ofName? i.format with
  | .error f => return (⟨.invalidInput, ""⟩, some (.ofFailure f))
  | .ok format => finish (invoke s i.config format i.action)

/-- How the program is called. -/
def usage : String :=
  "Usage: typegen [OPTIONS] <COMMAND>\n\nCommands:\n" ++
    String.join (Request.topLevel.commands.map fun c => "  " ++ c ++ "\n")

/-- The name and the version of the program. -/
def versionLine : String := "typegen 0.1.0\n"

/-- Runs a request. -/
def runRequest (s : Session m) : Request → m (Outcome × Option Error)
  | .invoke i => runInvocation s i
  | .help => return (⟨.success, usage⟩, none)
  | .version => return (⟨.success, versionLine⟩, none)
  | .wrong => return (⟨.invalidInput, ""⟩, some ⟨[], .plain usage⟩)

end SchemaClient.Command
