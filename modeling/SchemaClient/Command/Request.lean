import SchemaClient.Command.Configure
import SchemaClient.Command.Flag
import SchemaClient.Command.Generate

/-!
# Requests

What a user asks for on the command line. Some flags may stand at every level of it; where such a
flag is given at several levels, the innermost one counts.
-/

namespace SchemaClient.Command

/-- A command with its arguments. -/
inductive Action where
  | generate (options : GenerateOptions)
  | inspect (inventory : String)
  | configure (action : ConfigAction)
  | completions (shell : String)
deriving DecidableEq, Repr

/-- A command with the flags that all commands share. -/
structure Invocation where
  action : Action
  verbose : Bool
  format : String
  config : Option String
deriving DecidableEq, Repr

/-- What a user asks for. -/
inductive Request where
  | invoke (i : Invocation)
  | help
  | version
  /-- The arguments make no sense. -/
  | wrong
deriving DecidableEq, Repr

namespace Request

/-- The flags that may stand at every level. -/
def sharedFlags : List Flag :=
  [⟨"verbose", some 'v', .switch⟩, ⟨"format", none, .option true⟩,
   ⟨"config", none, .option false⟩, ⟨"help", some 'h', .help⟩]

/-- The level in front of all commands. -/
def topLevel : Level where
  flags := ⟨"version", some 'V', .version⟩ :: sharedFlags
  positionals := []
  commands := ["generate", "inspect", "config", "completions", "help"]

def generateLevel : Level where
  flags := [⟨"output", some 'o', .option false⟩, ⟨"yes", some 'y', .switch⟩,
    ⟨"stdout", none, .switch⟩] ++ sharedFlags
  positionals := [fun _ => true]
  commands := []

def inspectLevel : Level := ⟨sharedFlags, [fun _ => true], []⟩

def configLevel : Level := ⟨sharedFlags, [], ["show", "path", "init", "help"]⟩

/-- The level of an action without arguments. -/
def actionLevel : Level := ⟨sharedFlags, [], []⟩

def initLevel : Level := ⟨⟨"force", none, .switch⟩ :: sharedFlags, [], []⟩

/-- The shells that completions can be asked for. -/
def shells : List String := ["bash", "elvish", "fish", "powershell", "zsh"]

def completionsLevel : Level := ⟨sharedFlags, [shells.contains], []⟩

/-- The innermost value of an option among levels, the outermost level first. -/
def innermost? (name : String) (levels : List Given) : Option String :=
  (levels.filterMap (·.value? name)).getLast?

/-- The request for an action whose levels have been read, the outermost one first. An empty value
in the environment is wrong wherever it would be needed. -/
def invocation (environment : Option String) (levels : List Given) (action : Action) : Request :=
  if environment = some "" ∧ ¬levels.all (·.has "config") then .wrong
  else
    .invoke
      { action
        verbose := levels.any (·.has "verbose")
        format := (innermost? "format" levels).getD Report.Format.pretty.name
        config := (innermost? "config" levels).or environment }

/-- The request that the end of a last level leads to. Outer levels that are wrong count only if
the last one does not ask for help. -/
def conclude (environment : Option String) (outer : List (Option Given))
    (action? : Given → Option Action) : Ending → Request
  | .done g =>
    match outer.mapM id, action? g with
    | some outer, some action => invocation environment (outer ++ [g]) action
    | _, _ => .wrong
  | .help => .help
  | .version => .version
  | .command _ _ _ => .wrong
  | .wrong => .wrong

/-- The action of the level `generate`: a module cannot be printed and written. -/
def generateAction? (g : Given) : Option Action :=
  match g.positionals with
  | [inventory] =>
    let stdout := g.has "stdout"
    if stdout && (g.has "output" || g.has "yes") then none
    else some (.generate ⟨inventory, g.value? "output", g.has "yes", stdout⟩)
  | _ => none

/-- The action of the level `inspect`. -/
def inspectAction? (g : Given) : Option Action :=
  match g.positionals with
  | [inventory] => some (.inspect inventory)
  | _ => none

/-- The action of the level `completions`. -/
def completionsAction? (g : Given) : Option Action :=
  match g.positionals with
  | [shell] => some (.completions shell)
  | _ => none

/-- The commands that may follow a command, which is named behind those it follows itself. -/
def commandsBehind : List String → List String
  | [] => topLevel.commands
  | ["config"] => configLevel.commands
  | _ => []

/-- The request for help about a command, which is named by several words. -/
def helpOn (path : List String) : List String → Request
  | [] => .help
  | name :: names =>
    if (commandsBehind path).contains name then helpOn (path ++ [name]) names else .wrong

/-- The request of the arguments behind `config`. -/
def ofConfigArguments (environment : Option String) (top : Option Given) (args : List String) :
    Request :=
  match configLevel.read args with
  | .command g "show" rest =>
    conclude environment [top, g] (fun _ => some (.configure .show)) (actionLevel.read rest)
  | .command g "path" rest =>
    conclude environment [top, g] (fun _ => some (.configure .path)) (actionLevel.read rest)
  | .command g "init" rest =>
    conclude environment [top, g] (fun i => some (.configure (.init (i.has "force"))))
      (initLevel.read rest)
  | .command _ _ rest => helpOn ["config"] rest
  | .help => .help
  | _ => .wrong

/-- The request of a command line. `environment` is the path of the configuration that the
environment names. -/
def ofArguments (environment : Option String) (args : List String) : Request :=
  match topLevel.read args with
  | .command g "generate" rest =>
    conclude environment [g] generateAction? (generateLevel.read rest)
  | .command g "inspect" rest => conclude environment [g] inspectAction? (inspectLevel.read rest)
  | .command g "config" rest => ofConfigArguments environment g rest
  | .command g "completions" rest =>
    conclude environment [g] completionsAction? (completionsLevel.read rest)
  | .command _ _ rest => helpOn [] rest
  | .help => .help
  | .version => .version
  | _ => .wrong

end Request

end SchemaClient.Command
