/-!
# Flags

How a list of arguments is taken apart at one level of a command line: flags in their long and
short spellings, positional arguments, and the name of a command that begins the next level.
-/

namespace SchemaClient.Command

/-- What a flag does. -/
inductive FlagKind where
  /-- It is on if it is given. -/
  | switch
  /-- It takes a value, which may be empty or not. -/
  | option (mayBeEmpty : Bool)
  /-- It ends the reading: the user wants help. -/
  | help
  /-- It ends the reading: the user wants to know the version. -/
  | version
deriving DecidableEq, Repr

/-- A flag. -/
structure Flag where
  name : String
  short : Option Char
  kind : FlagKind
deriving DecidableEq, Repr

/-- What may stand at a level of the command line. -/
structure Level where
  flags : List Flag
  /-- The positional arguments: for each of them, which texts may stand there. -/
  positionals : List (String → Bool)
  /-- The commands that begin a further level. -/
  commands : List String

/-- What has been given at a level. -/
structure Given where
  switches : List String
  options : List (String × String)
  positionals : List String
deriving DecidableEq, Repr

namespace Given

/-- Nothing. -/
def none : Given := ⟨[], [], []⟩

/-- Whether a flag has been given. -/
def has (g : Given) (name : String) : Bool :=
  g.switches.contains name || (g.options.lookup name).isSome

/-- The value of an option. -/
def value? (g : Given) (name : String) : Option String :=
  g.options.lookup name

end Given

/-- How the reading of a level ends. -/
inductive Ending where
  | done (given : Given)
  /-- A command begins a further level for the arguments after it. Nothing has been given if the
  option in front of the command is wrong, which counts only when the further levels are read. -/
  | command (given : Option Given) (name : String) (rest : List String)
  | help
  | version
  | wrong
deriving DecidableEq, Repr

/-- An option whose value is an argument of its own. It is looked at when a further argument of its
level comes or the level ends. -/
inductive Pending where
  | nothing
  | waiting (f : Flag)
  | complete (f : Flag) (value : String)

/-- The state of reading a level: what has been given, the option that has not been looked at yet,
and whether all further arguments are positional. -/
structure Reading where
  given : Given
  pending : Pending
  positionalOnly : Bool

/-- What an argument leads to. -/
inductive Progress where
  | go (r : Reading)
  | stop (e : Ending)

namespace Level

/-- Adds a switch; it may be given only once. -/
def addSwitch (g : Given) (f : Flag) : Option Given :=
  if g.has f.name then none else some { g with switches := g.switches ++ [f.name] }

/-- Adds an option with its value; it may be given only once. -/
def addOption (g : Given) (f : Flag) (value : String) : Option Given :=
  if g.has f.name || (value.isEmpty && f.kind != .option true) then none
  else some { g with options := g.options ++ [(f.name, value)] }

/-- What has been given, the pending option included. -/
def settle (r : Reading) : Option Given :=
  match r.pending with
  | .nothing => some r.given
  | .waiting _ => none
  | .complete f value => addOption r.given f value

/-- Goes on if something could be added. -/
def goWith : Option Given → Progress
  | some g => .go ⟨g, .nothing, false⟩
  | none => .stop .wrong

/-- Reads a flag in its long spelling without the dashes; behind an equals sign stands a value. -/
def long (l : Level) (g : Given) (cs : List Char) : Progress :=
  let name := String.ofList (cs.takeWhile (· != '='))
  let value := (cs.dropWhile (· != '=')).tail
  let attached := cs.contains '='
  match l.flags.find? (·.name == name) with
  | none => .stop .wrong
  | some f =>
    match f.kind, attached with
    | .option _, true => goWith (addOption g f (String.ofList value))
    | .option _, false => .go ⟨g, .waiting f, false⟩
    | _, true => .stop .wrong
    | .switch, false => goWith (addSwitch g f)
    | .help, false => .stop .help
    | .version, false => .stop .version

/-- Reads flags in their short spelling behind one dash. What follows an option is its value, with
or without an equals sign in front. -/
def short (l : Level) (g : Given) : List Char → Progress
  | [] => .go ⟨g, .nothing, false⟩
  | c :: cs =>
    match l.flags.find? (·.short == some c) with
    | none => .stop .wrong
    | some f =>
      match f.kind with
      | .switch =>
        match addSwitch g f with
        | some g => short l g cs
        | none => .stop .wrong
      | .option _ =>
        match cs with
        | [] => .go ⟨g, .waiting f, false⟩
        | '=' :: value => goWith (addOption g f (String.ofList value))
        | value => goWith (addOption g f (String.ofList value))
      | .help => .stop .help
      | .version => .stop .version

/-- Adds a positional argument, if a further one may stand there and be that text. -/
def addPositional (l : Level) (g : Given) (a : String) : Option Given :=
  match l.positionals[g.positionals.length]? with
  | some fits => if fits a then some { g with positionals := g.positionals ++ [a] } else none
  | none => none

/-- Reads an argument that is not the value of an option. -/
def plainArgument (l : Level) (g : Given) (positionalOnly : Bool) (a : String) : Progress :=
  if positionalOnly then
    match l.addPositional g a with
    | some g => .go ⟨g, .nothing, true⟩
    | none => .stop .wrong
  else match a.toList with
    | ['-', '-'] => .go ⟨g, .nothing, true⟩
    | '-' :: '-' :: cs => l.long g cs
    | '-' :: c :: cs => l.short g (c :: cs)
    | _ => goWith (l.addPositional g a)

/-- Reads an argument; `rest` are those after it. -/
def argument (l : Level) (r : Reading) (a : String) (rest : List String) : Progress :=
  match r.pending with
  | .waiting f =>
    if a.startsWith "-" && a != "-" then .stop .wrong
    else .go ⟨r.given, .complete f a, false⟩
  | _ =>
    if !r.positionalOnly && l.commands.contains a then .stop (.command (settle r) a rest)
    else match settle r with
      | some g => l.plainArgument g r.positionalOnly a
      | none => .stop .wrong

/-- Reads arguments to the end of a level. -/
def readFrom (l : Level) (r : Reading) : List String → Ending
  | [] => ((settle r).map .done).getD .wrong
  | a :: rest =>
    match l.argument r a rest with
    | .go r => readFrom l r rest
    | .stop e => e

/-- Reads a level from its beginning. -/
def read (l : Level) (args : List String) : Ending :=
  l.readFrom ⟨.none, .nothing, false⟩ args

end Level

end SchemaClient.Command
