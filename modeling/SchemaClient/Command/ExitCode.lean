import SchemaClient.Failure

/-!
# Exit codes

A command ends with a number that tells whether it has done its work, or what kept it from it.
-/

namespace SchemaClient.Command

/-- An exit code. -/
structure ExitCode where
  value : Int
deriving DecidableEq, Repr

namespace ExitCode

/-- The work is done. -/
def success : ExitCode := ⟨0⟩

/-- The work has failed for a reason without a code of its own. -/
def failure : ExitCode := ⟨1⟩

/-- An argument or the configuration is invalid. -/
def invalidInput : ExitCode := ⟨2⟩

/-- The inventory cannot be fetched. -/
def fetchFailed : ExitCode := ⟨3⟩

/-- The user has not agreed. -/
def aborted : ExitCode := ⟨5⟩

instance : Inhabited ExitCode := ⟨success⟩

def isSuccess (c : ExitCode) : Bool :=
  c.value == 0

/-- The code for a failure. -/
def ofFailure : Failure → ExitCode
  | .fetchFailed _ _ => fetchFailed
  | .invalidSchema _ _ => fetchFailed
  | .unreadableConfig => invalidInput
  | .invalidConfig _ => invalidInput
  | .invalidArgument _ => invalidInput
  | .io _ _ => failure
  | .flattenCycle _ => failure
  | .render _ => failure

end ExitCode

end SchemaClient.Command
