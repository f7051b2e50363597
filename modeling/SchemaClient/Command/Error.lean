import SchemaClient.Command.ExitCode
import SchemaClient.Store.Problem

/-!
# Errors of commands

What ends a command early, together with what the command was doing at that time.
-/

namespace SchemaClient.Command

/-- What ends a command early. -/
inductive Cause where
  | failure (f : Failure)
  /-- A problem with a file or directory that the command writes. -/
  | disk (p : Store.Problem)
  | plain (message : String)
deriving DecidableEq, Repr

/-- An error of a command: its cause, and what the command was doing, the outermost activity
first. -/
structure Error where
  contexts : List String
  cause : Cause
deriving DecidableEq, Repr

/-- A link in the chain from what a command was doing to the reason why it ends. -/
inductive Link where
  | activity (text : String)
  | cause (c : Cause)
  | reason (text : String)
deriving DecidableEq, Repr

namespace Link

/-- The failure that a link is. -/
def failure? : Link → Option Failure
  | cause (.failure f) => some f
  | _ => none

/-- The wording of a link. -/
def message : Link → String
  | activity text => text
  | cause (.failure f) => f.message
  | cause (.disk p) => p.message
  | cause (.plain m) => m
  | reason text => text

end Link

namespace Error

/-- The error of a failure on its own. -/
def ofFailure (f : Failure) : Error := ⟨[], .failure f⟩

/-- The error during a further activity around it. -/
def within (context : String) (e : Error) : Error :=
  { e with contexts := context :: e.contexts }

/-- The reason behind the cause of an error, where one is told. -/
def reason? (e : Error) : Option String :=
  match e.cause with
  | .failure f => f.reason?
  | _ => none

/-- The chain of an error from the outermost activity to the reason behind its cause. -/
def links (e : Error) : List Link :=
  e.contexts.map .activity ++ .cause e.cause :: e.reason?.toList.map .reason

/-- The code for an error: that of the first failure in its chain. -/
def exitCode (e : Error) : ExitCode :=
  match e.links.findSome? Link.failure? with
  | some f => .ofFailure f
  | none => .failure

/-- The whole error on one line, the outermost activity first. -/
def chain (e : Error) : String :=
  ": ".intercalate (e.links.map Link.message)

/-- Activities and reasons do not decide the code. -/
theorem exitCode_eq (e : Error) :
    e.exitCode = match e.cause with
      | .failure f => .ofFailure f
      | _ => .failure := by
  have hactivities : (e.contexts.map Link.activity).findSome? Link.failure? = none := by
    simp [Link.failure?]
  have hreasons : (e.reason?.toList.map Link.reason).findSome? Link.failure? = none := by
    simp [Link.failure?]
  rw [exitCode, links, List.findSome?_append, hactivities, Option.none_or, List.findSome?_cons,
    hreasons]
  cases e.cause <;> rfl

end Error

end SchemaClient.Command
