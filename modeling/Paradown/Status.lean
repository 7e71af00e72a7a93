import Mathlib.Data.String.Basic

namespace Paradown
set_option autoImplicit true

/-- The errors a download can surface, with the texts the source attaches to them. -/
inductive Error where
  | io (message : String)
  | reqwest (message : String)
  | httpError (id code : Nat) (message : String)
  | networkError (id : Nat) (message : String)
  | resumeInvalidated (id : Nat) (message : String)
  | checksumMismatch (id : Nat) (expected actual : String)
  | invalidUrl (message : String)
  | unsupportedProtocol (message : String)
  | urlParseError (message : String)
  | configError (message : String)
  | other (message : String)
  | joinError (message : String)
  | acquireError (message : String)
  | taskNotFound (id : Nat)
  | canceled (id : Nat)
  | parse (message : String)
  | header (message : String)
  deriving DecidableEq, Repr

inductive Status where
  | pending
  | preparing
  | running
  | paused
  | completed
  | canceled
  | failed (err : Error)
  | deleted
  deriving DecidableEq, Repr

def Status.isTerminal : Status → Bool
  | .completed | .canceled | .failed _ | .deleted => true
  | _ => false

/-- The two states in which a task occupies a download slot. -/
def Status.isActive : Status → Bool
  | .preparing | .running => true
  | _ => false

/-- `Display`: the text a status is stored as; the error inside `Failed` is dropped. -/
def Status.toText : Status → String
  | .pending => "Pending"
  | .preparing => "Preparing"
  | .running => "Running"
  | .paused => "Paused"
  | .completed => "Completed"
  | .failed _ => "Failed"
  | .canceled => "Canceled"
  | .deleted => "Deleted"

/-- `FromStr`: unknown texts are refused, a stored failure comes back with an empty message. -/
def Status.fromText (s : String) : Option Status :=
  if s = "Pending" then some .pending
  else if s = "Running" then some .running
  else if s = "Preparing" then some .preparing
  else if s = "Paused" then some .paused
  else if s = "Completed" then some .completed
  else if s = "Failed" then some (.failed (.other ""))
  else if s = "Canceled" then some .canceled
  else if s = "Deleted" then some .deleted
  else none

/-- What is left of a status once it has been through the database. -/
def Status.forgetError : Status → Status
  | .failed _ => .failed (.other "")
  | s => s

theorem Status.fromText_toText (s : Status) : fromText s.toText = some s.forgetError := by
  cases s <;> simp [fromText, toText, forgetError]

theorem Status.not_terminal_of_active {s : Status} (h : s.isActive = true) :
    s.isTerminal = false := by
  cases s <;> first | rfl | cases h

end Paradown
