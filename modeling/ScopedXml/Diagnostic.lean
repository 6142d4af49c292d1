import ScopedXml.Name

/-!
# Diagnostics and failures

* `Diagnostic`: a problem that the reader hands to an error policy, with the place where it
  was found.
* `ReadFailure`: what ends a parse. `ReadFailure.invalid` carries the diagnostic that a policy
  escalated; every other cause ends the parse by itself.
-/

namespace ScopedXml

/-- How serious a reported problem is. -/
inductive Severity
  /-- Suspicious input that can still be processed. -/
  | warning
  /-- A validity violation; reading could go on. -/
  | error
  /-- A well-formedness violation; reading cannot go on. -/
  | fatal
deriving DecidableEq

/-- The word for a severity in messages. -/
def Severity.text : Severity → String
  | warning => "warning"
  | error => "error"
  | fatal => "fatal error"

/-- A problem found at a byte offset, inside the open elements listed in `path`. -/
structure Diagnostic where
  severity : Severity
  position : Nat
  path : String
  message : String
deriving DecidableEq

/-- The one-line form: severity, position, the path unless it is empty, and the message. -/
def Diagnostic.text (d : Diagnostic) : String :=
  d.severity.text ++ " at position " ++ toString d.position
    ++ (if d.path.isEmpty then "" else " in " ++ d.path) ++ ": " ++ d.message

/-- Why a parse ended without delivering the whole document. -/
inductive ReadFailure
  /-- A diagnostic that the error policy escalated. -/
  | invalid (diagnostic : Diagnostic)
  /-- The input could not be read. -/
  | unreadable (message : String)
  /-- Bytes that mean nothing in the encoding in force. -/
  | undecodable (position : Nat) (message : String)
  /-- An encoding label that nobody knows. -/
  | unknownEncoding (label : String)
  /-- Markup that cannot be split into tokens. -/
  | malformed (position : Nat) (message : String)
  /-- A scope handler gave up. -/
  | handler (message : String)
  /-- No handler was there to receive the events. -/
  | noActiveHandler
deriving DecidableEq

namespace ReadFailure

def message : ReadFailure → String
  | invalid d => "Validation failed: " ++ d.text
  | unreadable m => "IO error: " ++ m
  | undecodable p m => s!"Malformed character data at position {p}: {m}"
  | unknownEncoding l => "Unsupported encoding: " ++ l
  | malformed p m => s!"XML syntax error at position {p}: {m}"
  | handler m => "Handler error: " ++ m
  | noActiveHandler => "No active handler installed"

def position? : ReadFailure → Option Nat
  | invalid d => some d.position
  | undecodable p _ => some p
  | malformed p _ => some p
  | _ => none

def diagnostic? : ReadFailure → Option Diagnostic
  | invalid d => some d
  | _ => none

def isInvalid (f : ReadFailure) : Bool := f.diagnostic?.isSome

end ReadFailure

end ScopedXml
