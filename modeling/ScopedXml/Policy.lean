import ScopedXml.Diagnostic

/-!
# Error policies

A policy is told of every problem and decides whether reading goes on. It is a rule on a state of
its own (`Policy`), so that statements about all policies can be made. Whatever the rule says, a
fatal diagnostic ends the parse (`Policy.report`).

`Stance` names the policies that come with the library; all of them keep a record.
-/

namespace ScopedXml

/-- A rule for reported problems. `receive` is told through which of the three entries the
diagnostic came; `report` picks the entry from the diagnostic's severity. -/
structure Policy (P : Type) where
  receive : P → Severity → Diagnostic → Except ReadFailure Unit × P

/-- Hand over a fatal diagnostic, for the failure in which the parse then ends: the policy's own, or
else the diagnostic itself. -/
def Policy.escalate {P : Type} (policy : Policy P) (state : P) (d : Diagnostic) :
    ReadFailure × P :=
  match policy.receive state .fatal d with
  | (.error e, after) => (e, after)
  | (.ok (), after) => (.invalid d, after)

/-- Hand over a diagnostic. A fatal one always yields a failure: the policy's own, or else the
diagnostic itself. -/
def Policy.report {P : Type} (policy : Policy P) (state : P) (d : Diagnostic) :
    Except ReadFailure Unit × P :=
  match policy.receive state d.severity d with
  | (.error e, after) => (.error e, after)
  | (.ok (), after) =>
    if d.severity = .fatal then (.error (.invalid d), after) else (.ok (), after)

/-- The same policy beside another listener, in the first part of a common state. -/
def Policy.onFirst {P : Type} (policy : Policy P) (C : Type) : Policy (P × C) where
  receive := fun (p, c) entry d =>
    let (answer, p) := policy.receive p entry d
    (answer, p, c)

/-- The policies of the library. -/
inductive Stance
  /-- The first problem ends the parse; nothing is recorded. -/
  | failFast
  /-- Everything is recorded, and only fatal problems end the parse. -/
  | collecting
  /-- Everything is recorded and nothing escalated. -/
  | permissive
  /-- The first problem ends the parse as a handler failure; nothing is recorded. -/
  | raising
deriving DecidableEq

/-- A stance with the diagnostics it has recorded, in the order of their reports. -/
structure Ledger where
  stance : Stance
  record : List Diagnostic
deriving DecidableEq

namespace Ledger

/-- A stance that has recorded nothing yet. -/
def fresh (stance : Stance) : Ledger := ⟨stance, []⟩

def receive (l : Ledger) (entry : Severity) (d : Diagnostic) :
    Except ReadFailure Unit × Ledger :=
  let recorded : Ledger := { l with record := l.record ++ [d] }
  match l.stance with
  | .failFast => (.error (.invalid d), l)
  | .raising => (.error (.handler ("raised: " ++ d.message)), l)
  | .permissive => (.ok (), recorded)
  | .collecting => (if entry = .fatal then .error (.invalid d) else .ok (), recorded)

/-- Whether anything above a warning was recorded. -/
def hasErrors (l : Ledger) : Bool := l.record.any (·.severity ≠ .warning)

/-- The policy that keeps a ledger. -/
def policy : Policy Ledger := ⟨receive⟩

end Ledger

end ScopedXml
