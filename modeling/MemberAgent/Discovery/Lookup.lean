import MemberAgent.Discovery.KindTable
import MemberAgent.Failure
import MemberAgent.Program

/-! Looking up kinds in a table that is known. A kind that is not in it costs one discovery, which
replaces the table only if it succeeds. -/

namespace MemberAgent.Discovery

/-- What a lookup needs: the known table, and fresh ones. -/
inductive LookupCall where
  | known
  | discover
  | remember (table : KindTable)

namespace LookupCall

@[reducible] def Reply : LookupCall → Type
  | known => Option KindTable
  | discover => Except ClientFault KindTable
  | remember _ => Unit

end LookupCall

@[reducible] def lookupCalls : Interface := ⟨LookupCall, LookupCall.Reply⟩

def known : Program lookupCalls (Option KindTable) := .perform (I := lookupCalls) .known

def discover : Program lookupCalls (Except ClientFault KindTable) :=
  .perform (I := lookupCalls) .discover

def remember (table : KindTable) : Program lookupCalls Unit :=
  .perform (I := lookupCalls) (.remember table)

/-- Runs a discovery and looks for the kind in what it found. -/
def refresh (kind : Kind) : Program lookupCalls (Except ClientFault (Option ResourceMapping)) := do
  match ← discover with
  | .error fault => return .error fault
  | .ok table =>
    remember table
    return .ok (table.get? kind)

def lookup (kind : Kind) : Program lookupCalls (Except ClientFault (Option ResourceMapping)) := do
  match (← known).bind fun table => table.get? kind with
  | some mapping => return .ok (some mapping)
  | none => refresh kind

end MemberAgent.Discovery
