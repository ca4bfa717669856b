/-
  TenantSync.Tenant.Faults
  ────────────────────────
  **CALLS THAT ARE MADE TO FAIL.**

  A fault is attached to one kind of call on one kind of element.  It carries
  the error to answer with and, if it is to pass, how many calls it lasts.  The
  calls made since it was attached are counted with it, so attaching a fault
  again starts the count anew and taking it away forgets the count.
-/
import TenantSync.ElementType
import TenantSync.Tenant.Error

namespace TenantSync

/-- The kinds of calls to a tenant. -/
inductive CallKind where
  | list
  | create
  | delete
  deriving DecidableEq, Repr

/-- A kind of call on a kind of element. -/
structure CallSite where
  kind : CallKind
  element : ElementType
  deriving DecidableEq, Repr

/-- A fault attached to a call. -/
structure Fault where
  /-- What the call answers with. -/
  error : TenantError
  /-- How many calls fail; all of them when there is no limit. -/
  limit : Option UInt32
  /-- How many calls have been made since the fault was attached. -/
  calls : UInt32 := 0
  deriving DecidableEq, Repr

namespace Fault

/-- One more call has been made.  A counter that is full stays so: no limit is above it, and
it must not begin anew. -/
def counted (fault : Fault) : Fault :=
  if fault.calls = 4294967295 then fault else { fault with calls := fault.calls + 1 }

/-- Whether the next call fails: fewer calls than the limit have been made. -/
def lasts (fault : Fault) : Bool := fault.limit.all (fault.calls < ·)

end Fault

/-- The faults attached to calls, at most one to each. -/
structure Faults where
  attached : List (CallSite × Fault) := []
  deriving DecidableEq, Repr

namespace Faults

/-- The fault attached to a call. -/
def get? (f : Faults) (c : CallSite) : Option Fault := f.attached.lookup c

/-- No faults. -/
def clear (_ : Faults) : Faults := {}

/-- Without the fault of one call. -/
def detach (f : Faults) (c : CallSite) : Faults :=
  ⟨f.attached.filter fun e => e.1 != c⟩

/-- With a fault attached to a call, in place of the one it had. -/
def attach (f : Faults) (c : CallSite) (fault : Fault) : Faults :=
  ⟨(c, fault) :: (f.detach c).attached⟩

/-- Make a call: its error if it fails, and the faults with the call counted. -/
def check (f : Faults) (c : CallSite) : Option TenantError × Faults :=
  match f.get? c with
  | none => (none, f)
  | some fault => (if fault.lasts then some fault.error else none, f.attach c fault.counted)

end Faults

end TenantSync
