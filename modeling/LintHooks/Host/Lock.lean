import LintHooks.FileSystem.Basic
set_option autoImplicit false

/-!
# Host: advisory locks

A lock belongs to an open handle of a file.  Any number of handles may share a
file; an exclusive lock tolerates no other holder.  A request that cannot be
granted changes nothing.
-/

namespace LintHooks

/-- How a file is locked. -/
inductive LockMode where
  | shared | exclusive
  deriving DecidableEq, Repr, Inhabited

/-- A lock that a handle holds on a file. -/
structure HeldLock where
  handle : Nat
  file : Location
  mode : LockMode
  deriving DecidableEq, Repr, Inhabited

/-- The locks that are held. -/
structure LockTable where
  held : List HeldLock := []
  deriving DecidableEq, Repr, Inhabited

namespace LockTable

/-- Whether two modes on one file exclude each other. -/
def conflicts (a b : LockMode) : Bool := a == .exclusive || b == .exclusive

/-- Whether a handle may lock a file: no other handle holds a lock in its way. -/
def grants (t : LockTable) (handle : Nat) (file : Location) (mode : LockMode) : Bool :=
  t.held.all fun l => l.handle == handle || l.file != file || !conflicts l.mode mode

/-- Asks for a lock without waiting. -/
def request? (t : LockTable) (handle : Nat) (file : Location) (mode : LockMode) :
    Option LockTable :=
  if t.grants handle file mode then
    some ⟨⟨handle, file, mode⟩ :: t.held.filter fun l => l.handle != handle⟩
  else none

/-- Gives up what a handle holds. -/
def release (t : LockTable) (handle : Nat) : LockTable :=
  ⟨t.held.filter fun l => l.handle != handle⟩

end LockTable

end LintHooks
