import LintHooks.Host.Basic
set_option autoImplicit false

/-!
# CMake: who configures

Several hooks may want to configure one build directory at the same time.  Two
locked files in it see to it that one of them does.  Who gets the try lock without
waiting leads: it takes the main lock as well and runs CMake.  The others share
first the try lock and then the main lock, which they get when the leader is done.

The way of a process is a sequence of stages, and `Stage.advance?` is one step of
it on the table of all locks; a step that has to wait is not possible yet.  What a
hook does, `ConfigureLock.acquire`, is made of these steps.
-/

namespace LintHooks.CMake

/-! ## Stages -/

/-- An open file that can be locked. -/
structure LockHandle where
  number : Nat
  file : Location
  deriving DecidableEq, Repr, Inhabited

/-- The two files as one process has opened them. -/
structure LockPair where
  tryLock : LockHandle
  mainLock : LockHandle
  deriving DecidableEq, Repr, Inhabited

/-- How far a process has come. -/
inductive Stage where
  /-- It has asked for nothing yet. -/
  | start
  /-- It holds the try lock alone and wants the main lock. -/
  | chosen
  /-- It holds both locks alone. -/
  | leading
  /-- It has led and still holds the try lock. -/
  | retiring
  /-- Another process was faster; it wants a share in the try lock. -/
  | waiting
  /-- It shares the try lock and wants a share in the main lock. -/
  | admitted
  /-- It shares both locks. -/
  | following
  /-- It has followed and still shares the try lock. -/
  | leaving
  | done
  deriving DecidableEq, Repr, Inhabited

namespace Stage

/-- The first step: the try lock is asked for without waiting. -/
def enter (tryLock : LockHandle) (t : LockTable) : Stage × LockTable :=
  match t.request? tryLock.number tryLock.file .exclusive with
  | some t => (.chosen, t)
  | none => (.waiting, t)

/-- The next step of a process.  There is none where it has to wait, or is done. -/
def advance? (locks : LockPair) (s : Stage) (t : LockTable) : Option (Stage × LockTable) :=
  match s with
  | .start => some (enter locks.tryLock t)
  | .chosen =>
    (t.request? locks.mainLock.number locks.mainLock.file .exclusive).map fun t => (.leading, t)
  | .leading => some (.retiring, t.release locks.mainLock.number)
  | .retiring => some (.done, t.release locks.tryLock.number)
  | .waiting =>
    (t.request? locks.tryLock.number locks.tryLock.file .shared).map fun t => (.admitted, t)
  | .admitted =>
    (t.request? locks.mainLock.number locks.mainLock.file .shared).map fun t => (.following, t)
  | .following => some (.leaving, t.release locks.mainLock.number)
  | .leaving => some (.done, t.release locks.tryLock.number)
  | .done => none

/-- A number of steps, none of which has to wait. -/
def steps? (locks : LockPair) : Nat → Stage → LockTable → Option (Stage × LockTable)
  | 0, s, t => some (s, t)
  | n + 1, s, t => (advance? locks s t).bind fun (s, t) => steps? locks n s t

end Stage

/-! ## The files of a build directory -/

/-- The lock files of a build directory. -/
structure ConfigureLock where
  mainPath : String
  tryPath : String
  deriving DecidableEq, Repr, Inhabited

/-- What a process is to do. -/
inductive ConfigureRole where
  /-- It has to run CMake, and to give the locks back. -/
  | leader (locks : LockPair)
  /-- Another process has run CMake. -/
  | follower
  deriving DecidableEq, Repr, Inhabited

namespace ConfigureLock

/-- The name of the file that is locked while CMake runs. -/
def mainName : String := "_cmake_configure_lock"

/-- The name of the file whose lock decides who runs CMake. -/
def tryName : String := "_cmake_configure_try_lock"

/-- The lock files of a build directory. -/
def ofBuildDir (dir : String) : ConfigureLock := ⟨Path.join dir mainName, Path.join dir tryName⟩

def paths (l : ConfigureLock) : List String := [l.mainPath, l.tryPath]

/-- Whether a path names one of the files. -/
def isLockFile (l : ConfigureLock) (path : String) : Bool := l.paths.any fun p => Path.same p path

/-- Opens a lock file, creating it if need be. -/
def openFile (path : String) : Action LockHandle := do
  let h ← Action.host
  match h.files.openOrCreate h.workDir path with
  | .error e => Action.fail (.openingLock path e)
  | .ok (files, file) =>
    set { h with files, nextHandle := h.nextHandle + 1 }
    pure ⟨h.nextHandle, file⟩

/-- Gives up what a handle holds. -/
def release (handle : LockHandle) : Action Unit :=
  modify fun h => { h with locks := h.locks.release handle.number }

/-- Takes a number of steps; if one of them has to wait for good, the locks are given up. -/
def go (l : ConfigureLock) (locks : LockPair) (n : Nat) (s : Stage) : Action Unit := do
  let h ← Action.host
  match s.steps? locks n h.locks with
  | some (_, table) => set { h with locks := table }
  | none =>
    release locks.mainLock
    release locks.tryLock
    Action.fail (.waitingForLock l.tryPath)

/-- Becomes the leader, or waits until the leader is done. -/
def acquire (l : ConfigureLock) : Action ConfigureRole := do
  let tryLock ← openFile l.tryPath
  let h ← Action.host
  let (stage, table) := Stage.enter tryLock h.locks
  set { h with locks := table }
  match ← (openFile l.mainPath).outcome with
  | .error f =>
    release tryLock
    Action.fail f
  | .ok mainLock =>
    let locks : LockPair := ⟨tryLock, mainLock⟩
    if stage = .chosen then
      go l locks 1 .chosen
      pure (.leader locks)
    else
      go l locks 4 stage
      pure .follower

/-- Ends the time of a leader. -/
def retire (l : ConfigureLock) (locks : LockPair) : Action Unit := go l locks 2 .leading

end ConfigureLock

end LintHooks.CMake
