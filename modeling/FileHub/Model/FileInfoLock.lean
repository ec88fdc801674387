import Mathlib.Logic.Function.Basic

/-!
# `FileInfoLock` of `api_common.h`

One lock for the process, and any number of `ScopedFileInfoLock` objects that
try it when they are constructed and release it when they are destroyed. The
body of every method runs under `mtx_`, so an event is one such body; a
constructor in `wait_for` has given the mutex back and has it again when it
wakes, be it for a notification, for none or because its time is up. Which of
the waiting ones wakes, and when, is left open.
-/

namespace FileHub

/-- A scope that does not exist, is inside its constructor's wait, or is alive
with its `is_locked_`. -/
inductive ScopePhase where
  | absent
  | waiting
  | alive (is_locked_ : Bool)
deriving DecidableEq

structure FileInfoLock (Scope : Type) where
  locked_ : Bool
  stop_ : Bool
  phase : Scope → ScopePhase

inductive LockEvent (Scope : Type) where
  | construct (o : Scope)
  | wake (o : Scope) (expired : Bool)
  | destroy (o : Scope)
  | stopWaiting
  | reset
deriving DecidableEq

namespace FileInfoLock

open Function (update)

variable {Scope : Type}

def new : FileInfoLock Scope := ⟨false, false, fun _ => .absent⟩

/-- The predicate of `wait_for`. -/
def Ready (s : FileInfoLock Scope) : Prop := s.locked_ = false ∨ s.stop_ = true

instance (s : FileInfoLock Scope) : Decidable s.Ready :=
  inferInstanceAs (Decidable (_ ∨ _))

variable [DecidableEq Scope]

/-- `TryLockFor` after a wait that found its predicate. -/
def tryLock (s : FileInfoLock Scope) (o : Scope) : FileInfoLock Scope :=
  if s.stop_ then { s with phase := update s.phase o (.alive false) }
  else { s with locked_ := true, phase := update s.phase o (.alive true) }

/-- One event; `none` where it cannot happen. -/
def step (s : FileInfoLock Scope) : LockEvent Scope → Option (FileInfoLock Scope)
  | .construct o =>
      if s.phase o = .absent then
        if s.Ready then some (s.tryLock o)
        else some { s with phase := update s.phase o .waiting }
      else none
  | .wake o expired =>
      if s.phase o = .waiting then
        if s.Ready then some (s.tryLock o)
        else if expired then some { s with phase := update s.phase o (.alive false) }
        else some s
      else none
  | .destroy o =>
      match s.phase o with
      | .absent | .waiting => none
      | .alive is_locked_ =>
          let phase := update s.phase o .absent
          if is_locked_ then some { s with locked_ := false, phase } else some { s with phase }
  | .stopWaiting => some { s with stop_ := true }
  | .reset => some { s with stop_ := false, locked_ := false }

/-- What an event makes of the lock; one that cannot happen does not. -/
def next (s : FileInfoLock Scope) (e : LockEvent Scope) : FileInfoLock Scope :=
  (s.step e).getD s

end FileInfoLock

end FileHub
