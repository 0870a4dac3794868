import LintHooks.Host.Basic
set_option autoImplicit false

/-!
# Host: actions with a state of their own

Some actions carry along a value that they change step by step, such as what is
known about a project.  The value keeps what was learned until then when an action
fails, so that a caller can go on with it.

Both kinds of actions are described by what running them gives, one equation for
each way of building an action.
-/

namespace LintHooks

namespace Action

variable {α β : Type} (launcher : Launcher) (h : Host)

@[simp] theorem runOn_pure (a : α) : (pure a : Action α).runOn launcher h = (.ok a, h) := rfl

@[simp] theorem runOn_fail (f : Failure) :
    (fail f : Action α).runOn launcher h = (.error f, h) := rfl

@[simp] theorem runOn_host : host.runOn launcher h = (.ok h, h) := rfl

/-- The second of two actions runs only where the first one succeeds. -/
theorem runOn_bind (t : Action α) (k : α → Action β) :
    (t >>= k).runOn launcher h =
      match t.runOn launcher h with
      | (.ok a, h) => (k a).runOn launcher h
      | (.error f, h) => (.error f, h) := by
  simp only [runOn, bind, ReaderT.bind, ExceptT.bind, ExceptT.mk, StateT.bind]
  rcases t launcher h with ⟨_ | _, _⟩ <;> rfl

/-- The outcome of an action is always there. -/
theorem runOn_outcome (t : Action α) :
    t.outcome.runOn launcher h = (.ok (t.runOn launcher h).1, (t.runOn launcher h).2) := rfl

@[simp] theorem runOn_printError (s : String) :
    (printError s).runOn launcher h = (.ok (), { h with stderr := h.stderr ++ s }) := rfl

/-- A message for the log never fails, and all it can change is standard error. -/
theorem runOn_tell (topic : LogTopic) (level : LogLevel) (message : String) :
    ∃ s, (tell topic level message).runOn launcher h
      = (.ok (), { h with stderr := h.stderr ++ s }) := by
  have silent : ((pure () : Action Unit).runOn launcher h)
      = (.ok (), { h with stderr := h.stderr ++ "" }) := by rw [String.append_empty]; rfl
  rw [tell, runOn_bind, runOn_host]
  simp only
  split
  · split
    · exact ⟨_, runOn_printError launcher h _⟩
    · exact ⟨"", silent⟩
  · exact ⟨"", silent⟩

end Action

/-- Something a hook does with a value of its own. -/
abbrev ActionOn (σ α : Type) : Type :=
  ExceptT Failure (StateT σ (ReaderT Launcher (StateM Host))) α

namespace ActionOn

variable {σ τ α β : Type}

/-- Runs an action on a value and a host. -/
def runOn (t : ActionOn σ α) (s : σ) (launcher : Launcher) (h : Host) :
    (Except Failure α × σ) × Host :=
  t s launcher h

/-- An action that leaves the value alone. -/
def lift (t : Action α) : ActionOn σ α := fun s launcher h =>
  match t launcher h with
  | (result, h) => ((result, s), h)

instance : MonadLiftT Action (ActionOn σ) := ⟨lift⟩

/-- An action on a part of the value. -/
def within (part : τ → σ) (put : σ → τ → τ) (t : ActionOn σ α) : ActionOn τ α :=
  fun s launcher h =>
    match t (part s) launcher h with
    | ((result, p), h) => ((result, put p s), h)

/-- What an action comes to that starts from a value. -/
def startingFrom (s : σ) (t : ActionOn σ α) : Action (α × σ) := fun launcher h =>
  match t s launcher h with
  | ((result, s), h) => (result.map fun a => (a, s), h)

variable (s : σ) (launcher : Launcher) (h : Host)

@[simp] theorem runOn_pure (a : α) :
    (pure a : ActionOn σ α).runOn s launcher h = ((.ok a, s), h) := rfl

@[simp] theorem runOn_lift (t : Action α) :
    (lift t).runOn s launcher h = (((t.runOn launcher h).1, s), (t.runOn launcher h).2) := rfl

@[simp] theorem runOn_get : (get : ActionOn σ σ).runOn s launcher h = ((.ok s, s), h) := rfl

@[simp] theorem runOn_set (s' : σ) :
    (set s' : ActionOn σ Unit).runOn s launcher h = ((.ok (), s'), h) := rfl

@[simp] theorem runOn_liftM (t : Action α) :
    (liftM t : ActionOn σ α).runOn s launcher h =
      (((t.runOn launcher h).1, s), (t.runOn launcher h).2) := rfl

/-- The second of two actions runs only where the first one succeeds, with the value that the
first one leaves; the value stays in any case. -/
theorem runOn_bind (t : ActionOn σ α) (k : α → ActionOn σ β) :
    (t >>= k).runOn s launcher h =
      match t.runOn s launcher h with
      | ((.ok a, s), h) => (k a).runOn s launcher h
      | ((.error f, s), h) => ((.error f, s), h) := by
  simp only [runOn, bind, ReaderT.bind, ExceptT.bind, ExceptT.mk, StateT.bind]
  rcases t s launcher h with ⟨⟨_ | _, _⟩, _⟩ <;> rfl

end ActionOn

end LintHooks
