import LintHooks.Host.Stateful
set_option autoImplicit false

/-!
# Host: one action after the other

Of two actions the second one starts where the first one has come to a good end.  So an action that
is put together from others keeps what each of them keeps and gives what the last of them gives, and
a fact about the value that it carries along is shown for its parts, whatever the programs do that
it runs and wherever it ends.

There are three such facts, for the two kinds of actions: `Yields`, about what is given, `Fails`,
about failures, and `Keeps`, about the value that is carried along.  For each there is a lemma on
two actions one after the other (`yields_bind`, `fails_bind`, `keeps_bind`), beside those on the
single steps.  Where it is known how an action ends, `runOn_bind_eq` goes on from there, and
`runOn_bind_ok` takes a good end apart.
-/

namespace LintHooks

variable {σ τ α β : Type}

namespace Action

/-- The second of two actions starts where the first one ends well. -/
theorem runOn_bind_eq {t : Action α} {k : α → Action β} {launcher : Launcher} {h h₁ : Host} {a : α}
    (ht : t.runOn launcher h = (.ok a, h₁)) :
    (t >>= k).runOn launcher h = (k a).runOn launcher h₁ := by
  rw [runOn_bind, ht]

theorem runOn_bind_host (k : Host → Action β) (launcher : Launcher) (h : Host) :
    (host >>= k).runOn launcher h = (k h).runOn launcher h :=
  runOn_bind_eq (runOn_host launcher h)

/-- The second of two actions ends well only where the first one does. -/
theorem runOn_bind_ok {t : Action α} {k : α → Action β} {launcher : Launcher} {h h' : Host} {b : β}
    (hrun : (t >>= k).runOn launcher h = (.ok b, h')) :
    ∃ a h₁, t.runOn launcher h = (.ok a, h₁) ∧ (k a).runOn launcher h₁ = (.ok b, h') := by
  rw [runOn_bind] at hrun
  split at hrun
  · next a h₁ ht => exact ⟨a, h₁, ht, hrun⟩
  · cases hrun

/-- What follows upon an action may be changed as long as it comes to a good end from wherever it
did before. -/
theorem runOn_bind_imp {t : Action α} {k k' : α → Action β} {launcher : Launcher} {h h' : Host}
    {b b' : β} (hk : ∀ a h₁, (k a).runOn launcher h₁ = (.ok b, h') →
      (k' a).runOn launcher h₁ = (.ok b', h'))
    (hrun : (t >>= k).runOn launcher h = (.ok b, h')) :
    (t >>= k').runOn launcher h = (.ok b', h') := by
  obtain ⟨a, h₁, ht, hb⟩ := runOn_bind_ok hrun
  rw [runOn_bind_eq ht]
  exact hk a h₁ hb

/-- All that an action can give has a property. -/
def Yields (P : α → Prop) (t : Action α) : Prop :=
  ∀ launcher h a h', t.runOn launcher h = (.ok a, h') → P a

theorem yields_bind {P : β → Prop} {t : Action α} {k : α → Action β}
    (hk : ∀ a, Yields P (k a)) : Yields P (t >>= k) := by
  intro launcher h b h' hrun
  obtain ⟨a, h₁, -, hb⟩ := runOn_bind_ok hrun
  exact hk a launcher h₁ b h' hb

/-- All failures of an action have a property. -/
def Fails (P : Failure → Prop) (t : Action α) : Prop :=
  ∀ launcher h f h', t.runOn launcher h = (.error f, h') → P f

variable {P : Failure → Prop}

/-- An action that always succeeds has no failures. -/
theorem fails_of_ok {t : Action α} (ht : ∀ launcher h, ∃ a h', t.runOn launcher h = (.ok a, h')) :
    Fails P t := by
  intro launcher h f h' hrun
  obtain ⟨a, h₁, hok⟩ := ht launcher h
  rw [hok] at hrun
  cases hrun

theorem fails_pure (a : α) : Fails P (pure a : Action α) := fails_of_ok fun _ _ => ⟨_, _, rfl⟩

theorem fails_host : Fails P host := fails_of_ok fun _ _ => ⟨_, _, rfl⟩

theorem fails_modify (f : Host → Host) : Fails P (modify f : Action Unit) :=
  fails_of_ok fun _ _ => ⟨_, _, rfl⟩

theorem fails_set (h : Host) : Fails P (set h : Action Unit) := fails_of_ok fun _ _ => ⟨_, _, rfl⟩

theorem fails_outcome (t : Action α) : Fails P t.outcome := fails_of_ok fun _ _ => ⟨_, _, rfl⟩

theorem fails_fail {f : Failure} (hf : P f) : Fails P (fail f : Action α) := by
  intro launcher h f' h' hrun
  cases hrun
  exact hf

/-- The second of two actions fails on what the first one gives. -/
theorem fails_bind_of_yields {Q : α → Prop} {t : Action α} {k : α → Action β} (ht : Fails P t)
    (hyields : Yields Q t) (hk : ∀ a, Q a → Fails P (k a)) : Fails P (t >>= k) := by
  intro launcher h f h' hrun
  rw [runOn_bind] at hrun
  split at hrun
  · next a h₁ hok => exact hk a (hyields launcher h a h₁ hok) launcher h₁ f h' hrun
  · next f' h₁ hfailed =>
    cases hrun
    exact ht launcher h f h' hfailed

theorem fails_bind {t : Action α} {k : α → Action β} (ht : Fails P t) (hk : ∀ a, Fails P (k a)) :
    Fails P (t >>= k) :=
  fails_bind_of_yields (Q := fun _ => True) ht (fun _ _ _ _ _ => trivial) fun a _ => hk a

/-- An outcome that is a failure is one of the action. -/
theorem yields_outcome {t : Action α} (ht : Fails P t) :
    Yields (fun r => ∀ f, r = .error f → P f) t.outcome := by
  intro launcher h r h' hrun f hf
  rw [runOn_outcome, hf] at hrun
  exact ht launcher h f _ (Prod.ext (Except.ok.inj (congrArg (·.1) hrun)) rfl)

end Action

namespace ActionOn

@[simp] theorem runOn_modify (f : σ → σ) (s : σ) (launcher : Launcher) (h : Host) :
    (modify f : ActionOn σ PUnit).runOn s launcher h = ((.ok (), f s), h) := rfl

theorem runOn_bind_liftM {t : Action α} {k : α → ActionOn σ β} (s : σ) {launcher : Launcher}
    {h h₁ : Host} {a : α} (ht : t.runOn launcher h = (.ok a, h₁)) :
    ((liftM t : ActionOn σ α) >>= k).runOn s launcher h = (k a).runOn s launcher h₁ := by
  rw [runOn_bind, runOn_liftM, ht]

theorem runOn_bind_get (k : σ → ActionOn σ β) (s : σ) (launcher : Launcher) (h : Host) :
    ((get : ActionOn σ σ) >>= k).runOn s launcher h = (k s).runOn s launcher h := by
  rw [runOn_bind, runOn_get]

theorem runOn_bind_modify (f : σ → σ) (k : PUnit → ActionOn σ β) (s : σ) (launcher : Launcher)
    (h : Host) : ((modify f : ActionOn σ PUnit) >>= k).runOn s launcher h =
      (k ⟨⟩).runOn (f s) launcher h := by
  rw [runOn_bind, runOn_modify]

theorem runOn_bind_ok {t : ActionOn σ α} {k : α → ActionOn σ β} {s s' : σ} {launcher : Launcher}
    {h h' : Host} {b : β} (hrun : (t >>= k).runOn s launcher h = ((.ok b, s'), h')) :
    ∃ a s₁ h₁, t.runOn s launcher h = ((.ok a, s₁), h₁) ∧
      (k a).runOn s₁ launcher h₁ = ((.ok b, s'), h') := by
  rw [runOn_bind] at hrun
  split at hrun
  · next a s₁ h₁ ht => exact ⟨a, s₁, h₁, ht, hrun⟩
  · cases hrun

theorem runOn_bind_liftM_ok {t : Action α} {k : α → ActionOn σ β} {s s' : σ} {launcher : Launcher}
    {h h' : Host} {b : β}
    (hrun : ((liftM t : ActionOn σ α) >>= k).runOn s launcher h = ((.ok b, s'), h')) :
    ∃ a h₁, t.runOn launcher h = (.ok a, h₁) ∧ (k a).runOn s launcher h₁ = ((.ok b, s'), h') := by
  obtain ⟨a, s₁, h₁, ht, hk⟩ := runOn_bind_ok hrun
  rcases hown : t.runOn launcher h with ⟨result, h₂⟩
  rw [runOn_liftM, hown] at ht
  cases ht
  exact ⟨a, h₂, rfl, hk⟩

/-- Whatever becomes of an action, it keeps a property of the value that it carries along. -/
def Keeps (P : σ → Prop) (t : ActionOn σ α) : Prop :=
  ∀ s launcher h, P s → P (t.runOn s launcher h).1.2

variable {P : σ → Prop}

theorem keeps_get : Keeps P (get : ActionOn σ σ) := fun _ _ _ hs => hs

/-- What is done with the value itself may rely on the property. -/
theorem keeps_bind_get {k : σ → ActionOn σ α} (hk : ∀ s, P s → Keeps P (k s)) :
    Keeps P (get >>= k) := by
  intro s launcher h hs
  rw [runOn_bind_get]
  exact hk s hs s launcher h hs

theorem keeps_modify {f : σ → σ} (hf : ∀ s, P s → P (f s)) :
    Keeps P (modify f : ActionOn σ PUnit) := fun s _ _ hs => hf s hs

theorem keeps_liftM (t : Action α) : Keeps P (liftM t : ActionOn σ α) := fun _ _ _ hs => hs

theorem keeps_bind {t : ActionOn σ α} {k : α → ActionOn σ β} (ht : Keeps P t)
    (hk : ∀ a, Keeps P (k a)) : Keeps P (t >>= k) := by
  intro s launcher h hs
  have hkept := ht s launcher h hs
  rw [runOn_bind]
  split
  · next a s₁ h₁ hrun =>
    rw [hrun] at hkept
    exact hk a s₁ launcher h₁ hkept
  · next f s₁ h₁ hrun =>
    rw [hrun] at hkept
    exact hkept

/-- What is done to a part of the value keeps what does not depend on that part. -/
theorem keeps_within {part : σ → τ} {put : τ → σ → σ} (hput : ∀ p s, P s → P (put p s))
    (t : ActionOn τ α) : Keeps P (t.within part put) :=
  fun s _ _ hs => hput _ s hs

theorem runOn_startingFrom (t : ActionOn σ α) (s : σ) (launcher : Launcher) (h : Host) :
    (t.startingFrom s).runOn launcher h =
      ((t.runOn s launcher h).1.1.map fun a => (a, (t.runOn s launcher h).1.2),
        (t.runOn s launcher h).2) := rfl

/-- What an action comes to has the properties of the value that it keeps. -/
theorem yields_startingFrom {t : ActionOn σ α} {s : σ} (ht : Keeps P t) (hs : P s) :
    Action.Yields (fun r => P r.2) (t.startingFrom s) := by
  intro launcher h r h' hrun
  have hkept := ht s launcher h hs
  rw [runOn_startingFrom] at hrun
  rcases hown : t.runOn s launcher h with ⟨⟨f | a, s'⟩, h₁⟩
  · rw [hown] at hrun
    cases hrun
  · rw [hown] at hrun hkept
    cases hrun
    exact hkept

end ActionOn

end LintHooks
