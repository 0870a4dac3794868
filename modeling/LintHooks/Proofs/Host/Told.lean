import LintHooks.Host.Stateful
set_option autoImplicit false

/-!
# Host: what has been told

The log goes to standard error, so whoever notes something down leaves a host that differs from the
one before in what has been told there and in nothing else.  What a message adds is a matter of the
log alone (`Host.shown`), and where the log is silent about a topic nothing is added.

For a message that is `runOn_tell_shown`.  Any number of messages is one (`runOn_forM_told`), and
what follows upon them runs on the host that has been told them (`runOn_bind_told`).  A program that
is run leaves what it leaves and a note (`runOn_run_noted`); programs that are run one after the
other are `Ran`, which is what the modules on hooks have their inductions on.
-/

namespace LintHooks

/-- A host on which something more has been told on standard error. -/
def Host.told (h : Host) (s : String) : Host := { h with stderr := h.stderr ++ s }

theorem Host.told_empty (h : Host) : h.told "" = h := by
  rw [told, String.append_empty]

theorem Host.told_told (h : Host) (s t : String) : (h.told s).told t = h.told (s ++ t) := by
  rw [told, told, told, String.append_assoc]

/-- Whether the log shows the messages of a topic at a level. -/
def Host.shows (h : Host) (topic : LogTopic) (level : LogLevel) : Bool :=
  h.log.any fun filter => filter.shows topic level

/-- What the log shows of a message. -/
def Host.shown (h : Host) (topic : LogTopic) (level : LogLevel) (message : String) : String :=
  if h.shows topic level then Action.logLine h.colored level message else ""

theorem Host.shown_told (h : Host) (s : String) : (h.told s).shown = h.shown := rfl

variable (launcher : Launcher) (h : Host)

namespace Action

theorem runOn_tell_shown (topic : LogTopic) (level : LogLevel) (message : String) :
    (tell topic level message).runOn launcher h =
      (.ok (), h.told (h.shown topic level message)) := by
  rw [tell, runOn_bind, runOn_host, Host.shown, Host.shows]
  dsimp only
  cases h.log with
  | none => exact congrArg _ h.told_empty.symm
  | some filter =>
    rw [Option.any_some]
    dsimp only
    split
    · exact runOn_printError launcher h _
    · exact congrArg _ h.told_empty.symm

theorem runOn_debug (topic : LogTopic) (message : String) :
    ∃ s, (debug topic message).runOn launcher h = (.ok (), h.told s) :=
  ⟨_, runOn_tell_shown launcher h topic .debug message⟩

theorem runOn_forM_debug_shown (topic : LogTopic) (messages : List String) :
    (messages.forM (debug topic)).runOn launcher h =
      (.ok (), h.told (String.join (messages.map (h.shown topic .debug)))) := by
  induction messages generalizing h with
  | nil => exact congrArg _ h.told_empty.symm
  | cons message messages ih =>
    rw [List.forM_eq_forM, List.forM_cons, runOn_bind, debug, runOn_tell_shown]
    dsimp only
    rw [← List.forM_eq_forM, ih, h.told_told, h.shown_told, List.map_cons, String.join_cons]

/-- Actions that only tell something do so also one after the other. -/
theorem runOn_forM_told {α : Type} {t : α → Action Unit}
    (ht : ∀ a h, ∃ s, (t a).runOn launcher h = (.ok (), h.told s)) (as : List α) :
    ∃ s, (as.forM t).runOn launcher h = (.ok (), h.told s) := by
  induction as generalizing h with
  | nil => exact ⟨"", by rw [h.told_empty]; rfl⟩
  | cons a as ih =>
    obtain ⟨s, hs⟩ := ht a h
    obtain ⟨s', hs'⟩ := ih (h.told s)
    refine ⟨s ++ s', ?_⟩
    rw [List.forM_eq_forM, List.forM_cons, runOn_bind, hs]
    dsimp only
    rw [← List.forM_eq_forM, hs', h.told_told]

/-- What follows upon an action that only tells something runs on the host that has been told it. -/
theorem runOn_bind_told {α : Type} {t : Action Unit} {k : Unit → Action α}
    (ht : ∃ s, t.runOn launcher h = (.ok (), h.told s)) :
    ∃ s, (t >>= k).runOn launcher h = (k ()).runOn launcher (h.told s) := by
  obtain ⟨s, hs⟩ := ht
  exact ⟨s, by rw [runOn_bind, hs]⟩

end Action

theorem join_eq_empty {l : List String} (h : ∀ s ∈ l, s = "") : String.join l = "" := by
  rw [← String.toList_eq_nil_iff, String.toList_join, List.flatMap_eq_nil_iff]
  intro s hs
  rw [h s hs]
  rfl

/-! ## Running programs -/

/-- Nothing can be run. -/
def programless : Launcher := fun _ h => (.error .notFound, h)

namespace Launch

/-- What the log shows of the notes that are made of a run. -/
def noted (h : Host) (l : Launch) (o : ProcessOutput) : String :=
  String.join ((notes l o).map (h.shown .process .debug))

theorem noted_of_silent {h : Host} (hlog : h.shows .process .debug = false) (l : Launch)
    (o : ProcessOutput) : noted h l o = "" := by
  refine join_eq_empty fun s hs => ?_
  obtain ⟨message, _, rfl⟩ := List.mem_map.1 hs
  rw [Host.shown, hlog]
  rfl

/-- A program that can be started gives its output.  The host is left as the program leaves it, up
to the notes that are made of the run. -/
theorem runOn_run_noted (l : Launch) {o : ProcessOutput} (ho : (launcher l h).1 = .ok o) :
    (run l).runOn launcher h =
      (.ok o, (launcher l h).2.told (noted (launcher l h).2 l o)) := by
  have hl : (Action.launch l).runOn launcher h = (.ok (.ok o), (launcher l h).2) := by
    rw [← ho]
    rfl
  rw [run, Action.runOn_bind, hl]
  dsimp only
  rw [Action.runOn_bind, Action.runOn_forM_debug_shown]
  rfl

/-- Programs that are run one after the other: each is started on the host that the one before it
has left and gives its output, and only the log is written in between. -/
inductive Ran (launcher : Launcher) : Host → List Launch → List ProcessOutput → Host → Prop where
  | nil (h : Host) : Ran launcher h [] [] h
  | cons {h after : Host} {l : Launch} {ls : List Launch} {o : ProcessOutput}
    {os : List ProcessOutput} : (launcher l h).1 = .ok o →
    Ran launcher ((launcher l h).2.told (noted (launcher l h).2 l o)) ls os after →
    Ran launcher h (l :: ls) (o :: os) after

variable {launcher h} in
theorem Ran.append {ls ls' : List Launch} {os os' : List ProcessOutput} {mid after : Host}
    (h₁ : Ran launcher h ls os mid) (h₂ : Ran launcher mid ls' os' after) :
    Ran launcher h (ls ++ ls') (os ++ os') after := by
  induction h₁ with
  | nil => exact h₂
  | cons ho _ ih => exact .cons ho (ih h₂)

variable {launcher h} in
/-- Where the log is silent about programs, a run leaves what its program leaves. -/
theorem ran_of_silent {l : Launch} {o : ProcessOutput} {after : Host}
    (hl : launcher l h = (.ok o, after)) (hlog : after.shows .process .debug = false) :
    Ran launcher h [l] [o] after := by
  have hran : Ran launcher h [l] [o] _ := .cons (congrArg Prod.fst hl) (.nil _)
  rwa [hl, noted_of_silent hlog, Host.told_empty] at hran

end Launch

end LintHooks
