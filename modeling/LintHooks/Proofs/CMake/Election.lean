import LintHooks.CMake.ConfigureLock
import Mathlib.Logic.Function.Basic
set_option autoImplicit false

/-!
# CMake: one process configures

Processes that want one build directory configured take their steps in any order.  A step changes
only what its own process holds, so the table of locks always says of each process what its stage
says (`Sound`), and no two locks of the table exclude each other.  This is all that is needed: who
has the try lock alone keeps everybody else from both files, so the main lock is free for whoever
has come as far as to want it, and who waits for the try lock waits for a leader, which can go on.

The main result is `one_configures`, about any number of processes and any order of their steps.
`Moves` says once what a step can be, and `moves_of_advance?` is the only place where the steps
themselves are looked at.  What a step keeps is read off the cases of `Moves` (`Moves.coherent`,
`Moves.others`, `Moves.own`); together this is `Sound.step`, and by induction on the schedule
`Sound.run`.  It follows from soundness alone that at most one leads (`Sound.leader_unique`), what
is waited for (`Sound.waits`), and that somebody can always go on (`Sound.progress`).  That all come
to an end is a matter of counting, since every step brings its process nearer to its end
(`count_add_distance_le`).  A process that settles its role at a stretch takes these steps, too
(`run?_replicate`).
-/

namespace LintHooks

/-! ## Tables of locks -/

namespace LockTable

variable {t t' : LockTable} {handle : Nat} {file : Location} {mode : LockMode} {l : HeldLock}

/-- No two handles hold locks on one file that exclude each other. -/
def Coherent (t : LockTable) : Prop :=
  ∀ a ∈ t.held, ∀ b ∈ t.held, a.handle ≠ b.handle → a.file = b.file →
    conflicts a.mode b.mode = false

theorem conflicts_comm (a b : LockMode) : conflicts a b = conflicts b a := Bool.or_comm _ _

theorem grants_iff : t.grants handle file mode = true ↔
    ∀ l ∈ t.held, l.handle ≠ handle → l.file = file → conflicts l.mode mode = false := by
  rw [grants, List.all_eq_true]
  refine forall₂_congr fun l _ => ?_
  by_cases hh : l.handle = handle <;> by_cases hf : l.file = file <;> simp [hh, hf]

theorem grants_of_request? (h : t.request? handle file mode = some t') :
    t.grants handle file mode = true := by
  by_contra hg
  rw [request?, if_neg hg] at h
  cases h

/-- What stands in the way of a request that is not granted. -/
theorem exists_conflict (h : t.request? handle file mode = none) :
    ∃ l ∈ t.held, l.handle ≠ handle ∧ l.file = file ∧ conflicts l.mode mode = true := by
  have hg : ¬ t.grants handle file mode = true := by
    intro hg
    rw [request?, if_pos hg] at h
    cases h
  simpa [grants_iff] using hg

/-- What is held after a request that is granted. -/
theorem mem_of_request? (h : t.request? handle file mode = some t') :
    l ∈ t'.held ↔ l = ⟨handle, file, mode⟩ ∨ l ∈ t.held ∧ l.handle ≠ handle := by
  rw [request?, if_pos (grants_of_request? h)] at h
  cases h
  simp

theorem mem_release : l ∈ (t.release handle).held ↔ l ∈ t.held ∧ l.handle ≠ handle := by
  simp [release]

theorem Coherent.request? (hc : t.Coherent) (h : t.request? handle file mode = some t') :
    t'.Coherent := by
  have hg := grants_iff.1 (grants_of_request? h)
  intro a ha b hb hne hf
  rcases (mem_of_request? h).1 ha with rfl | ⟨ha, han⟩ <;>
    rcases (mem_of_request? h).1 hb with rfl | ⟨hb, hbn⟩
  · exact absurd rfl hne
  · rw [conflicts_comm]
    exact hg b hb hbn hf.symm
  · exact hg a ha han hf
  · exact hc a ha b hb hne hf

theorem Coherent.release (hc : t.Coherent) : (t.release handle).Coherent := fun a ha b hb =>
  hc a (mem_release.1 ha).1 b (mem_release.1 hb).1

end LockTable

namespace CMake

/-! ## One process -/

/-- The lock a handle holds in a mode. -/
def LockHandle.locked (h : LockHandle) (mode : LockMode) : HeldLock := ⟨h.number, h.file, mode⟩

/-- Whether a lock is held by one of the handles of a process. -/
def LockPair.Owns (locks : LockPair) (l : HeldLock) : Prop :=
  l.handle = locks.tryLock.number ∨ l.handle = locks.mainLock.number

namespace Stage

/-- The locks a process holds. -/
def locks (pair : LockPair) : Stage → List HeldLock
  | .start | .waiting | .done => []
  | .chosen | .retiring => [pair.tryLock.locked .exclusive]
  | .leading => [pair.mainLock.locked .exclusive, pair.tryLock.locked .exclusive]
  | .admitted | .leaving => [pair.tryLock.locked .shared]
  | .following => [pair.mainLock.locked .shared, pair.tryLock.locked .shared]

/-- Whether a process has been chosen to run CMake and still holds any of its locks. -/
def leads : Stage → Bool
  | .chosen | .leading | .retiring => true
  | _ => false

/-- Whether a process has been told that CMake was run and still holds any of its locks. -/
def follows : Stage → Bool
  | .following | .leaving => true
  | _ => false

/-- The most steps a process has before it. -/
def distance : Stage → Nat
  | .start => 5
  | .waiting => 4
  | .admitted | .chosen => 3
  | .following | .leading => 2
  | .leaving | .retiring => 1
  | .done => 0

/-- What a step can be: a lock is asked for and got, or given up, or the first request fails. -/
inductive Moves (pair : LockPair) (t : LockTable) : Stage → Stage → LockTable → Prop where
  | choose {t' : LockTable} :
    t.request? pair.tryLock.number pair.tryLock.file .exclusive = some t' →
    Moves pair t .start .chosen t'
  | queue : t.request? pair.tryLock.number pair.tryLock.file .exclusive = none →
    Moves pair t .start .waiting t
  | lead {t' : LockTable} :
    t.request? pair.mainLock.number pair.mainLock.file .exclusive = some t' →
    Moves pair t .chosen .leading t'
  | retire : Moves pair t .leading .retiring (t.release pair.mainLock.number)
  | finish : Moves pair t .retiring .done (t.release pair.tryLock.number)
  | share {t' : LockTable} :
    t.request? pair.tryLock.number pair.tryLock.file .shared = some t' →
    Moves pair t .waiting .admitted t'
  | follow {t' : LockTable} :
    t.request? pair.mainLock.number pair.mainLock.file .shared = some t' →
    Moves pair t .admitted .following t'
  | leave : Moves pair t .following .leaving (t.release pair.mainLock.number)
  | depart : Moves pair t .leaving .done (t.release pair.tryLock.number)

variable {pair : LockPair} {a b : Stage} {t t' : LockTable} {l : HeldLock}

theorem moves_of_advance? (h : a.advance? pair t = some (b, t')) : Moves pair t a b t' := by
  cases a with
  | start =>
    rw [advance?, enter] at h
    split at h <;> cases h
    · exact .choose ‹_›
    · exact .queue ‹_›
  | chosen =>
    obtain ⟨t', hr, h⟩ := Option.map_eq_some_iff.1 h
    cases h
    exact .lead hr
  | leading => cases h; exact .retire
  | retiring => cases h; exact .finish
  | waiting =>
    obtain ⟨t', hr, h⟩ := Option.map_eq_some_iff.1 h
    cases h
    exact .share hr
  | admitted =>
    obtain ⟨t', hr, h⟩ := Option.map_eq_some_iff.1 h
    cases h
    exact .follow hr
  | following => cases h; exact .leave
  | leaving => cases h; exact .depart
  | done => cases h

theorem Moves.coherent (h : Moves pair t a b t') (hc : t.Coherent) : t'.Coherent := by
  cases h with
  | choose hr | lead hr | share hr | follow hr => exact hc.request? hr
  | queue => exact hc
  | retire | finish | leave | depart => exact hc.release

/-- A step leaves the locks of the other processes as they are. -/
theorem Moves.others (h : Moves pair t a b t') (hl : ¬ pair.Owns l) :
    l ∈ t'.held ↔ l ∈ t.held := by
  obtain ⟨ht, hm⟩ := not_or.1 hl
  cases h with
  | choose hr | share hr =>
    rw [LockTable.mem_of_request? hr, and_iff_left ht, or_iff_right]
    exact ne_of_apply_ne HeldLock.handle ht
  | lead hr | follow hr =>
    rw [LockTable.mem_of_request? hr, and_iff_left hm, or_iff_right]
    exact ne_of_apply_ne HeldLock.handle hm
  | queue => rfl
  | retire | leave => rw [LockTable.mem_release, and_iff_left hm]
  | finish | depart => rw [LockTable.mem_release, and_iff_left ht]

/-- A step makes the locks of its process those of its next stage. -/
theorem Moves.own (h : Moves pair t a b t') (hne : pair.tryLock.number ≠ pair.mainLock.number)
    (hown : ∀ l, pair.Owns l → (l ∈ t.held ↔ l ∈ a.locks pair)) (hl : pair.Owns l) :
    l ∈ t'.held ↔ l ∈ b.locks pair := by
  have hold := hown l hl
  cases h with
  | choose hr | share hr =>
    rw [LockTable.mem_of_request? hr, hold]
    simp [locks, LockHandle.locked]
  | lead hr | follow hr =>
    rw [LockTable.mem_of_request? hr, hold]
    simp only [locks, LockHandle.locked, List.mem_cons, List.not_mem_nil, or_false]
    refine or_congr_right (and_iff_left_of_imp ?_)
    rintro rfl
    exact hne
  | queue => exact hold
  | retire | leave =>
    rw [LockTable.mem_release, hold]
    simp only [locks, LockHandle.locked, List.mem_cons, List.not_mem_nil, or_false]
    constructor
    · rintro ⟨rfl | rfl, hn⟩
      · exact absurd rfl hn
      · rfl
    · rintro rfl
      exact ⟨.inr rfl, hne⟩
  | finish | depart =>
    rw [LockTable.mem_release, hold]
    simp only [locks, LockHandle.locked, List.mem_cons, List.not_mem_nil, or_false]
    constructor
    · rintro ⟨rfl, hn⟩
      exact hn rfl
    · exact False.elim

theorem Moves.distance_lt (h : Moves pair t a b t') : b.distance < a.distance := by
  cases h <;> decide

theorem Moves.eq_done (h : Moves pair t .leaving b t') : b = .done := by
  cases h
  rfl

theorem exclusive_mem_locks (h : a.leads = true) :
    pair.tryLock.locked .exclusive ∈ a.locks pair := by
  cases a with
  | chosen | leading | retiring => simp [locks]
  | _ => cases h

theorem shared_mem_locks (h : a.follows = true) : pair.tryLock.locked .shared ∈ a.locks pair := by
  cases a with
  | following | leaving => simp [locks]
  | _ => cases h

theorem follows_eq_false (h : a.leads = true) : a.follows = false := by
  cases a with
  | chosen | leading | retiring => rfl
  | _ => cases h

/-- A process that holds any lock holds the try lock. -/
theorem exists_tryLock_mem (h : l ∈ a.locks pair) :
    ∃ mode, pair.tryLock.locked mode ∈ a.locks pair := by
  cases a with
  | start | waiting | done => cases h
  | chosen | leading | retiring => exact ⟨.exclusive, by simp [locks]⟩
  | admitted | following | leaving => exact ⟨.shared, by simp [locks]⟩

/-- Only a leader holds a lock alone. -/
theorem leads_of_exclusive (h : l ∈ a.locks pair) (hm : l.mode = .exclusive) :
    a.leads = true := by
  cases a with
  | start | waiting | done => cases h
  | chosen | leading | retiring => rfl
  | admitted | leaving =>
    cases List.mem_singleton.1 h
    cases hm
  | following =>
    rcases List.mem_cons.1 h with rfl | h
    · cases hm
    · cases List.mem_singleton.1 h
      cases hm

end Stage

/-! ## Many processes -/

/-- The lock files as a number of processes have opened them.  The files are two, and every
handle has a number of its own. -/
structure Handles (ι : Type) where
  tryFile : Location
  mainFile : Location
  tryNumber : ι → Nat
  mainNumber : ι → Nat
  tryFile_ne_mainFile : tryFile ≠ mainFile
  tryNumber_injective : Function.Injective tryNumber
  mainNumber_injective : Function.Injective mainNumber
  tryNumber_ne_mainNumber : ∀ p q, tryNumber p ≠ mainNumber q

/-- The handles of one process. -/
def Handles.pair {ι : Type} (H : Handles ι) (p : ι) : LockPair :=
  ⟨⟨H.tryNumber p, H.tryFile⟩, ⟨H.mainNumber p, H.mainFile⟩⟩

/-- How far each process has come, and the locks that are held. -/
structure Processes (ι : Type) where
  stage : ι → Stage := fun _ => .start
  table : LockTable := {}

variable {ι : Type} {H : Handles ι}

/-- A lock belongs to one process only. -/
theorem Handles.owner_unique {p q : ι} {l : HeldLock} (hp : (H.pair p).Owns l)
    (hq : (H.pair q).Owns l) : p = q := by
  rcases hp with hp | hp <;> rcases hq with hq | hq
  · exact H.tryNumber_injective (hp.symm.trans hq)
  · exact absurd (hp.symm.trans hq) (H.tryNumber_ne_mainNumber p q)
  · exact absurd (hq.symm.trans hp) (H.tryNumber_ne_mainNumber q p)
  · exact H.mainNumber_injective (hp.symm.trans hq)

namespace Processes

variable {s s' : Processes ι} {p q : ι}

/-- The table says of each process what its stage says, and its locks get on with each other. -/
structure Sound (H : Handles ι) (s : Processes ι) : Prop where
  coherent : s.table.Coherent
  owned : ∀ l ∈ s.table.held, ∃ p, (H.pair p).Owns l
  held : ∀ p l, (H.pair p).Owns l → (l ∈ s.table.held ↔ l ∈ (s.stage p).locks (H.pair p))

theorem sound_start : Sound H ({} : Processes ι) where
  coherent := fun _ ha => by cases ha
  owned := fun _ ha => by cases ha
  held := fun _ _ _ => Iff.rfl

theorem Sound.mem_locks (hs : Sound H s) {l : HeldLock} (hl : l ∈ s.table.held) :
    ∃ q, l ∈ (s.stage q).locks (H.pair q) := by
  obtain ⟨q, hq⟩ := hs.owned l hl
  exact ⟨q, (hs.held q l hq).1 hl⟩

theorem Sound.tryLock_mem (hs : Sound H s) {mode : LockMode}
    (h : (H.pair p).tryLock.locked mode ∈ (s.stage p).locks (H.pair p)) :
    (H.pair p).tryLock.locked mode ∈ s.table.held :=
  (hs.held p _ (.inl rfl)).2 h

/-- Nobody holds any lock beside a leader. -/
theorem Sound.alone (hs : Sound H s) (hp : (s.stage p).leads = true) {l : HeldLock}
    (hq : l ∈ (s.stage q).locks (H.pair q)) : p = q := by
  obtain ⟨mode, hq⟩ := Stage.exists_tryLock_mem hq
  by_contra hne
  have hnumber : H.tryNumber p ≠ H.tryNumber q := H.tryNumber_injective.ne hne
  have hfree := hs.coherent _ (hs.tryLock_mem (Stage.exclusive_mem_locks hp)) _ (hs.tryLock_mem hq)
    hnumber rfl
  cases hfree

theorem Sound.leader_unique (hs : Sound H s) (hp : (s.stage p).leads = true)
    (hq : (s.stage q).leads = true) : p = q :=
  hs.alone hp (Stage.exclusive_mem_locks hq)

theorem Sound.no_leader (hs : Sound H s) (hp : (s.stage p).follows = true) (q : ι) :
    (s.stage q).leads = false := by
  by_contra hq
  have hq : (s.stage q).leads = true := by simpa using hq
  have heq : q = p := hs.alone hq (Stage.shared_mem_locks hp)
  rw [← heq, Stage.follows_eq_false hq] at hp
  cases hp

/-! ## Steps and runs -/

variable [DecidableEq ι]

/-- The next step of one of the processes. -/
def step? (H : Handles ι) (s : Processes ι) (p : ι) : Option (Processes ι) :=
  ((s.stage p).advance? (H.pair p) s.table).map fun (b, t) => ⟨Function.update s.stage p b, t⟩

/-- The processes of a list take one step each, in its order. -/
def run? (H : Handles ι) (s : Processes ι) (schedule : List ι) : Option (Processes ι) :=
  schedule.foldlM (step? H) s

theorem run?_cons (schedule : List ι) :
    s.run? H (p :: schedule) = (s.step? H p).bind fun s => s.run? H schedule := rfl

/-- What one process does at a stretch is a run of all in which it takes every step. -/
theorem run?_replicate {n : Nat} {b : Stage} {t : LockTable}
    (h : (s.stage p).steps? (H.pair p) n s.table = some (b, t)) :
    s.run? H (List.replicate n p) = some ⟨Function.update s.stage p b, t⟩ := by
  induction n generalizing s with
  | zero =>
    cases h
    simp [run?]
  | succ n ih =>
    obtain ⟨⟨c, u⟩, hc, h⟩ := Option.bind_eq_some_iff.1 h
    have hstep : s.step? H p = some ⟨Function.update s.stage p c, u⟩ := by rw [step?, hc]; rfl
    rw [List.replicate_succ, run?_cons, hstep, Option.bind_some, ih (by simpa using h),
      Function.update_idem]

theorem moves_of_step? (h : s.step? H p = some s') :
    Stage.Moves (H.pair p) s.table (s.stage p) (s'.stage p) s'.table ∧
      ∀ q, q ≠ p → s'.stage q = s.stage q := by
  obtain ⟨⟨b, t⟩, ha, rfl⟩ := Option.map_eq_some_iff.1 h
  refine ⟨?_, fun q hq => Function.update_of_ne hq _ _⟩
  simpa using Stage.moves_of_advance? ha

theorem Sound.step (hs : Sound H s) (h : s.step? H p = some s') : Sound H s' := by
  obtain ⟨hm, hother⟩ := moves_of_step? h
  refine ⟨hm.coherent hs.coherent, fun l hl => ?_, fun q l hq => ?_⟩
  · by_cases hp : (H.pair p).Owns l
    · exact ⟨p, hp⟩
    · exact hs.owned l ((hm.others hp).1 hl)
  · by_cases hqp : q = p
    · subst hqp
      exact hm.own (H.tryNumber_ne_mainNumber q q) (hs.held q) hq
    · have hp : ¬ (H.pair p).Owns l := fun hp => hqp (Handles.owner_unique hq hp)
      rw [hm.others hp, hother q hqp]
      exact hs.held q l hq

theorem Sound.run (hs : Sound H s) {schedule : List ι} (h : s.run? H schedule = some s') :
    Sound H s' := by
  induction schedule generalizing s with
  | nil => cases h; exact hs
  | cons p schedule ih =>
    rw [run?_cons] at h
    obtain ⟨u, hu, h⟩ := Option.bind_eq_some_iff.1 h
    exact ih (hs.step hu) h

/-! ## Waiting and ending -/

/-- Whoever cannot take a step is done, or waits for a leader to give the try lock back. -/
theorem Sound.waits (hs : Sound H s) (h : s.step? H p = none) :
    s.stage p = .done ∨ s.stage p = .waiting ∧ ∃ q, (s.stage q).leads = true := by
  have hnone : (s.stage p).advance? (H.pair p) s.table = none := Option.map_eq_none_iff.1 h
  cases hp : s.stage p with
  | done => exact .inl rfl
  | start | leading | retiring | following | leaving => rw [hp] at hnone; cases hnone
  | waiting =>
    rw [hp] at hnone
    obtain ⟨l, hl, -, -, hc⟩ := LockTable.exists_conflict (Option.map_eq_none_iff.1 hnone)
    obtain ⟨q, hq⟩ := hs.mem_locks hl
    exact .inr ⟨rfl, q, Stage.leads_of_exclusive hq (by simpa [LockTable.conflicts] using hc)⟩
  | chosen =>
    rw [hp] at hnone
    obtain ⟨l, hl, -, hf, -⟩ := LockTable.exists_conflict (Option.map_eq_none_iff.1 hnone)
    obtain ⟨q, hq⟩ := hs.mem_locks hl
    cases hs.alone (by rw [hp]; rfl) hq
    rw [hp] at hq
    cases List.mem_singleton.1 hq
    exact absurd hf H.tryFile_ne_mainFile
  | admitted =>
    rw [hp] at hnone
    obtain ⟨l, hl, -, -, hc⟩ := LockTable.exists_conflict (Option.map_eq_none_iff.1 hnone)
    obtain ⟨q, hq⟩ := hs.mem_locks hl
    have hlead := Stage.leads_of_exclusive hq (by simpa [LockTable.conflicts] using hc)
    have hshared : (H.pair p).tryLock.locked .shared ∈ (s.stage p).locks (H.pair p) := by
      rw [hp]
      exact List.mem_singleton_self _
    have heq : q = p := hs.alone hlead hshared
    rw [heq, hp] at hlead
    cases hlead

/-- As long as somebody is not done, somebody can take a step. -/
theorem Sound.progress (hs : Sound H s) (hp : s.stage p ≠ .done) :
    ∃ q, (s.step? H q).isSome = true := by
  by_contra hstuck
  have hnone : ∀ q, s.step? H q = none := by simpa using hstuck
  obtain hdone | ⟨-, q, hq⟩ := hs.waits (hnone p)
  · exact hp hdone
  · obtain hdone | ⟨hwait, -⟩ := hs.waits (hnone q)
    · rw [hdone] at hq
      cases hq
    · rw [hwait] at hq
      cases hq

/-- A process takes no more steps than it has before it. -/
theorem count_add_distance_le {schedule : List ι} (h : s.run? H schedule = some s') (p : ι) :
    schedule.count p + (s'.stage p).distance ≤ (s.stage p).distance := by
  induction schedule generalizing s with
  | nil => cases h; simp
  | cons q schedule ih =>
    rw [run?_cons] at h
    obtain ⟨u, hu, h⟩ := Option.bind_eq_some_iff.1 h
    obtain ⟨hm, hother⟩ := moves_of_step? hu
    have hrest := ih h
    by_cases hpq : p = q
    · subst hpq
      have hlt := hm.distance_lt
      rw [List.count_cons_self]
      omega
    · rw [List.count_cons_of_ne (Ne.symm hpq), ← hother p hpq]
      exact hrest

/-- Processes that start without any lock and take their steps in any order: at most one leads
at a time, and none does when another has followed; only the share in the try lock is ever waited
for, and only while somebody leads; and they all come to an end, since somebody can go on as long
as not all are done and nobody takes more than five steps. -/
theorem one_configures (H : Handles ι) (schedule : List ι) (s : Processes ι)
    (hrun : Processes.run? H {} schedule = some s) :
    (∀ p q, (s.stage p).leads = true → (s.stage q).leads = true → p = q) ∧
    (∀ p q, (s.stage p).follows = true → (s.stage q).leads = false) ∧
    (∀ p s', s.stage p = .leaving → s.step? H p = some s' →
      s'.stage p = .done ∧ ∀ q, (s'.stage q).leads = false) ∧
    (∀ p, s.step? H p = none →
      s.stage p = .done ∨ s.stage p = .waiting ∧ ∃ q, (s.stage q).leads = true) ∧
    (∀ p, s.stage p ≠ .done → ∃ q, (s.step? H q).isSome = true) ∧
    ∀ p, schedule.count p ≤ 5 := by
  have hs : Sound H s := sound_start.run hrun
  refine ⟨fun _ _ => hs.leader_unique, fun _ q hp => hs.no_leader hp q, ?_, fun _ => hs.waits,
    fun _ => hs.progress, fun p => ?_⟩
  · intro p s' hp h
    obtain ⟨hm, hother⟩ := moves_of_step? h
    have hdone : s'.stage p = .done := (hp ▸ hm).eq_done
    refine ⟨hdone, fun q => ?_⟩
    by_cases hq : q = p
    · rw [hq, hdone]
      rfl
    · rw [hother q hq]
      exact hs.no_leader (by rw [hp]; rfl) q
  · exact Nat.le_trans (Nat.le_add_right _ _) (count_add_distance_le hrun p)

/-- Two processes with handles of their own. -/
def twoHandles : Handles (Fin 2) where
  tryFile := ["build", ConfigureLock.tryName]
  mainFile := ["build", ConfigureLock.mainName]
  tryNumber p := 2 * p
  mainNumber p := 2 * p + 1
  tryFile_ne_mainFile := by decide
  tryNumber_injective p q h := by grind
  mainNumber_injective p q h := by grind
  tryNumber_ne_mainNumber := by decide

theorem one_configures_two : ∃ s, Processes.run? twoHandles {} [0, 1, 0, 0, 0, 1, 1] = some s ∧
    s.stage 0 = .done ∧ s.stage 1 = .following ∧ ∀ q, (s.stage q).leads = false :=
  ⟨_, rfl, rfl, rfl,
    fun q => (one_configures twoHandles [0, 1, 0, 0, 0, 1, 1] _ rfl).2.1 1 q rfl⟩

end Processes

end CMake

end LintHooks
