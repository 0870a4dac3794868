set_option autoImplicit false

/-!
# Results of two steps and merges of lists

Two things that many of the arguments come down to.  A step that may fail, followed by another,
succeeds if both do (`bind_eq_ok_iff`), which takes a run of steps apart from the front.  And a
list is a merge of several others if each of its items can be tagged with the list it comes from
so that the items with one tag are the list of that name, in its order (`Merges`); what only the
items of one of the lists have picks that list out of any merge (`Merges.filter_eq`).
-/

namespace LintHooks

/-! ## Results of two steps -/

section Results

variable {ε α β : Type} {x : Except ε α}

theorem bind_eq_ok_iff {f : α → Except ε β} {b : β} :
    (x >>= f) = .ok b ↔ ∃ a, x = .ok a ∧ f a = .ok b := by
  cases x with
  | error e => simp [bind, Except.bind]
  | ok a => simp [bind, Except.bind]

theorem map_eq_ok_iff {g : α → β} {b : β} : x.map g = .ok b ↔ ∃ a, x = .ok a ∧ g a = b := by
  cases x with
  | error e => simp [Except.map]
  | ok a => simp [Except.map]

end Results

/-! ## Merges of lists -/

variable {τ κ α : Type} [DecidableEq κ]

/-- The items whose tag belongs to `k`, in their order. -/
def select (key : τ → κ) (k : κ) (tagged : List (τ × α)) : List α :=
  (tagged.filter fun p => key p.1 = k).map Prod.snd

theorem select_cons (key : τ → κ) (k : κ) (tag : τ) (a : α) (tagged : List (τ × α)) :
    select key k ((tag, a) :: tagged) =
      if key tag = k then a :: select key k tagged else select key k tagged := by
  rw [select, List.filter_cons]
  by_cases h : key tag = k <;> simp [h, select]

theorem mem_select {key : τ → κ} {k : κ} {tagged : List (τ × α)} {a : α} :
    a ∈ select key k tagged ↔ ∃ tag, (tag, a) ∈ tagged ∧ key tag = k := by
  simp [select]

/-- The items are those of the streams, and each stream stands among them in its order. -/
def Merges (streams : κ → List α) (items : List α) : Prop :=
  ∃ tagged : List (κ × α), items = tagged.map Prod.snd ∧ ∀ k, select id k tagged = streams k

variable {streams : κ → List α} {items : List α}

theorem Merges.mem_iff (h : Merges streams items) {a : α} : a ∈ items ↔ ∃ k, a ∈ streams k := by
  obtain ⟨tagged, rfl, hs⟩ := h
  constructor
  · intro ha
    obtain ⟨⟨k, b⟩, hb, rfl⟩ := List.mem_map.1 ha
    exact ⟨k, hs k ▸ mem_select.2 ⟨k, hb, rfl⟩⟩
  · rintro ⟨k, ha⟩
    rw [← hs k] at ha
    obtain ⟨tag, hb, -⟩ := mem_select.1 ha
    exact List.mem_map.2 ⟨(tag, a), hb, rfl⟩

/-- A property that only the items of one stream have picks out that stream. -/
theorem Merges.filter_eq (h : Merges streams items) {p : α → Bool} {k : κ}
    (hp : ∀ j, ∀ a ∈ streams j, p a = decide (j = k)) : items.filter p = streams k := by
  obtain ⟨tagged, rfl, hs⟩ := h
  have htag : ∀ q ∈ tagged, p q.2 = decide (q.1 = k) := fun q hq =>
    hp q.1 q.2 (hs q.1 ▸ mem_select.2 ⟨q.1, hq, rfl⟩)
  rw [← hs k, select, List.filter_map]
  exact congrArg (List.map Prod.snd) (List.filter_congr htag)

end LintHooks
