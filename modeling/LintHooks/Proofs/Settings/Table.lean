import LintHooks.Proofs.Toml.Distinct
import LintHooks.Settings.Layer
set_option autoImplicit false

/-!
# Settings: which tables are layers

Reading takes in the entries of a table one by one, in the order of their keys.  An entry sets its
own key and no other, or it is of no use whatever was set before; so the entries of a layer can be
taken in in any order, and of the entries that are of no use the first one in the order of the keys
is the one that is reported.

The main results are `ofTable_spec`, with the layer or the rejection that a table is read as, and
`ofTable_congr`, that the order does not matter.  What one entry does is `setEntry_spec`: the cases
of `Offends` are all that can be wrong with it, and for each of them there is one rejection
(`Offends.setEntry`, `Offends.unique`).  The induction on the entries is `foldlM_setEntry_spec`, in
which the values set so far are those of the entries that have been taken in, looked up by the names
of the keys.
-/

namespace LintHooks

/-! ## Values of keys -/

namespace Toml.Value

/-- A date or a time as the text that it counts as. -/
def textual : Value → Value
  | .moment t => .text t.text
  | v => v

/-- A value with all dates and times in it as texts. -/
def settled : Value → Value
  | .array items => .array (items.map textual)
  | v => v.textual

theorem settled_eq_text_iff {v : Value} {s : String} :
    v.settled = .text s ↔ v.textual = .text s := by
  cases v with
  | array items => exact iff_of_false nofun nofun
  | _ => exact Iff.rfl

theorem settled_eq_array {v : Value} {items : List Value} (h : v.settled = .array items) :
    ∃ items', v = .array items' ∧ items'.map textual = items := by
  cases v with
  | array items' => exact ⟨items', rfl, Value.array.inj h⟩
  | _ => cases h

end Toml.Value

namespace Settings

open Toml (Value)

variable {s s₀ : Settings} {k : Key} {v : Value} {key : String}

/-- The value of a key as a document holds it. -/
def value? (s : Settings) : Key → Option Toml.Value
  | .flag k => (s.flags k).map .truth
  | .text k => (s.texts k).map .text
  | .list k => (s.lists k).map fun xs => .array (xs.map .text)

/-- Settings are known by the values of their keys. -/
theorem ext_value? {a b : Settings} (h : ∀ k, a.value? k = b.value? k) : a = b := by
  apply ext' <;> intro k
  · exact (Option.map_inj_right fun _ _ h => Toml.Value.truth.inj h).1 (h (.flag k))
  · exact (Option.map_inj_right fun _ _ h => Toml.Value.text.inj h).1 (h (.text k))
  · refine (Option.map_inj_right fun _ _ h => ?_).1 (h (.list k))
    exact (List.map_inj_right fun _ _ h => Toml.Value.text.inj h).1 (Toml.Value.array.inj h)

/-! ## Names of keys -/

theorem ofName?_name (k : Key) : Key.ofName? k.name = some k := by
  have hall : ∀ k ∈ Key.all, Key.ofName? k.name = some k := by decide
  exact hall k (Key.mem_all k)

theorem name_injective {j k : Key} (h : j.name = k.name) : j = k := by
  have := ofName?_name j
  rw [h, ofName?_name k] at this
  exact (Option.some.inj this).symm

theorem name_of_ofName? (h : Key.ofName? key = some k) : key = k.name := by
  have hfound := List.find?_some (p := fun k : Key => decide (k.name = key)) h
  exact (of_decide_eq_true hfound).symm

theorem ne_name_of_ofName? (h : Key.ofName? key = none) (k : Key) : key ≠ k.name := by
  rintro rfl
  rw [ofName?_name] at h
  cases h

/-! ## What an entry does -/

/-- Whether a value is of the sort that a key holds. -/
def Fits (k : Key) (v : Value) : Prop :=
  match k with
  | .flag _ => ∃ b, v = .truth b
  | .text _ => ∃ s, v.settled = .text s
  | .list _ => ∃ xs : List String, v.settled = .array (xs.map .text)

/-- Whether an entry gives a key of the settings a value of its sort. -/
def Proper (key : String) (v : Value) : Prop := ∃ k : Key, key = k.name ∧ Fits k v

/-- What is wrong with an entry: no key has its name, or its value is of another sort, or it is a
list with an item of another sort; of such items the first one counts. -/
inductive Offends : String → Value → Rejection → Prop where
  | unknown {key : String} {v : Value} : (∀ k : Key, key ≠ k.name) →
    Offends key v (.unknownKey key)
  | flag (f : FlagKey) {v : Value} : (∀ b, v ≠ .truth b) →
    Offends (Key.flag f).name v (.wrongSort (.flag f) v .truth)
  | text (t : TextKey) {v : Value} : (∀ s, v.textual ≠ .text s) →
    Offends (Key.text t).name v (.wrongSort (.text t) v (wantedText (.text t)))
  | list (l : ListKey) {v : Value} : (∀ items, v ≠ .array items) →
    Offends (Key.list l).name v (.wrongSort (.list l) v .list)
  | item (l : ListKey) {before after : List Value} {item : Value} :
    (∀ x ∈ before, ∃ s, x.textual = .text s) → (∀ s, item.textual ≠ .text s) →
    Offends (Key.list l).name (.array (before ++ item :: after))
      (.wrongSort (.list l) item (wantedText (.list l)))

theorem textOf?_eq_some_iff {s : String} : textOf? v = some s ↔ v.textual = .text s := by
  cases v with
  | text t => exact ⟨fun h => congrArg Value.text (Option.some.inj h), fun h => by cases h; rfl⟩
  | moment t => exact ⟨fun h => congrArg Value.text (Option.some.inj h), fun h => by cases h; rfl⟩
  | _ => exact iff_of_false nofun nofun

theorem textOf?_eq_none_iff : textOf? v = none ↔ ∀ s, v.textual ≠ .text s := by
  rw [Option.eq_none_iff_forall_ne_some]
  exact forall_congr' fun s => not_congr textOf?_eq_some_iff

/-- The items of a list are read up to the first one that is no text. -/
theorem mapM_asText_spec (k : Key) (items : List Value) :
    match items.mapM (asText k) with
    | .ok xs => items.map Value.textual = xs.map .text
    | .error r => ∃ before item after, items = before ++ item :: after ∧
        (∀ x ∈ before, ∃ s, x.textual = .text s) ∧ (∀ s, item.textual ≠ .text s) ∧
        r = .wrongSort k item (wantedText k) := by
  induction items with
  | nil => rfl
  | cons item items ih =>
    rw [List.mapM_cons, asText]
    cases htext : textOf? item with
    | none => exact ⟨[], item, items, rfl, nofun, textOf?_eq_none_iff.1 htext, rfl⟩
    | some s =>
      have hitem := textOf?_eq_some_iff.1 htext
      cases hrest : items.mapM (asText k) with
      | ok xs =>
        rw [hrest] at ih
        show (item :: items).map Value.textual = (s :: xs).map .text
        rw [List.map_cons, List.map_cons, hitem, ih]
      | error r =>
        rw [hrest] at ih
        obtain ⟨before, bad, after, rfl, hbefore, hbad, rfl⟩ := ih
        exact ⟨item :: before, bad, after, rfl, List.forall_mem_cons.2 ⟨⟨s, hitem⟩, hbefore⟩, hbad,
          rfl⟩

theorem value?_setFlag (s : Settings) (f : FlagKey) (b : Bool) (j : Key) :
    (s.setFlag f (some b)).value? j = if j = .flag f then some (.truth b) else s.value? j := by
  cases j <;> simp only [value?, setFlag, Key.flag.injEq, reduceCtorEq, if_false]
  split <;> rfl

theorem value?_setText (s : Settings) (t : TextKey) (x : String) (j : Key) :
    (s.setText t (some x)).value? j = if j = .text t then some (.text x) else s.value? j := by
  cases j <;> simp only [value?, setText, Key.text.injEq, reduceCtorEq, if_false]
  split <;> rfl

theorem value?_setList (s : Settings) (l : ListKey) (xs : List String) (j : Key) :
    (s.setList l (some xs)).value? j =
      if j = .list l then some (.array (xs.map .text)) else s.value? j := by
  cases j <;> simp only [value?, setList, Key.list.injEq, reduceCtorEq, if_false]
  split <;> rfl

theorem setValue_spec (s : Settings) (k : Key) (v : Value) :
    match s.setValue k v with
    | .ok s' => Fits k v ∧ ∀ j, s'.value? j = if j = k then some v.settled else s.value? j
    | .error r => Offends k.name v r := by
  cases k with
  | flag f =>
    cases v with
    | truth b => exact ⟨⟨b, rfl⟩, value?_setFlag s f b⟩
    | _ => exact .flag f nofun
  | text t =>
    rw [setValue, asText]
    cases htext : textOf? v with
    | none => exact .text t (textOf?_eq_none_iff.1 htext)
    | some x =>
      have hsettled := Value.settled_eq_text_iff.2 (textOf?_eq_some_iff.1 htext)
      refine ⟨⟨x, hsettled⟩, ?_⟩
      rw [hsettled]
      exact value?_setText s t x
  | list l =>
    cases v with
    | array items =>
      have hitems := mapM_asText_spec (.list l) items
      rw [setValue]
      cases hread : items.mapM (asText (.list l)) with
      | ok xs =>
        rw [hread] at hitems
        have hsettled : (Value.array items).settled = .array (xs.map .text) :=
          congrArg Value.array hitems
        refine ⟨⟨xs, hsettled⟩, ?_⟩
        rw [hsettled]
        exact value?_setList s l xs
      | error r =>
        rw [hread] at hitems
        obtain ⟨before, item, after, rfl, hbefore, hitem, rfl⟩ := hitems
        exact .item l hbefore hitem
    | _ => exact .list l nofun

/-- An entry sets the key that it names, or there is something wrong with it. -/
theorem setEntry_spec (s : Settings) (key : String) (v : Value) :
    match s.setEntry (key, v) with
    | .ok s' => ∃ k : Key, key = k.name ∧ Fits k v ∧
        ∀ j, s'.value? j = if j = k then some v.settled else s.value? j
    | .error r => Offends key v r := by
  rw [setEntry]
  cases hname : Key.ofName? key with
  | none => exact .unknown (ne_name_of_ofName? hname)
  | some k =>
    obtain rfl := name_of_ofName? hname
    have hvalue := setValue_spec s k v
    dsimp only
    cases hset : s.setValue k v with
    | ok s' =>
      rw [hset] at hvalue
      exact ⟨k, rfl, hvalue⟩
    | error r =>
      rw [hset] at hvalue
      exact hvalue

/-- Nothing is wrong with an entry that gives a key a value of its sort. -/
theorem Proper.not_offends (h : Proper key v) (r : Rejection) : ¬ Offends key v r := by
  obtain ⟨k, rfl, hfits⟩ := h
  intro hoffends
  generalize hname : k.name = name at hoffends
  cases hoffends with
  | unknown hunknown => exact hunknown k hname.symm
  | flag f hv =>
    cases name_injective hname
    obtain ⟨b, rfl⟩ := hfits
    exact hv b rfl
  | text t hv =>
    cases name_injective hname
    obtain ⟨x, hx⟩ := hfits
    exact hv x (Value.settled_eq_text_iff.1 hx)
  | list l hv =>
    cases name_injective hname
    obtain ⟨xs, hxs⟩ := hfits
    obtain ⟨items, rfl, -⟩ := Value.settled_eq_array hxs
    exact hv items rfl
  | @item l before after item hbefore hitem =>
    cases name_injective hname
    obtain ⟨xs, hxs⟩ := hfits
    have hmap : (before ++ item :: after).map Value.textual = xs.map .text := Value.array.inj hxs
    have hmem : item.textual ∈ xs.map Value.text := by
      rw [← hmap]
      exact List.mem_map_of_mem (List.mem_append_right _ List.mem_cons_self)
    obtain ⟨x, -, hx⟩ := List.mem_map.1 hmem
    exact hitem x hx.symm

theorem mapM_asText_item (k : Key) {before after : List Value} {item : Value}
    (hbefore : ∀ x ∈ before, ∃ s, x.textual = .text s) (hitem : ∀ s, item.textual ≠ .text s) :
    (before ++ item :: after).mapM (asText k) = .error (.wrongSort k item (wantedText k)) := by
  induction before with
  | nil =>
    rw [List.nil_append, List.mapM_cons, asText, textOf?_eq_none_iff.2 hitem]
    rfl
  | cons x before ih =>
    obtain ⟨⟨s, hx⟩, hbefore⟩ := List.forall_mem_cons.1 hbefore
    rw [List.cons_append, List.mapM_cons, ih hbefore, asText, textOf?_eq_some_iff.2 hx]
    rfl

/-- What is wrong with an entry is what it is refused for. -/
theorem Offends.setEntry {r : Rejection} (h : Offends key v r) (s : Settings) :
    s.setEntry (key, v) = .error r := by
  rw [Settings.setEntry]
  cases h with
  | unknown hunknown =>
    cases hname : Key.ofName? key with
    | none => rfl
    | some k => exact absurd (name_of_ofName? hname) (hunknown k)
  | flag f hv =>
    rw [ofName?_name]
    cases v with
    | truth b => exact absurd rfl (hv b)
    | _ => rfl
  | text t hv =>
    simp only [ofName?_name, setValue, asText, textOf?_eq_none_iff.2 hv]
    rfl
  | list l hv =>
    rw [ofName?_name]
    cases v with
    | array items => exact absurd rfl (hv items)
    | _ => rfl
  | item l hbefore hitem =>
    simp only [ofName?_name, setValue, mapM_asText_item (.list l) hbefore hitem]
    rfl

theorem Offends.unique {r r' : Rejection} (h : Offends key v r) (h' : Offends key v r') :
    r = r' :=
  Except.error.inj ((h.setEntry {}).symm.trans (h'.setEntry {}))

/-! ## What a table does -/

/-- Where the first entry alone names a key, it is that key that it sets. -/
theorem lookup_cons_or {es : Toml.Table} (hkey : k.name ∉ es.map Prod.fst) (v : Value) (j : Key)
    (o : Option Value) :
    ((es.lookup j.name).map Value.settled).or (if j = k then some v.settled else o) =
      ((((k.name, v) :: es).lookup j.name).map Value.settled).or o := by
  rw [List.lookup_cons]
  by_cases hj : j = k
  · have hlater : es.lookup k.name = none := by
      refine List.lookup_eq_none_iff.2 fun e he => bne_iff_ne.2 fun heq => hkey ?_
      exact List.mem_map.2 ⟨e, he, heq.symm⟩
    simp [hj, hlater]
  · have hne : (j.name == k.name) = false :=
      beq_eq_false_iff_ne.2 fun heq => hj (name_injective heq)
    simp [hj, hne]

/-- Entries are taken in up to the first one with something wrong. -/
theorem foldlM_setEntry_spec (es : Toml.Table) (s : Settings) :
    match es.foldlM setEntry s with
    | .ok s' => (∀ e ∈ es, Proper e.1 e.2) ∧ ((es.map Prod.fst).Nodup →
        ∀ k, s'.value? k = ((es.lookup k.name).map Value.settled).or (s.value? k))
    | .error r => ∃ before e after, es = before ++ e :: after ∧
        (∀ x ∈ before, Proper x.1 x.2) ∧ Offends e.1 e.2 r := by
  induction es generalizing s with
  | nil => exact ⟨nofun, fun _ _ => Option.none_or.symm⟩
  | cons e es ih =>
    obtain ⟨key, v⟩ := e
    have hentry := setEntry_spec s key v
    rw [List.foldlM_cons]
    cases hset : s.setEntry (key, v) with
    | error r =>
      rw [hset] at hentry
      exact ⟨[], (key, v), es, rfl, nofun, hentry⟩
    | ok s₁ =>
      rw [hset] at hentry
      obtain ⟨k, hk, hfits, hvalue⟩ := hentry
      have hrest := ih s₁
      show match es.foldlM setEntry s₁ with
        | .ok s' => _
        | .error r => _
      cases hrun : es.foldlM setEntry s₁ with
      | error r =>
        rw [hrun] at hrest
        obtain ⟨before, bad, after, rfl, hbefore, hbad⟩ := hrest
        exact ⟨(key, v) :: before, bad, after, rfl,
          List.forall_mem_cons.2 ⟨⟨k, hk, hfits⟩, hbefore⟩, hbad⟩
      | ok s' =>
        rw [hrun] at hrest
        obtain ⟨hproper, hvalues⟩ := hrest
        refine ⟨List.forall_mem_cons.2 ⟨⟨k, hk, hfits⟩, hproper⟩, fun hnodup j => ?_⟩
        obtain ⟨hkey, hes⟩ := List.nodup_cons.1 hnodup
        subst hk
        rw [hvalues hes j, hvalue j, lookup_cons_or hkey]

theorem pairwise_sorted (t : Toml.Table) : t.sorted.Pairwise fun a b => a.1 ≤ b.1 := by
  have hsorted : t.sorted.Pairwise fun a b => decide (a.1 ≤ b.1) = true := by
    apply List.pairwise_mergeSort
    · intro a b c hab hbc
      simp only [decide_eq_true_eq] at hab hbc ⊢
      exact String.le_trans hab hbc
    · intro a b
      simp only [Bool.or_eq_true, decide_eq_true_eq]
      exact String.le_total a.1 b.1
  exact hsorted.imp of_decide_eq_true

variable {t t' : Toml.Table}

/-- A table is a layer if each of its entries gives a key a value of its sort, and the layer is what
they give.  Else it is refused for what is wrong with the least of the other entries. -/
theorem ofTable_spec (hnodup : (t.map Prod.fst).Nodup) :
    match ofTable t with
    | .ok c => (∀ e ∈ t, Proper e.1 e.2) ∧
        ∀ k, c.value? k = (t.lookup k.name).map Value.settled
    | .error r => ∃ e ∈ t, Offends e.1 e.2 r ∧ ∀ e' ∈ t, ¬ Proper e'.1 e'.2 → e.1 ≤ e'.1 := by
  have hperm : t.sorted.Perm t := List.mergeSort_perm t _
  have hfold := foldlM_setEntry_spec t.sorted {}
  rw [ofTable]
  cases hrun : t.sorted.foldlM setEntry {} with
  | ok c =>
    rw [hrun] at hfold
    obtain ⟨hproper, hvalues⟩ := hfold
    refine ⟨fun e he => hproper e (hperm.mem_iff.2 he), fun k => ?_⟩
    have hnodup' : (t.sorted.map Prod.fst).Nodup := (hperm.map Prod.fst).nodup_iff.2 hnodup
    rw [hvalues hnodup' k, Toml.lookup_perm hnodup' hperm]
    have hunset : ({} : Settings).value? k = none := by cases k <;> rfl
    rw [hunset, Option.or_none]
  | error r =>
    rw [hrun] at hfold
    obtain ⟨before, e, after, hsplit, hbefore, hoffends⟩ := hfold
    have hsorted := pairwise_sorted t
    rw [hsplit] at hsorted
    refine ⟨e, ?_, hoffends, fun e' he' himproper => ?_⟩
    · rw [← hperm.mem_iff, hsplit]
      exact List.mem_append_right _ List.mem_cons_self
    · have hmem := hperm.mem_iff.2 he'
      rw [hsplit] at hmem
      rcases List.mem_append.1 hmem with hmem | hmem
      · exact absurd (hbefore e' hmem) himproper
      · rcases List.mem_cons.1 hmem with rfl | hmem
        · exact String.le_refl _
        · exact (List.pairwise_cons.1 (List.pairwise_append.1 hsorted).2.1).1 e' hmem

/-- The order of the entries makes no difference. -/
theorem ofTable_congr (hnodup : (t.map Prod.fst).Nodup) (h : t.Perm t') :
    ofTable t = ofTable t' := by
  have hsorted : t.sorted = t'.sorted := by
    have hperm : t.sorted.Perm t := List.mergeSort_perm t _
    have hperm' : t'.sorted.Perm t' := List.mergeSort_perm t' _
    refine List.Perm.eq_of_pairwise ?_ (pairwise_sorted t) (pairwise_sorted t')
      (hperm.trans (h.trans hperm'.symm))
    intro a b ha hb hab hba
    have hkey : a.1 = b.1 := String.le_antisymm hab hba
    have hvalue : b.2 = a.2 := by
      have hlookup := Toml.lookup_of_mem hnodup (hperm.mem_iff.1 ha)
      rw [hkey, Toml.lookup_of_mem hnodup (h.mem_iff.2 (hperm'.mem_iff.1 hb))] at hlookup
      exact Option.some.inj hlookup
    exact Prod.ext hkey hvalue.symm
  rw [ofTable, ofTable, hsorted]

end Settings

end LintHooks
