import LintHooks.Toml.Document
import Mathlib.Data.List.Nodup
set_option autoImplicit false

/-!
# TOML: no key comes twice

Whatever way a table of a document grows, by a pair, a header or one more item of an array, no key
of it is ever set twice.  So a document is a table in which every key has one value, and so are the
tables inside it.

The main result is `distinct_of_parse?`.  It has two parts, the values that are read and what the
statements make of them.  For the values it is an induction on how deep they are nested
(`givesDistinct_readValue?`).  For the statements it is `Distinct.run`, with `Distinct.add` for a
single one, and what carries it is that all tables under construction stay distinct under every
elementary change: a key that is put or set (`Entries.Distinct.put`, `Entries.Distinct.setNew`), and
a change at the end of a path (`Entries.Distinct.reach`).
-/

namespace LintHooks.Toml

/-! ## Tables -/

/-- No key comes twice in a table, nor in a table inside it to which keys lead. -/
inductive Table.Distinct : Table → Prop where
  | mk {t : Table} : (t.map Prod.fst).Nodup →
    (∀ key inner, (key, Value.table inner) ∈ t → Table.Distinct inner) → Table.Distinct t

/-- If a value is a table, no key comes twice in it. -/
def Value.Distinct (v : Value) : Prop := ∀ t, v = .table t → Table.Distinct t

/-- No key comes twice in a table under construction, nor in any table inside it. -/
inductive Entries.Distinct : Entries → Prop where
  | mk {es : Entries} : (es.map Prod.fst).Nodup →
    (∀ key v, (key, Node.leaf v) ∈ es → v.Distinct) →
    (∀ key origin sub, (key, Node.table origin sub) ∈ es → Entries.Distinct sub) →
    (∀ key ts sub, (key, Node.tables ts) ∈ es → sub ∈ ts → Entries.Distinct sub) →
    Entries.Distinct es

/-- No key comes twice in what stands at a key. -/
def Node.Distinct : Node → Prop
  | .leaf v => v.Distinct
  | .table _ sub => Entries.Distinct sub
  | .tables ts => ∀ sub ∈ ts, Entries.Distinct sub

theorem mem_of_lookup {α : Type} {es : List (String × α)} {key : String} {a : α}
    (h : es.lookup key = some a) : (key, a) ∈ es := by
  obtain ⟨before, after, rfl, -⟩ := List.lookup_eq_some_iff.1 h
  exact List.mem_append_right before List.mem_cons_self

/-- Where no key comes twice, an entry is what its key leads to. -/
theorem lookup_of_mem {α : Type} {es : List (String × α)} {key : String} {a : α}
    (hnodup : (es.map Prod.fst).Nodup) (h : (key, a) ∈ es) : es.lookup key = some a := by
  obtain ⟨before, after, rfl⟩ := List.append_of_mem h
  refine List.lookup_eq_some_iff.2 ⟨before, after, rfl, fun e he => bne_iff_ne.2 ?_⟩
  rintro rfl
  rw [List.map_append] at hnodup
  exact (List.nodup_append.1 hnodup).2.2 e.1 (List.mem_map_of_mem he) e.1 List.mem_cons_self rfl

theorem not_mem_of_lookup {α : Type} {es : List (String × α)} {key : String}
    (h : es.lookup key = none) : key ∉ es.map Prod.fst := by
  intro hmem
  obtain ⟨e, he, rfl⟩ := List.mem_map.1 hmem
  exact bne_iff_ne.1 (List.lookup_eq_none_iff.1 h e he) rfl

/-- Where no key comes twice, the order of the entries makes no difference to what keys lead to. -/
theorem lookup_perm {α : Type} {es es' : List (String × α)} (hnodup : (es.map Prod.fst).Nodup)
    (h : es.Perm es') (key : String) : es.lookup key = es'.lookup key := by
  have hnodup' : (es'.map Prod.fst).Nodup := (h.map Prod.fst).nodup_iff.1 hnodup
  apply Option.ext
  intro a
  constructor
  · intro ha
    exact lookup_of_mem hnodup' (h.mem_iff.1 (mem_of_lookup ha))
  · intro ha
    exact lookup_of_mem hnodup (h.mem_iff.2 (mem_of_lookup ha))

theorem Table.Distinct.nodup {t : Table} (h : Table.Distinct t) : (t.map Prod.fst).Nodup := by
  cases h with
  | mk hnodup _ => exact hnodup

/-- The tables that a path of keys leads to are as the one that it starts from. -/
theorem Table.Distinct.descend? {t inner : Table} (h : Table.Distinct t) {path : List String}
    (hpath : t.descend? path = some inner) : Table.Distinct inner := by
  induction path generalizing t with
  | nil =>
    cases hpath
    exact h
  | cons key path ih =>
    rw [Table.descend?] at hpath
    split at hpath
    · next sub hsub =>
      cases h with
      | mk _ hinner => exact ih (hinner key sub (mem_of_lookup hsub)) hpath
    · cases hpath

/-! ## Tables under construction -/

variable {es es' sub : Entries} {key : String} {n : Node} {v : Value}

theorem Entries.distinct_iff :
    Entries.Distinct es ↔ (es.map Prod.fst).Nodup ∧ ∀ key n, (key, n) ∈ es → n.Distinct := by
  constructor
  · rintro ⟨hnodup, hleaf, htable, htables⟩
    refine ⟨hnodup, fun key n hn => ?_⟩
    cases n with
    | leaf v => exact hleaf key v hn
    | table origin sub => exact htable key origin sub hn
    | tables ts => exact fun sub hsub => htables key ts sub hn hsub
  · rintro ⟨hnodup, hnodes⟩
    exact ⟨hnodup, fun key v hn => hnodes key _ hn, fun key origin sub hn => hnodes key _ hn,
      fun key ts sub hn => hnodes key _ hn sub⟩

theorem Entries.distinct_nil : Entries.Distinct [] :=
  Entries.distinct_iff.2 ⟨List.nodup_nil, nofun⟩

theorem Entries.Distinct.node (h : Entries.Distinct es) (hn : es.lookup key = some n) :
    n.Distinct :=
  (Entries.distinct_iff.1 h).2 key n (mem_of_lookup hn)

/-- Fewer entries are no less distinct. -/
theorem Entries.Distinct.sublist (h : Entries.Distinct es) (hs : es'.Sublist es) :
    Entries.Distinct es' := by
  obtain ⟨hnodup, hnodes⟩ := Entries.distinct_iff.1 h
  exact Entries.distinct_iff.2
    ⟨(hs.map Prod.fst).nodup hnodup, fun key n hn => hnodes key n (hs.subset hn)⟩

theorem Entries.mem_put {e : String × Node} (he : e ∈ es.put key n) : e = (key, n) ∨ e ∈ es := by
  induction es with
  | nil => exact .inl (List.mem_singleton.1 he)
  | cons first es ih =>
    obtain ⟨k, m⟩ := first
    rw [Entries.put] at he
    split at he
    · rcases List.mem_cons.1 he with rfl | he
      · exact .inl rfl
      · exact .inr (List.mem_cons_of_mem _ he)
    · rcases List.mem_cons.1 he with rfl | he
      · exact .inr List.mem_cons_self
      · exact (ih he).imp_right (List.mem_cons_of_mem _)

theorem Entries.nodup_put (h : (es.map Prod.fst).Nodup) (key : String) (n : Node) :
    ((es.put key n).map Prod.fst).Nodup := by
  induction es with
  | nil => exact List.nodup_singleton key
  | cons first es ih =>
    obtain ⟨k, m⟩ := first
    obtain ⟨hk, hes⟩ := List.nodup_cons.1 h
    rw [Entries.put]
    split
    · next heq =>
      subst heq
      exact List.nodup_cons.2 ⟨hk, hes⟩
    · next hne =>
      refine List.nodup_cons.2 ⟨fun hmem => ?_, ih hes⟩
      obtain ⟨e, he, hfst⟩ := List.mem_map.1 hmem
      rcases Entries.mem_put he with rfl | he
      · exact hne hfst.symm
      · exact hk (List.mem_map.2 ⟨e, he, hfst⟩)

theorem Entries.Distinct.put (h : Entries.Distinct es) (key : String) (hn : n.Distinct) :
    Entries.Distinct (es.put key n) := by
  obtain ⟨hnodup, hnodes⟩ := Entries.distinct_iff.1 h
  refine Entries.distinct_iff.2 ⟨Entries.nodup_put hnodup key n, fun k m hm => ?_⟩
  rcases Entries.mem_put hm with heq | hm
  · cases heq
    exact hn
  · exact hnodes k m hm

theorem Entries.Distinct.setNew (h : Entries.Distinct es) (hn : n.Distinct)
    (hset : setNew key n es = some es') : Entries.Distinct es' := by
  rw [Toml.setNew] at hset
  split at hset
  · cases hset
  · next hfree =>
    cases hset
    obtain ⟨hnodup, hnodes⟩ := Entries.distinct_iff.1 h
    have hkey : key ∉ es.map Prod.fst :=
      not_mem_of_lookup (Option.not_isSome_iff_eq_none.1 hfree)
    refine Entries.distinct_iff.2 ⟨?_, fun k m hm => ?_⟩
    · rw [List.map_append]
      exact List.nodup_append'.2 ⟨hnodup, List.nodup_singleton key, by simpa using hkey⟩
    · rcases List.mem_append.1 hm with hm | hm
      · exact hnodes k m hm
      · cases List.mem_singleton.1 hm
        exact hn

/-- A change at the end of a path leaves all tables distinct if it does so with the table it is
made to. -/
theorem Entries.Distinct.reach {r : Route} {change : Origin → Entries → Option Entries}
    (hchange : ∀ origin es es', Entries.Distinct es → change origin es = some es' →
      Entries.Distinct es') {path : List String} {origin : Origin} (h : Entries.Distinct es)
    (hreach : reach r change path origin es = some es') : Entries.Distinct es' := by
  induction path generalizing origin es es' with
  | nil => exact hchange origin es es' h hreach
  | cons key path ih =>
    rw [Toml.reach] at hreach
    split at hreach
    · obtain ⟨sub, hsub, rfl⟩ := Option.map_eq_some_iff.1 hreach
      exact h.put key (n := .table r.makes sub) (ih Entries.distinct_nil hsub)
    · cases hreach
    · next inside es₁ hnode =>
      split at hreach
      · obtain ⟨sub, hsub, rfl⟩ := Option.map_eq_some_iff.1 hreach
        exact h.put key (n := .table inside sub) (ih (h.node hnode) hsub)
      · cases hreach
    · cases hreach
    · next last closed hnode =>
      obtain ⟨sub, hsub, rfl⟩ := Option.map_eq_some_iff.1 hreach
      have hnode : ∀ sub ∈ last :: closed, Entries.Distinct sub := h.node hnode
      refine h.put key (n := .tables (sub :: closed)) ?_
      exact List.forall_mem_cons.2
        ⟨ih (hnode last List.mem_cons_self) hsub, fun t ht => hnode t (List.mem_cons_of_mem _ ht)⟩

theorem Entries.Distinct.addPair {p : List String × Value} (h : Entries.Distinct es)
    (hv : p.2.Distinct) (hadd : addPair es p = some es') : Entries.Distinct es' := by
  rw [Toml.addPair] at hadd
  split at hadd
  · cases hadd
  · refine Entries.Distinct.reach (fun origin es es' hes hset => ?_) h hadd
    split at hset
    · cases hset
    · exact hes.setNew (n := .leaf p.2) hv hset

/-! ## Finished tables -/

theorem entriesValue_eq_map (es : Entries) :
    entriesValue es = es.map fun e => (e.1, e.2.value) := by
  induction es with
  | nil => rfl
  | cons e es ih =>
    obtain ⟨key, n⟩ := e
    rw [entriesValue, ih]
    rfl

theorem Entries.Distinct.value (h : Entries.Distinct es) : Table.Distinct (entriesValue es) := by
  induction h with
  | @mk es hnodup hleaf _ _ htable _ =>
    rw [entriesValue_eq_map]
    refine .mk ?_ fun key inner hmem => ?_
    · rwa [List.map_map]
    · obtain ⟨⟨k, n⟩, hn, heq⟩ := List.mem_map.1 hmem
      obtain ⟨rfl, hvalue⟩ := Prod.mk.inj heq
      cases n with
      | leaf v => exact hleaf k v hn inner hvalue
      | table origin sub =>
        cases hvalue
        exact htable k origin sub hn
      | tables ts => cases hvalue

/-! ## Values as they are read -/

/-- A value that is no table has no keys. -/
theorem Value.distinct_of_isTable (h : v.isTable = false) : v.Distinct := by
  rintro t rfl
  cases h

theorem isTable_of_integer? {i : Int} (h : integer? i = some v) : v.isTable = false := by
  rw [integer?] at h
  split at h
  · cases h
    rfl
  · cases h

theorem isTable_of_readRadix? {base : Nat} {s rest : List Char}
    (h : readRadix? base s = some (v, rest)) : v.isTable = false := by
  rw [readRadix?] at h
  obtain ⟨⟨ds, s'⟩, -, h⟩ := Option.bind_eq_some_iff.1 h
  obtain ⟨v', hv, heq⟩ := Option.map_eq_some_iff.1 h
  cases heq
  exact isTable_of_integer? hv

theorem isTable_of_readFloat? {negative : Bool} {whole s rest : List Char}
    (h : readFloat? negative whole s = some (v, rest)) : v.isTable = false := by
  unfold readFloat? at h
  -- with a fraction or none, and with an exponent or none
  dsimp only at h
  split at h <;> obtain ⟨⟨fraction, s₁⟩, -, h⟩ := Option.bind_eq_some_iff.1 h <;>
    dsimp only at h <;> split at h <;>
    obtain ⟨⟨exponent, s₂⟩, -, h⟩ := Option.bind_eq_some_iff.1 h <;> dsimp only at h
  all_goals
    split at h
    · cases h
    · cases h
      rfl

theorem isTable_of_readSigned? {s rest : List Char} (h : readSigned? s = some (v, rest)) :
    v.isTable = false := by
  rw [readSigned?] at h
  dsimp only at h
  split at h
  · cases h
    rfl
  · cases h
    rfl
  · obtain ⟨⟨whole, s₁⟩, -, h⟩ := Option.bind_eq_some_iff.1 h
    dsimp only at h
    split at h
    · exact isTable_of_readFloat? h
    · obtain ⟨v', hv, heq⟩ := Option.map_eq_some_iff.1 h
      cases heq
      exact isTable_of_integer? hv

theorem isTable_of_readNumber? {s rest : List Char} (h : readNumber? s = some (v, rest)) :
    v.isTable = false := by
  unfold readNumber? at h
  split at h
  · cases h
    rfl
  · split at h
    · exact isTable_of_readRadix? h
    · exact isTable_of_readRadix? h
    · exact isTable_of_readRadix? h
    · exact isTable_of_readSigned? h

theorem isTable_of_readScalar? {s rest : List Char} (h : readScalar? s = some (v, rest)) :
    v.isTable = false := by
  unfold readScalar? at h
  split at h
  · obtain ⟨⟨t, s'⟩, -, heq⟩ := Option.map_eq_some_iff.1 h
    cases heq
    rfl
  · obtain ⟨⟨t, s'⟩, -, heq⟩ := Option.map_eq_some_iff.1 h
    cases heq
    rfl
  · cases h
    rfl
  · cases h
    rfl
  · exact isTable_of_readNumber? h

/-- All values that a reader gives have distinct keys. -/
def GivesDistinct (item : Reader Value) : Prop :=
  ∀ s v rest, item s = some (v, rest) → v.Distinct

variable {item : Reader Value}

theorem GivesDistinct.readPair? (hitem : GivesDistinct item) {s rest : List Char}
    {p : List String × Value} (h : readPair? item s = some (p, rest)) : p.2.Distinct := by
  rw [Toml.readPair?] at h
  obtain ⟨⟨key, s₁⟩, -, h⟩ := Option.bind_eq_some_iff.1 h
  dsimp only at h
  split at h
  · obtain ⟨⟨v, s₂⟩, hv, h⟩ := Option.bind_eq_some_iff.1 h
    cases h
    exact hitem _ v _ hv
  · cases h

theorem GivesDistinct.readPairs? (hitem : GivesDistinct item) {bound : Nat} {s rest : List Char}
    {ps : List (List String × Value)} (h : readPairs? item bound s = some (ps, rest)) :
    ∀ p ∈ ps, p.2.Distinct := by
  induction bound generalizing s ps with
  | zero => cases h
  | succ bound ih =>
    rw [Toml.readPairs?] at h
    obtain ⟨⟨p, s₁⟩, hp, h⟩ := Option.bind_eq_some_iff.1 h
    have hfirst : p.2.Distinct := hitem.readPair? hp
    dsimp only at h
    split at h
    · cases h
      exact List.forall_mem_singleton.2 hfirst
    · obtain ⟨⟨ps', s₂⟩, hps, heq⟩ := Option.map_eq_some_iff.1 h
      cases heq
      exact List.forall_mem_cons.2 ⟨hfirst, ih hps⟩
    · cases h

theorem distinct_foldlM_addPair {ps : List (List String × Value)} (hps : ∀ p ∈ ps, p.2.Distinct)
    (h : Entries.Distinct es) (hfold : ps.foldlM addPair es = some es') :
    Entries.Distinct es' := by
  induction ps generalizing es with
  | nil =>
    cases hfold
    exact h
  | cons p ps ih =>
    obtain ⟨hp, hps⟩ := List.forall_mem_cons.1 hps
    rw [List.foldlM_cons] at hfold
    obtain ⟨es₁, hadd, hfold⟩ := Option.bind_eq_some_iff.1 hfold
    exact ih hps (h.addPair hp hadd) hfold

theorem GivesDistinct.readInlineTable? (hitem : GivesDistinct item) {s rest : List Char}
    (h : readInlineTable? item s = some (v, rest)) : v.Distinct := by
  rw [Toml.readInlineTable?] at h
  split at h
  · cases h
    rintro t ⟨⟩
    exact .mk List.nodup_nil nofun
  · obtain ⟨⟨ps, s₁⟩, hps, h⟩ := Option.bind_eq_some_iff.1 h
    obtain ⟨es, hfold, h⟩ := Option.bind_eq_some_iff.1 h
    cases h
    rintro t ⟨⟩
    exact (distinct_foldlM_addPair (hitem.readPairs? hps) Entries.distinct_nil hfold).value

/-- Each level of nesting reads its tables with the reader of the level below. -/
theorem givesDistinct_readValue? (depth : Nat) : GivesDistinct (readValue? depth) := by
  induction depth with
  | zero =>
    intro s v rest h
    exact Value.distinct_of_isTable (isTable_of_readScalar? h)
  | succ depth ih =>
    intro s v rest h
    unfold readValue? at h
    split at h
    · obtain ⟨⟨vs, s'⟩, -, heq⟩ := Option.map_eq_some_iff.1 h
      cases heq
      exact Value.distinct_of_isTable rfl
    · exact ih.readInlineTable? h
    · exact Value.distinct_of_isTable (isTable_of_readScalar? h)

/-! ## Documents -/

/-- The value of a statement that gives one has distinct keys. -/
def Statement.Distinct : Statement → Prop
  | .header _ => True
  | .itemHeader _ => True
  | .pair _ v => v.Distinct

theorem distinct_of_readStatement? {s rest : List Char} {st : Statement}
    (h : readStatement? s = some (st, rest)) : st.Distinct := by
  unfold readStatement? at h
  split at h
  · obtain ⟨⟨path, s₁⟩, -, h⟩ := Option.bind_eq_some_iff.1 h
    dsimp only at h
    split at h
    · cases h
      trivial
    · cases h
  · obtain ⟨⟨path, s₁⟩, -, h⟩ := Option.bind_eq_some_iff.1 h
    dsimp only at h
    split at h
    · cases h
      trivial
    · cases h
  · obtain ⟨⟨⟨path, v⟩, s₁⟩, hp, heq⟩ := Option.map_eq_some_iff.1 h
    cases heq
    exact (givesDistinct_readValue? nestingLimit).readPair? hp

theorem distinct_of_readStatements? {bound : Nat} {s : List Char} {sts : List Statement}
    (h : readStatements? bound s = some sts) : ∀ st ∈ sts, st.Distinct := by
  induction bound generalizing s sts with
  | zero => cases h
  | succ bound ih =>
    rw [readStatements?] at h
    split at h
    · cases h
      exact nofun
    · split at h
      · obtain ⟨s₁, -, h⟩ := Option.bind_eq_some_iff.1 h
        exact ih h
      · obtain ⟨⟨st, s₁⟩, hst, h⟩ := Option.bind_eq_some_iff.1 h
        obtain ⟨s₂, -, h⟩ := Option.bind_eq_some_iff.1 h
        obtain ⟨more, hmore, h⟩ := Option.bind_eq_some_iff.1 h
        cases h
        exact List.forall_mem_cons.2 ⟨distinct_of_readStatement? hst, ih hmore⟩

namespace Builder

/-- No key comes twice in a document under construction. -/
structure Distinct (b : Builder) : Prop where
  root : Entries.Distinct b.root
  table : Entries.Distinct b.table

variable {b b' : Builder} {path : List String}

theorem distinct_pushItem {t : Entries} (ht : Entries.Distinct t) (h : Entries.Distinct es)
    (hpush : pushItem key t es = some es') : Entries.Distinct es' := by
  rw [pushItem] at hpush
  split at hpush
  · cases hpush
    exact h.put key (n := .tables [t]) (List.forall_mem_singleton.2 ht)
  · next ts hts =>
    cases hpush
    exact h.put key (n := .tables (t :: ts)) (List.forall_mem_cons.2 ⟨ht, h.node hts⟩)
  · cases hpush

theorem Distinct.close (h : b.Distinct) (hclose : b.close = some es) : Entries.Distinct es := by
  rw [Builder.close] at hclose
  split at hclose
  · cases hclose
    exact h.table
  · refine Entries.Distinct.reach (fun origin es es' hes hput => ?_) h.root hclose
    split at hput
    · exact distinct_pushItem h.table hes hput
    · cases hput
      exact hes.put _ (n := .table .own b.table) h.table

theorem distinct_at? (h : Entries.Distinct es) (hat : at? es path = some n) : n.Distinct := by
  fun_induction at? es path with
  | case1 => cases hat
  | case2 es key => exact h.node hat
  | case3 es key path _ origin sub hsub ih => exact ih (h.node hsub) hat
  | case4 es key path _ sub closed hsub ih => exact ih (h.node hsub sub List.mem_cons_self) hat
  | case5 => cases hat

/-- The header of a table puts the open table where it belongs and takes what stands at the path out
of the closed ones: nothing, or a table that has only been implied until then. -/
theorem openTable_eq_some (h : b.openTable path = some b') :
    ∃ es root key table, b.close = some es ∧ path.getLast? = some key ∧
      reach .header (fun _ es => some (es.drop key)) path.dropLast .own es = some root ∧
      (at? es path = none ∧ table = [] ∨ at? es path = some (.table .implied table)) ∧
      b' = ⟨root, path, false, table⟩ := by
  rw [openTable] at h
  obtain ⟨es, hclose, h⟩ := Option.bind_eq_some_iff.1 h
  split at h
  · cases h
  next key hkey =>
  obtain ⟨root, hreach, h⟩ := Option.bind_eq_some_iff.1 h
  split at h
  · next hat =>
    cases h
    exact ⟨es, root, key, [], hclose, hkey, hreach, .inl ⟨hat, rfl⟩, rfl⟩
  · next table hat =>
    cases h
    exact ⟨es, root, key, table, hclose, hkey, hreach, .inr hat, rfl⟩
  · cases h

/-- What the header of an item makes of the table that is to hold the array. -/
def roomFor (key : String) (es : Entries) : Option Entries :=
  match es.lookup key with
  | none => some (es.put key (.tables []))
  | some (.tables _) => some es
  | some _ => none

/-- The header of an item puts the open table where it belongs and opens an empty one. -/
theorem openItem_eq_some (h : b.openItem path = some b') :
    ∃ es root key, b.close = some es ∧ path.getLast? = some key ∧
      reach .header (fun _ es => roomFor key es) path.dropLast .own es = some root ∧
      b' = ⟨root, path, true, []⟩ := by
  rw [openItem] at h
  obtain ⟨es, hclose, h⟩ := Option.bind_eq_some_iff.1 h
  split at h
  · cases h
  next key hkey =>
  obtain ⟨root, hreach, h⟩ := Option.bind_eq_some_iff.1 h
  cases h
  exact ⟨es, root, key, hclose, hkey, hreach, rfl⟩

theorem Distinct.openTable (h : b.Distinct) (hopen : b.openTable path = some b') :
    b'.Distinct := by
  obtain ⟨es, root, key, table, hclose, -, hreach, hat, rfl⟩ := openTable_eq_some hopen
  have hes : Entries.Distinct es := h.close hclose
  refine ⟨Entries.Distinct.reach (fun origin es es' hes hdrop => ?_) hes hreach, ?_⟩
  · cases hdrop
    exact hes.sublist List.filter_sublist
  · rcases hat with ⟨-, rfl⟩ | hat
    · exact Entries.distinct_nil
    · exact distinct_at? hes hat

theorem Distinct.openItem (h : b.Distinct) (hopen : b.openItem path = some b') :
    b'.Distinct := by
  obtain ⟨es, root, key, hclose, -, hreach, rfl⟩ := openItem_eq_some hopen
  refine ⟨Entries.Distinct.reach (fun origin es es' hes hput => ?_) (h.close hclose) hreach,
    Entries.distinct_nil⟩
  rw [roomFor] at hput
  split at hput
  · cases hput
    exact hes.put key (n := .tables []) nofun
  · cases hput
    exact hes
  · cases hput

/-- A statement sets no key twice. -/
theorem Distinct.add {st : Statement} (h : b.Distinct) (hst : st.Distinct)
    (hadd : b.add st = some b') : b'.Distinct := by
  cases st with
  | header path => exact h.openTable hadd
  | itemHeader path => exact h.openItem hadd
  | pair path v =>
    obtain ⟨table, htable, rfl⟩ := Option.map_eq_some_iff.1 hadd
    exact ⟨h.root, h.table.addPair (p := (path, v)) hst htable⟩

theorem Distinct.run {sts : List Statement} (h : b.Distinct) (hsts : ∀ st ∈ sts, st.Distinct)
    (hrun : sts.foldlM Builder.add b = some b') : b'.Distinct := by
  induction sts generalizing b with
  | nil =>
    cases hrun
    exact h
  | cons st sts ih =>
    obtain ⟨hst, hsts⟩ := List.forall_mem_cons.1 hsts
    rw [List.foldlM_cons] at hrun
    obtain ⟨b₁, hadd, hrun⟩ := Option.bind_eq_some_iff.1 hrun
    exact ih (h.add hst hadd) hsts hrun

end Builder

/-- No key of a document comes twice, at any depth. -/
theorem distinct_of_parse? {s : List Char} {document : Table} (h : parse? s = some document) :
    Table.Distinct document := by
  rw [parse?] at h
  obtain ⟨sts, hsts, h⟩ := Option.bind_eq_some_iff.1 h
  rw [build?] at h
  obtain ⟨b, hrun, h⟩ := Option.bind_eq_some_iff.1 h
  obtain ⟨root, hclose, h⟩ := Option.bind_eq_some_iff.1 h
  cases h
  have hstart : Builder.Distinct {} := ⟨Entries.distinct_nil, Entries.distinct_nil⟩
  exact ((hstart.run (distinct_of_readStatements? hsts) hrun).close hclose).value

end LintHooks.Toml
