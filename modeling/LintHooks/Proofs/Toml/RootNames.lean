import LintHooks.Proofs.Toml.Distinct
set_option autoImplicit false

/-!
# TOML: which keys hold tables

What stands at a key of the root of a document is settled where the key is named first.  A header
and a dotted key name a table; so does a pair with an inline table, and the header of an item of an
array, unless the array is what the key itself holds.

The main result is `isTable_of_build?`, where `rootNames` is read off the statements without
building anything.  What a statement does to the root is `kind_add`.  For that each way to change a
table is seen from its first key: what is put there (`Entries.kind_put`, `Entries.kind_setNew`), and
that a path goes through a table at its first key and changes nothing of the root below it
(`Entries.kind_reach`, `kind_below`).  The induction on the statements is `kind_run`.
-/

namespace LintHooks.Toml

namespace Statement

/-- Whether a statement leaves the open table as it is. -/
def isPair : Statement → Bool
  | .pair _ _ => true
  | _ => false

/-- The key of the root that a statement names, with whether it names it as that of a table.  A pair
names one only while the root is the open table. -/
def rootName? (atRoot : Bool) : Statement → Option (String × Bool)
  | .header path => path.head?.map fun key => (key, true)
  | .itemHeader path => path.head?.map fun key => (key, !path.tail.isEmpty)
  | .pair path v =>
    if atRoot then path.head?.map fun key => (key, !path.tail.isEmpty || v.isTable) else none

end Statement

/-- The keys of the root that statements name, in their order; the root is the open table up to the
first header. -/
def rootNames : Bool → List Statement → List (String × Bool)
  | _, [] => []
  | atRoot, st :: sts => (st.rootName? atRoot).toList ++ rootNames (atRoot && st.isPair) sts

/-! ## What stands at a key -/

/-- Whether a table stands at a key. -/
def Node.isTable : Node → Bool
  | .leaf v => v.isTable
  | .table _ _ => true
  | .tables _ => false

theorem Node.isTable_value (n : Node) : n.value.isTable = n.isTable := by
  cases n with
  | leaf v => rfl
  | table origin sub => rfl
  | tables ts => rfl

theorem lookup_entriesValue (es : Entries) (key : String) :
    (entriesValue es).lookup key = (es.lookup key).map Node.value := by
  rw [entriesValue_eq_map]
  induction es with
  | nil => rfl
  | cons e es ih =>
    rw [List.map_cons, List.lookup_cons, List.lookup_cons]
    cases key == e.1 with
    | true => rfl
    | false => exact ih

/-- Whether a table stands at a key, if anything does. -/
def Entries.kind (es : Entries) (key : String) : Option Bool := (es.lookup key).map Node.isTable

variable {es es' : Entries} {key k : String} {path : List String} {n : Node}

theorem lookup_single {α : Type} (key : String) (a : α) (k : String) :
    [(key, a)].lookup k = if k = key then some a else none := by
  rw [List.lookup_cons]
  by_cases hk : k = key
  · simp [hk]
  · simp [hk, beq_eq_false_iff_ne.2 hk]

theorem Entries.kind_put (es : Entries) (key : String) (n : Node) (k : String) :
    Entries.kind (es.put key n) k = if k = key then some n.isTable else Entries.kind es k := by
  induction es with
  | nil =>
    rw [Entries.kind, Entries.put, lookup_single]
    by_cases hk : k = key
    · simp [hk]
    · simp [hk, Entries.kind]
  | cons e es ih =>
    obtain ⟨j, m⟩ := e
    unfold Entries.kind at ih ⊢
    rw [Entries.put]
    by_cases hj : j = key
    · subst hj
      rw [if_pos rfl, List.lookup_cons, List.lookup_cons]
      by_cases hk : k = j
      · simp [hk]
      · simp [hk, beq_eq_false_iff_ne.2 hk]
    · rw [if_neg hj, List.lookup_cons, List.lookup_cons]
      by_cases hk : k = j
      · subst hk
        simp [hj]
      · simp [beq_eq_false_iff_ne.2 hk, ih]

theorem Entries.kind_drop (hk : k ≠ key) :
    Entries.kind (es.drop key) k = Entries.kind es k := by
  unfold Entries.kind Entries.drop
  induction es with
  | nil => rfl
  | cons e es ih =>
    by_cases he : e.1 = key
    · have hke : (k == e.1) = false := beq_eq_false_iff_ne.2 (he ▸ hk)
      rw [List.filter_cons_of_neg (by simpa using he), ih, List.lookup_cons, hke]
    · rw [List.filter_cons_of_pos (by simpa using he), List.lookup_cons, List.lookup_cons]
      cases k == e.1 with
      | true => rfl
      | false => exact ih

theorem Entries.kind_setNew (h : setNew key n es = some es') (k : String) :
    Entries.kind es' k = (Entries.kind es k).or (if k = key then some n.isTable else none) := by
  rw [Toml.setNew] at h
  split at h
  · cases h
  · cases h
    unfold Entries.kind
    rw [List.lookup_append, Option.map_or, lookup_single]
    by_cases hk : k = key <;> simp [hk]

/-- A path goes through a table at its first key, which may have been there before. -/
theorem Entries.kind_reach {r : Route} {change : Origin → Entries → Option Entries}
    {origin : Origin} (h : reach r change (key :: path) origin es = some es') (k : String) :
    Entries.kind es' k = (Entries.kind es k).or (if k = key then some true else none) := by
  have hput {sub : Node} (hsub : Entries.kind es key = none ∧ sub.isTable = true ∨
      Entries.kind es key = some sub.isTable) : Entries.kind (es.put key sub) k =
        (Entries.kind es k).or (if k = key then some true else none) := by
    rw [Entries.kind_put]
    by_cases hk : k = key
    · rcases hsub with ⟨hnone, htable⟩ | hsome
      · simp [hk, hnone, htable]
      · simp [hk, hsome]
    · simp [hk]
  rw [reach] at h
  split at h
  · next hnone =>
    obtain ⟨sub, -, rfl⟩ := Option.map_eq_some_iff.1 h
    exact hput (.inl ⟨by rw [Entries.kind, hnone]; rfl, rfl⟩)
  · cases h
  · next hsome =>
    split at h
    · obtain ⟨sub, -, rfl⟩ := Option.map_eq_some_iff.1 h
      exact hput (.inr (by rw [Entries.kind, hsome]; rfl))
    · cases h
  · cases h
  · next hsome =>
    obtain ⟨sub, -, rfl⟩ := Option.map_eq_some_iff.1 h
    exact hput (.inr (by rw [Entries.kind, hsome]; rfl))

theorem Entries.kind_addPair {v : Value} (h : addPair es (path, v) = some es') (k : String) :
    Entries.kind es' k = (Entries.kind es k).or
      (((Statement.pair path v).rootName? true).toList.lookup k) := by
  cases path with
  | nil => cases h
  | cons first rest =>
    have hname : ((Statement.pair (first :: rest) v).rootName? true).toList.lookup k =
        if k = first then some (!rest.isEmpty || v.isTable) else none := lookup_single first _ k
    rw [hname]
    cases rest with
    | nil => exact Entries.kind_setNew (n := .leaf v) h k
    | cons second rest =>
      rw [addPair, List.getLast?_cons_cons] at h
      split at h
      · cases h
      · exact Entries.kind_reach h k

/-! ## What stands at a key of the root -/

namespace Builder

variable {b b' : Builder} {st : Statement}

/-- Whether a table stands at a key of the root when the open table is put where it belongs. -/
def kind (b : Builder) (k : String) : Option Bool :=
  match b.path with
  | [] => Entries.kind b.table k
  | [key] => if k = key then some (!b.isItem) else Entries.kind b.root k
  | key :: _ => (Entries.kind b.root k).or (if k = key then some true else none)

theorem kind_pushItem {t : Entries} (h : pushItem key t es = some es') (k : String) :
    Entries.kind es' k = if k = key then some false else Entries.kind es k := by
  rw [pushItem] at h
  split at h
  · cases h
    exact Entries.kind_put es key (.tables [t]) k
  · next ts _ =>
    cases h
    exact Entries.kind_put es key (.tables (t :: ts)) k
  · cases h

theorem kind_close (h : b.close = some es) (k : String) : Entries.kind es k = b.kind k := by
  rw [close] at h
  rw [kind]
  cases hpath : b.path with
  | nil =>
    rw [hpath] at h
    cases h
    rfl
  | cons key rest =>
    cases rest with
    | nil =>
      rw [hpath] at h
      dsimp only at h ⊢
      have h : (if b.isItem then pushItem key b.table b.root else
          some (b.root.put key (.table .own b.table))) = some es := h
      split at h
      · next hitem =>
        rw [kind_pushItem h k, hitem]
        rfl
      · next hitem =>
        cases h
        rw [Entries.kind_put, Bool.eq_false_iff.2 hitem]
        rfl
    | cons second rest =>
      rw [hpath, List.getLast?_cons_cons] at h
      split at h
      · next hnone => exact absurd hnone (by simp)
      · exact Entries.kind_reach h k

/-- Below its first key a path changes nothing of the root. -/
theorem kind_below {change : Origin → Entries → Option Entries} {origin : Origin}
    {first second : String} {rest : List String} {root table : Entries} (isItem : Bool)
    (h : reach .header change (first :: (second :: rest).dropLast) origin es = some root)
    (k : String) :
    kind ⟨root, first :: second :: rest, isItem, table⟩ k =
      (Entries.kind es k).or (if k = first then some true else none) := by
  have hkind : kind ⟨root, first :: second :: rest, isItem, table⟩ k =
      (Entries.kind root k).or (if k = first then some true else none) := rfl
  rw [hkind, Entries.kind_reach h k, Option.or_assoc, Option.or_self]

theorem kind_openTable (h : b.openTable path = some b') (k : String) :
    b'.kind k =
      (b.kind k).or (((Statement.header path).rootName? b.path.isEmpty).toList.lookup k) := by
  obtain ⟨es, root, key, table, hclose, hkey, hreach, hat, rfl⟩ := openTable_eq_some h
  rw [← kind_close hclose k]
  match path with
  | [] => cases hkey
  | [first] =>
    obtain rfl : first = key := Option.some.inj hkey
    cases hreach
    have hname : ((Statement.header [first]).rootName? b.path.isEmpty).toList.lookup k =
        if k = first then some true else none := lookup_single first true k
    have hkind : kind ⟨es.drop first, [first], false, table⟩ k =
        if k = first then some true else Entries.kind (es.drop first) k := rfl
    rw [hname, hkind]
    by_cases hk : k = first
    · subst hk
      have hlookup : at? es [k] = es.lookup k := rfl
      rw [hlookup] at hat
      rcases hat with ⟨hnone, -⟩ | hsome
      · simp [Entries.kind, hnone]
      · simp [Entries.kind, hsome, Node.isTable]
    · rw [if_neg hk, if_neg hk, Option.or_none, Entries.kind_drop hk]
  | first :: second :: rest =>
    have hname : ((Statement.header (first :: second :: rest)).rootName?
        b.path.isEmpty).toList.lookup k = if k = first then some true else none :=
      lookup_single first true k
    rw [hname, kind_below false hreach k]

theorem kind_openItem (h : b.openItem path = some b') (k : String) :
    b'.kind k =
      (b.kind k).or (((Statement.itemHeader path).rootName? b.path.isEmpty).toList.lookup k) := by
  obtain ⟨es, root, key, hclose, hkey, hreach, rfl⟩ := openItem_eq_some h
  rw [← kind_close hclose k]
  match path with
  | [] => cases hkey
  | [first] =>
    obtain rfl : first = key := Option.some.inj hkey
    have hroom : roomFor first es = some root := hreach
    have hname : ((Statement.itemHeader [first]).rootName? b.path.isEmpty).toList.lookup k =
        if k = first then some false else none := lookup_single first false k
    have hkind : kind ⟨root, [first], true, []⟩ k =
        if k = first then some false else Entries.kind root k := rfl
    rw [hname, hkind]
    rw [roomFor] at hroom
    split at hroom
    · next hnone =>
      cases hroom
      rw [Entries.kind_put]
      by_cases hk : k = first
      · simp [hk, Entries.kind, hnone]
      · simp [hk]
    · next hsome =>
      cases hroom
      by_cases hk : k = first
      · simp [hk, Entries.kind, hsome, Node.isTable]
      · simp [hk]
    · cases hroom
  | first :: second :: rest =>
    have hname : ((Statement.itemHeader (first :: second :: rest)).rootName?
        b.path.isEmpty).toList.lookup k = if k = first then some true else none :=
      lookup_single first true k
    rw [hname, kind_below true hreach k]

/-- A statement settles what stands at the key of the root that it names, if that has not been
settled before. -/
theorem kind_add (h : b.add st = some b') (k : String) :
    b'.kind k = (b.kind k).or ((st.rootName? b.path.isEmpty).toList.lookup k) := by
  cases st with
  | header path => exact kind_openTable h k
  | itemHeader path => exact kind_openItem h k
  | pair path v =>
    obtain ⟨table, htable, rfl⟩ := Option.map_eq_some_iff.1 h
    obtain ⟨root, open_, isItem, before⟩ := b
    cases open_ with
    | nil => exact Entries.kind_addPair htable k
    | cons first rest =>
      have hkind : kind ⟨root, first :: rest, isItem, table⟩ k =
          kind ⟨root, first :: rest, isItem, before⟩ k := by cases rest <;> rfl
      exact hkind.trans Option.or_none.symm

/-- The root is the open table until there is a header. -/
theorem isEmpty_path_add (h : b.add st = some b') :
    b'.path.isEmpty = (b.path.isEmpty && st.isPair) := by
  have hheader {path : List String} {key : String} (hkey : path.getLast? = some key) :
      path.isEmpty = (b.path.isEmpty && false) := by
    rw [Bool.and_false, List.isEmpty_eq_false_iff]
    rintro rfl
    cases hkey
  cases st with
  | header path =>
    obtain ⟨es, root, key, table, -, hkey, -, -, rfl⟩ := openTable_eq_some h
    exact hheader hkey
  | itemHeader path =>
    obtain ⟨es, root, key, -, hkey, -, rfl⟩ := openItem_eq_some h
    exact hheader hkey
  | pair path v =>
    obtain ⟨table, -, rfl⟩ := Option.map_eq_some_iff.1 h
    exact (Bool.and_true _).symm

theorem kind_run {sts : List Statement} (h : sts.foldlM Builder.add b = some b') (k : String) :
    b'.kind k = (b.kind k).or ((rootNames b.path.isEmpty sts).lookup k) := by
  induction sts generalizing b with
  | nil =>
    cases h
    exact Option.or_none.symm
  | cons st sts ih =>
    rw [List.foldlM_cons] at h
    obtain ⟨b₁, hadd, h⟩ := Option.bind_eq_some_iff.1 h
    rw [ih h, kind_add hadd k, isEmpty_path_add hadd, rootNames, List.lookup_append,
      Option.or_assoc]

end Builder

/-- The keys of a document are those that its statements name for the root, and each holds a table
just where it is first named as that of one. -/
theorem isTable_of_build? {sts : List Statement} {document : Table}
    (h : build? sts = some document) (key : String) :
    (document.lookup key).map Value.isTable = (rootNames true sts).lookup key := by
  rw [build?] at h
  obtain ⟨b, hrun, h⟩ := Option.bind_eq_some_iff.1 h
  obtain ⟨es, hclose, h⟩ := Option.bind_eq_some_iff.1 h
  cases h
  have hlookup : ((entriesValue es).lookup key).map Value.isTable = Entries.kind es key := by
    rw [lookup_entriesValue, Option.map_map, Entries.kind]
    exact congrFun (congrArg Option.map (funext Node.isTable_value)) _
  rw [hlookup, Builder.kind_close hclose key, Builder.kind_run hrun key]
  exact Option.none_or

end LintHooks.Toml
