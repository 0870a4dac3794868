import LintHooks.Json.Record
import LintHooks.Proofs.Json.Reading
set_option autoImplicit false

/-!
# JSON: reading records

A record is determined by the values of its fields.  So the objects that stand for it can be said
without regard to an order: no field is given twice, every required one is given, what is given is
what the record has, and the rest is as in the blank record.  The fields of an object are read one
by one, and what has been read so far is carried through the induction.

The main result is `Shape.reads`: a shape that is `Lawful` reads what it `Means`, be it written as
an object or as a list.  `Describes` says what an object stands for without an order, `Continues`
what reading it in order makes of the fields.  That these are the same (`continues_iff`) is by
induction, with the fields that have been read before as the part that grows (`DescribesFrom.tail`,
`DescribesFrom.cons`).  The reader itself is followed by `readFields_iff` and `readFields_sound` for
objects, and by `readPlaces_iff` and `readPlaces_sound` for lists.  For a shape whose fields hold
one part of a record each, it is enough to look at one field at a time (`Lawful.of_holds`).
-/

namespace LintHooks.Json

variable {ρ : Type}

namespace Shape

/-- `r'` is `r` with another value under a key; `value r key` is the value of a field of `r`. -/
structure Sets (shape : Shape ρ) (value : ρ → String → Value) (key : String) (v : Value)
    (r r' : ρ) : Prop where
  own : value r' key = v
  others : ∀ f ∈ shape.fields, f.key ≠ key → value r' f.key = value r f.key

/-- The values of its fields make up a record, and reading a field sets its value. -/
structure Lawful (shape : Shape ρ) (value : ρ → String → Value) : Prop where
  reads : ∀ f ∈ shape.fields, ∀ r, Reads (f.read r) fun v r' => shape.Sets value f.key v r r'
  ext : ∀ r r', (∀ f ∈ shape.fields, value r f.key = value r' f.key) → r = r'
  settable : ∀ f ∈ shape.fields, ∀ r r', ∃ r₁, shape.Sets value f.key (value r' f.key) r r₁

/-- The fields of an object stand for a record.  Fields that the record does not have do not
matter. -/
structure Describes (shape : Shape ρ) (value : ρ → String → Value)
    (fs : List (Option String × Value)) (r : ρ) : Prop where
  keys : ∀ x ∈ fs, x.1 ≠ none
  once : ∀ f ∈ shape.fields, (fs.map Prod.fst).count (some f.key) ≤ 1
  required : ∀ f ∈ shape.fields, f.required = true → some f.key ∈ fs.map Prod.fst
  given : ∀ f ∈ shape.fields, ∀ v, (some f.key, v) ∈ fs → value r f.key = v
  omitted : ∀ f ∈ shape.fields, some f.key ∉ fs.map Prod.fst →
    value r f.key = value shape.blank f.key

/-- The items of a list stand for a record: they are its fields in their order, of which the last
ones may be left out if they are not required. -/
def Places (shape : Shape ρ) (value : ρ → String → Value) :
    List (Field ρ) → List Value → ρ → ρ → Prop
  | [], [], r₀, r => r = r₀
  | [], _ :: _, _, _ => False
  | f :: fs, [], r₀, r => (∀ g ∈ f :: fs, g.required = false) ∧ r = r₀
  | f :: fs, v :: vs, r₀, r => ∃ r₁, shape.Sets value f.key v r₀ r₁ ∧ shape.Places value fs vs r₁ r

/-- What a value says of a record. -/
def Means (shape : Shape ρ) (value : ρ → String → Value) : Value → ρ → Prop
  | .object fs, r => shape.Describes value fs r
  | .list vs, r => shape.Places value shape.fields vs shape.blank r
  | _, _ => False

/-! ## The fields of an object one by one -/

/-- What the fields of an object make of a record of which some fields have been read. -/
def Continues (shape : Shape ρ) (value : ρ → String → Value) :
    List String → ρ → List (Option String × Value) → ρ → Prop
  | seen, r₀, [], r => shape.missing? seen = none ∧ r = r₀
  | _, _, (none, _) :: _, _ => False
  | seen, r₀, (some key, v) :: fs, r =>
    match shape.field? key with
    | none => shape.Continues value seen r₀ fs r
    | some _ => key ∉ seen ∧
      ∃ r₁, shape.Sets value key v r₀ r₁ ∧ shape.Continues value (key :: seen) r₁ fs r

/-- The fields of an object stand for a record of which the fields under `seen` are as in `r₀`. -/
structure DescribesFrom (shape : Shape ρ) (value : ρ → String → Value) (seen : List String) (r₀ : ρ)
    (fs : List (Option String × Value)) (r : ρ) : Prop where
  keys : ∀ x ∈ fs, x.1 ≠ none
  once : ∀ f ∈ shape.fields, (fs.map Prod.fst).count (some f.key) ≤ if f.key ∈ seen then 0 else 1
  required : ∀ f ∈ shape.fields, f.required = true → some f.key ∈ fs.map Prod.fst ∨ f.key ∈ seen
  given : ∀ f ∈ shape.fields, ∀ v, (some f.key, v) ∈ fs → value r f.key = v
  omitted : ∀ f ∈ shape.fields, some f.key ∉ fs.map Prod.fst → value r f.key = value r₀ f.key

variable {shape : Shape ρ} {value : ρ → String → Value} {seen : List String} {r₀ r : ρ}
  {fs : List (Option String × Value)} {key : String} {v : Value}

theorem field?_eq_none_iff : shape.field? key = none ↔ ∀ f ∈ shape.fields, f.key ≠ key := by
  simp [field?]

theorem mem_of_field? {f : Field ρ} (h : shape.field? key = some f) :
    f ∈ shape.fields ∧ f.key = key :=
  ⟨List.mem_of_find?_eq_some h, by simpa using List.find?_some h⟩

theorem missing?_eq_none_iff :
    shape.missing? seen = none ↔ ∀ f ∈ shape.fields, f.required = true → f.key ∈ seen := by
  simp [missing?]

theorem describesFrom_nil (hl : shape.Lawful value) :
    shape.DescribesFrom value seen r₀ [] r ↔ shape.missing? seen = none ∧ r = r₀ := by
  rw [missing?_eq_none_iff]
  constructor
  · intro h
    refine ⟨fun f hf hreq => (h.required f hf hreq).resolve_left (by simp), ?_⟩
    exact hl.ext r r₀ fun f hf => h.omitted f hf (by simp)
  · rintro ⟨hmissing, rfl⟩
    exact ⟨by simp, by simp, fun f hf hreq => .inr (hmissing f hf hreq), by simp, by simp⟩

theorem describesFrom_unknown (hkey : ∀ f ∈ shape.fields, f.key ≠ key) :
    shape.DescribesFrom value seen r₀ ((some key, v) :: fs) r ↔
      shape.DescribesFrom value seen r₀ fs r := by
  have hne : ∀ f ∈ shape.fields, some f.key ≠ some key :=
    fun f hf h => hkey f hf (Option.some.inj h)
  constructor
  · intro h
    refine ⟨fun x hx => h.keys x (List.mem_cons_of_mem _ hx), fun f hf => ?_, fun f hf hreq => ?_,
      fun f hf w hw => h.given f hf w (List.mem_cons_of_mem _ hw), fun f hf hmem => ?_⟩
    · have := h.once f hf
      rwa [List.map_cons, List.count_cons_of_ne (hne f hf).symm] at this
    · exact (h.required f hf hreq).imp_left fun hmem =>
        (List.mem_cons.1 hmem).resolve_left (hne f hf)
    · exact h.omitted f hf fun hmem' => hmem ((List.mem_cons.1 hmem').resolve_left (hne f hf))
  · intro h
    refine ⟨?_, fun f hf => ?_, fun f hf hreq => ?_, fun f hf w hw => ?_, fun f hf hmem => ?_⟩
    · rintro x (_ | ⟨_, hx⟩)
      · exact Option.some_ne_none key
      · exact h.keys x hx
    · rw [List.map_cons, List.count_cons_of_ne (hne f hf).symm]
      exact h.once f hf
    · exact (h.required f hf hreq).imp_left (List.mem_cons_of_mem _)
    · exact h.given f hf w ((List.mem_cons.1 hw).resolve_left
        fun heq => hne f hf (Prod.mk.inj heq).1)
    · exact h.omitted f hf fun hmem' => hmem (List.mem_cons_of_mem _ hmem')

theorem count_self : (((some key, v) :: fs).map Prod.fst).count (some key) =
    (fs.map Prod.fst).count (some key) + 1 :=
  List.count_cons_self

theorem count_other {f : Field ρ} (hne : f.key ≠ key) :
    (((some key, v) :: fs).map Prod.fst).count (some f.key) =
      (fs.map Prod.fst).count (some f.key) :=
  List.count_cons_of_ne fun h => hne (Option.some.inj h).symm

theorem DescribesFrom.not_mem_seen {f : Field ρ} (hf : f ∈ shape.fields)
    (h : shape.DescribesFrom value seen r₀ ((some f.key, v) :: fs) r) : f.key ∉ seen := by
  intro hmem
  have honce := h.once f hf
  rw [count_self, if_pos hmem] at honce
  omega

theorem DescribesFrom.not_mem_keys {f : Field ρ} (hf : f ∈ shape.fields) (hseen : f.key ∈ seen)
    (h : shape.DescribesFrom value seen r₀ fs r) : some f.key ∉ fs.map Prod.fst := by
  have honce := h.once f hf
  rw [if_pos hseen] at honce
  exact List.count_eq_zero.1 (Nat.le_zero.1 honce)

/-- After its first field an object describes the record in which that field has been set. -/
theorem DescribesFrom.tail {r₁ : ρ} {f₀ : Field ρ} (hf₀ : f₀ ∈ shape.fields)
    (h : shape.DescribesFrom value seen r₀ ((some f₀.key, v) :: fs) r)
    (hset : shape.Sets value f₀.key v r₀ r₁) :
    shape.DescribesFrom value (f₀.key :: seen) r₁ fs r where
  keys x hx := h.keys x (List.mem_cons_of_mem _ hx)
  once f hf := by
    have honce := h.once f hf
    by_cases hkey : f.key = f₀.key
    · have hseen := h.not_mem_seen hf₀
      rw [hkey, count_self, if_neg hseen] at honce
      rw [hkey, if_pos List.mem_cons_self]
      omega
    · rw [count_other hkey] at honce
      simpa [hkey] using honce
  required f hf hreq := by
    rcases h.required f hf hreq with hmem | hmem
    · rcases List.mem_cons.1 hmem with heq | hmem
      · exact .inr (Option.some.inj heq ▸ List.mem_cons_self)
      · exact .inl hmem
    · exact .inr (List.mem_cons_of_mem _ hmem)
  given f hf w hw := h.given f hf w (List.mem_cons_of_mem _ hw)
  omitted f hf hmem := by
    by_cases hkey : f.key = f₀.key
    · rw [hkey, hset.own]
      exact h.given f₀ hf₀ v List.mem_cons_self
    · rw [hset.others f hf hkey]
      refine h.omitted f hf fun hmem' => ?_
      rcases List.mem_cons.1 hmem' with heq | hmem'
      · exact hkey (Option.some.inj heq)
      · exact hmem hmem'

/-- A field that has not been read yet can come before those that describe the rest. -/
theorem DescribesFrom.cons {r₁ : ρ} {f₀ : Field ρ} (hf₀ : f₀ ∈ shape.fields)
    (hseen : f₀.key ∉ seen) (hset : shape.Sets value f₀.key v r₀ r₁)
    (h : shape.DescribesFrom value (f₀.key :: seen) r₁ fs r) :
    shape.DescribesFrom value seen r₀ ((some f₀.key, v) :: fs) r where
  keys := by
    rintro x (_ | ⟨_, hx⟩)
    · exact Option.some_ne_none f₀.key
    · exact h.keys x hx
  once f hf := by
    by_cases hkey : f.key = f₀.key
    · have habsent := List.count_eq_zero.2 (h.not_mem_keys hf₀ List.mem_cons_self)
      rw [hkey, count_self, if_neg hseen]
      omega
    · have honce := h.once f hf
      rw [count_other hkey]
      simpa [hkey] using honce
  required f hf hreq := by
    rcases h.required f hf hreq with hmem | hmem
    · exact .inl (List.mem_cons_of_mem _ hmem)
    · rcases List.mem_cons.1 hmem with heq | hmem
      · exact .inl (heq ▸ List.mem_cons_self)
      · exact .inr hmem
  given f hf w hw := by
    rcases List.mem_cons.1 hw with heq | hw
    · obtain ⟨hkey, rfl⟩ := Prod.mk.inj heq
      have hkey : f.key = f₀.key := Option.some.inj hkey
      have habsent : some f.key ∉ fs.map Prod.fst :=
        hkey ▸ h.not_mem_keys hf₀ List.mem_cons_self
      rw [h.omitted f hf habsent, hkey, hset.own]
    · exact h.given f hf w hw
  omitted f hf hmem := by
    have hkey : f.key ≠ f₀.key := fun heq => hmem (heq ▸ List.mem_cons_self)
    rw [h.omitted f hf fun hmem' => hmem (List.mem_cons_of_mem _ hmem'), hset.others f hf hkey]

theorem describesFrom_known (hl : shape.Lawful value) {f₀ : Field ρ} (hf₀ : f₀ ∈ shape.fields)
    (hkey : f₀.key = key) :
    shape.DescribesFrom value seen r₀ ((some key, v) :: fs) r ↔ key ∉ seen ∧
      ∃ r₁, shape.Sets value key v r₀ r₁ ∧ shape.DescribesFrom value (key :: seen) r₁ fs r := by
  subst hkey
  constructor
  · intro h
    obtain ⟨r₁, hset⟩ := hl.settable f₀ hf₀ r₀ r
    rw [h.given f₀ hf₀ v List.mem_cons_self] at hset
    exact ⟨h.not_mem_seen hf₀, r₁, hset, h.tail hf₀ hset⟩
  · rintro ⟨hseen, r₁, hset, h⟩
    exact h.cons hf₀ hseen hset

theorem continues_iff (hl : shape.Lawful value) :
    shape.Continues value seen r₀ fs r ↔ shape.DescribesFrom value seen r₀ fs r := by
  induction fs generalizing seen r₀ with
  | nil => rw [Continues, describesFrom_nil hl]
  | cons x fs ih =>
    obtain ⟨_ | key, v⟩ := x
    · rw [Continues]
      exact ⟨False.elim, fun h => h.keys _ List.mem_cons_self rfl⟩
    · rw [Continues]
      cases hf : shape.field? key with
      | none =>
        dsimp only
        rw [ih, describesFrom_unknown (field?_eq_none_iff.1 hf)]
      | some f =>
        obtain ⟨hmem, hkey⟩ := mem_of_field? hf
        dsimp only
        rw [describesFrom_known hl hmem hkey]
        simp only [ih]

theorem describes_iff : shape.Describes value fs r ↔
    shape.DescribesFrom value [] shape.blank fs r := by
  constructor
  · intro h
    exact ⟨h.keys, by simpa using h.once, fun f hf hreq => .inl (h.required f hf hreq), h.given,
      h.omitted⟩
  · intro h
    exact ⟨h.keys, by simpa using h.once, fun f hf hreq => by simpa using h.required f hf hreq,
      h.given, h.omitted⟩

end Shape

/-! ## Reading objects -/

theorem nextKey_close {first : Bool} {s r : List Char} (h : Space s ('}' :: r)) :
    nextKey first s = .ok none := by
  rw [nextKey, h.skipSpace_cons (by decide)]
  rfl

theorem nextKey_gap {first : Bool} {s t : List Char} (h : Gap first s ('"' :: t)) :
    nextKey first s = .ok (some t) := by
  cases h with
  | start h =>
    rw [nextKey, h.skipSpace_cons (by decide)]
    rfl
  | comma h h' =>
    rw [nextKey, h.skipSpace_cons (by decide)]
    dsimp only
    rw [if_neg (by decide), if_neg (by decide), if_pos rfl, h'.skipSpace_cons (by decide)]
    rfl

/-- Either an object is at its end, or the key of its next field follows. -/
theorem nextKey_sound {first : Bool} {s : List Char} {o : Option (List Char)}
    (h : nextKey first s = .ok o) :
    (o = none ∧ ∃ r, Space s ('}' :: r)) ∨ ∃ t, o = some t ∧ Gap first s ('"' :: t) := by
  rw [nextKey] at h
  split at h
  · cases h
  next c rest hs =>
  have hspace := space_of_skipSpace hs
  split at h
  · next hc =>
    cases h
    exact .inl ⟨rfl, rest, hc ▸ hspace⟩
  split at h
  · next hfirst =>
    split at h
    · next hc =>
      cases h
      exact .inr ⟨_, rfl, hfirst ▸ .start (hc ▸ hspace)⟩
    · cases h
  next hfirst =>
  rw [Bool.not_eq_true] at hfirst
  split at h
  · next hc =>
    split at h
    · cases h
    next hs' =>
    split at h
    · next hd =>
      cases h
      exact .inr ⟨_, rfl, hfirst ▸ .comma (hc ▸ hspace) (hd ▸ space_of_skipSpace hs')⟩
    · split at h <;> cases h
  · cases h

theorem afterObject_eq {s r : List Char} (h : Space s ('}' :: r)) : afterObject s = r := by
  rw [afterObject, h.skipSpace_cons (by decide)]
  rfl

namespace Shape

variable {shape : Shape ρ} {value : ρ → String → Value}

/-- One step of reading the fields of an object. -/
theorem readFields_succ (n : Nat) (first : Bool) (seen : List String) (r x : ρ) (s t : List Char) :
    shape.readFields (n + 1) first seen r s = .ok (x, t) ↔
      (nextKey first s = .ok none ∧ shape.missing? seen = none ∧ x = r ∧ t = afterObject s) ∨
      ∃ u cs v w, nextKey first s = .ok (some u) ∧ readText u = .ok (cs, v) ∧ readColon v = .ok w ∧
        match shape.field? (String.ofList cs) with
        | none => ∃ z, skipAny w = .ok z ∧ shape.readFields n false seen r z = .ok (x, t)
        | some f => String.ofList cs ∉ seen ∧ ∃ r₁ z, f.read r w = .ok (r₁, z) ∧
          shape.readFields n false (String.ofList cs :: seen) r₁ z = .ok (x, t) := by
  rw [readFields, bind_eq_ok_iff]
  constructor
  · rintro ⟨_ | u, hnext, h⟩
    · dsimp only at h
      split at h
      · cases h
      · next hmissing =>
        obtain ⟨rfl, rfl⟩ := Prod.mk.inj (Except.ok.inj h)
        exact .inl ⟨hnext, hmissing, rfl, rfl⟩
    · obtain ⟨⟨cs, v⟩, hkey, h⟩ := bind_eq_ok_iff.1 h
      dsimp only at h
      split at h
      · next hf =>
        obtain ⟨w, hcolon, h⟩ := bind_eq_ok_iff.1 h
        obtain ⟨z, hskip, h⟩ := bind_eq_ok_iff.1 h
        refine .inr ⟨u, cs, v, w, hnext, hkey, hcolon, ?_⟩
        rw [hf]
        exact ⟨z, hskip, h⟩
      · next f hf =>
        split at h
        · cases h
        next hseen =>
        obtain ⟨w, hcolon, h⟩ := bind_eq_ok_iff.1 h
        obtain ⟨⟨r₁, z⟩, hread, h⟩ := bind_eq_ok_iff.1 h
        refine .inr ⟨u, cs, v, w, hnext, hkey, hcolon, ?_⟩
        rw [hf]
        exact ⟨by simpa using hseen, r₁, z, hread, h⟩
  · rintro (⟨hnext, hmissing, rfl, rfl⟩ | ⟨u, cs, v, w, hnext, hkey, hcolon, h⟩)
    · refine ⟨none, hnext, ?_⟩
      dsimp only
      rw [hmissing]
    · refine ⟨some u, hnext, bind_eq_ok_iff.2 ⟨(cs, v), hkey, ?_⟩⟩
      dsimp only
      cases hf : shape.field? (String.ofList cs) with
      | none =>
        rw [hf] at h
        obtain ⟨z, hskip, h⟩ := h
        exact bind_eq_ok_iff.2 ⟨w, hcolon, bind_eq_ok_iff.2 ⟨z, hskip, h⟩⟩
      | some f =>
        rw [hf] at h
        obtain ⟨hseen, r₁, z, hread, h⟩ := h
        dsimp only
        rw [if_neg (by simpa using hseen)]
        exact bind_eq_ok_iff.2 ⟨w, hcolon, bind_eq_ok_iff.2 ⟨(r₁, z), hread, h⟩⟩

/-- One step of reading the fields of an object whose next field is in sight. -/
theorem readFields_entry {n : Nat} {first : Bool} {seen : List String} {r x : ρ}
    {key : Option String} {s u v w t : List Char} (hgap : Gap first s ('"' :: u))
    (hquoted : Quoted key ('"' :: u) v) (hcolon : Space v (':' :: w)) :
    shape.readFields (n + 1) first seen r s = .ok (x, t) ↔ ∃ k, key = some k ∧
      match shape.field? k with
      | none => ∃ z, skipAny w = .ok z ∧ shape.readFields n false seen r z = .ok (x, t)
      | some f => k ∉ seen ∧ ∃ r₁ z, f.read r w = .ok (r₁, z) ∧
        shape.readFields n false (k :: seen) r₁ z = .ok (x, t) := by
  rw [readFields_succ, nextKey_gap hgap]
  constructor
  · rintro (⟨h, -⟩ | ⟨u', cs, v', w', h, hkey, hcolon', hrest⟩)
    · cases h
    obtain rfl := Option.some.inj (Except.ok.inj h)
    obtain ⟨rfl, rfl⟩ := hquoted.readText_eq_ok_iff.1 hkey
    obtain rfl := Except.ok.inj (hcolon'.symm.trans (readColon_eq_ok_iff.2 hcolon))
    exact ⟨String.ofList cs, rfl, hrest⟩
  · rintro ⟨k, rfl, hrest⟩
    refine .inr ⟨u, k.toList, v, w, rfl, ?_, readColon_eq_ok_iff.2 hcolon, ?_⟩
    · rw [hquoted.readText_eq_ok_iff, String.ofList_toList]
      exact ⟨rfl, rfl⟩
    · rw [String.ofList_toList]
      exact hrest

/-- The fields of an object are read as what they make of the record so far.  The induction is on
the fields. -/
theorem readFields_iff (hl : shape.Lawful value) {first : Bool} {fs : List (Option String × Value)}
    {s r' : List Char} (h : Listed (Entry Written) '}' first fs s r') {n : Nat} (hn : s.length < n)
    {seen : List String} {r₀ r : ρ} {t : List Char} :
    shape.readFields n first seen r₀ s = .ok (r, t) ↔
      t = r' ∧ shape.Continues value seen r₀ fs r := by
  induction h generalizing n seen r₀ with
  | @close first s r' hclose =>
    obtain ⟨n, rfl⟩ := Nat.exists_eq_succ_of_ne_zero (Nat.ne_of_gt (Nat.zero_lt_of_lt hn))
    rw [readFields_succ, nextKey_close hclose, afterObject_eq hclose, Continues]
    constructor
    · rintro (⟨-, hmissing, rfl, rfl⟩ | ⟨_, _, _, _, h, -⟩)
      · exact ⟨rfl, hmissing, rfl⟩
      · cases h
    · rintro ⟨rfl, hmissing, rfl⟩
      exact .inl ⟨rfl, hmissing, rfl, rfl⟩
  | @item first x fs s s₁ s₂ r' hgap hentry htail ih =>
    obtain ⟨n, rfl⟩ := Nat.exists_eq_succ_of_ne_zero (Nat.ne_of_gt (Nat.zero_lt_of_lt hn))
    have hle := hgap.length_le
    have hlt := hentry.length_lt
    obtain ⟨u, rfl⟩ := hentry.head
    obtain ⟨hquoted, hcolon, hspace, hv⟩ := hentry
    rename_i key v s₃ s₄ s₅
    have hended := htail.ended (by decide)
    have ih : ∀ {seen : List String} {r₀ : ρ}, shape.readFields n false seen r₀ s₂ = .ok (r, t) ↔
        t = r' ∧ shape.Continues value seen r₀ fs r := ih (by omega)
    rw [readFields_entry hgap hquoted hcolon]
    cases key with
    | none =>
      rw [Continues]
      exact ⟨nofun, fun h => h.2.elim⟩
    | some key =>
      rw [Continues]
      simp only [Option.some.injEq, exists_eq_left']
      cases hf : shape.field? key with
      | none =>
        dsimp only
        constructor
        · rintro ⟨z, hskip, hrest⟩
          obtain rfl := Except.ok.inj (hskip.symm.trans (hv.skipAny_eq hspace hended))
          exact ih.1 hrest
        · intro hrest
          exact ⟨s₂, hv.skipAny_eq hspace hended, ih.2 hrest⟩
      | some f =>
        obtain ⟨hmem, hkey⟩ := mem_of_field? hf
        have hread := fun r₁ z => (hl.reads f hmem r₀).reads_iff hspace hv hended r₁ z
        rw [hkey] at hread
        dsimp only
        constructor
        · rintro ⟨hseen, r₁, z, hz, hrest⟩
          obtain ⟨rfl, hset⟩ := (hread r₁ z).1 hz
          obtain ⟨rfl, hrest⟩ := ih.1 hrest
          exact ⟨rfl, hseen, r₁, hset, hrest⟩
        · rintro ⟨rfl, hseen, r₁, hset, hrest⟩
          exact ⟨hseen, r₁, s₂, (hread r₁ s₂).2 ⟨rfl, hset⟩, ih.2 ⟨rfl, hrest⟩⟩

/-- What is read as the fields of a record is written as fields.  The induction is on the bound for
them. -/
theorem readFields_sound (hl : shape.Lawful value) {n : Nat} {first : Bool} {seen : List String}
    {r₀ r : ρ} {s t : List Char} (h : shape.readFields n first seen r₀ s = .ok (r, t)) :
    ∃ fs, Listed (Entry Written) '}' first fs s t ∧ shape.Continues value seen r₀ fs r := by
  induction n generalizing first seen r₀ s with
  | zero => cases h
  | succ n ih =>
    obtain ⟨hnext, hmissing, rfl, rfl⟩ | ⟨u, cs, v, w, hnext, hkey, hcolon, h⟩ :=
      (readFields_succ ..).1 h
    · obtain ⟨-, r', hclose⟩ | ⟨_, h, -⟩ := nextKey_sound hnext
      · rw [afterObject_eq hclose]
        exact ⟨[], .close hclose, hmissing, rfl⟩
      · cases h
    obtain ⟨h', -⟩ | ⟨_, h', hgap⟩ := nextKey_sound hnext
    · cases h'
    obtain rfl := Option.some.inj h'
    have hquoted := Quoted.spelled (readText_eq_ok_iff.1 hkey)
    have hcolon := readColon_eq_ok_iff.1 hcolon
    split at h
    · next hf =>
      obtain ⟨z, hskip, h⟩ := h
      obtain ⟨x, y, hspace, hx⟩ := written_of_skipAny hskip
      obtain ⟨fs, hfs, hrest⟩ := ih h
      refine ⟨_ :: fs, .item hgap (.mk hquoted hcolon hspace hx) hfs, ?_⟩
      rw [Continues, hf]
      exact hrest
    · next f hf =>
      obtain ⟨hmem, hf'⟩ := mem_of_field? hf
      obtain ⟨hseen, r₁, z, hread, h⟩ := h
      obtain ⟨x, y, hspace, hx, hset⟩ := (hl.reads f hmem r₀).sound hread
      obtain ⟨fs, hfs, hrest⟩ := ih h
      refine ⟨_ :: fs, .item hgap (.mk hquoted hcolon hspace hx) hfs, ?_⟩
      rw [Continues, hf]
      exact ⟨hseen, r₁, hf' ▸ hset, hrest⟩

/-! ## Reading lists that stand for records -/

/-- One step of reading the items of a list that stands for a record. -/
theorem readPlaces_cons (f : Field ρ) (gs : List (Field ρ)) (index : Nat) (r x : ρ)
    (s t : List Char) :
    shape.readPlaces (f :: gs) index r s = .ok (x, t) ↔
      (nextItem (decide (index = 0)) s = .ok none ∧ (∀ g ∈ f :: gs, g.required = false) ∧
        x = r ∧ t = s) ∨
      ∃ u r₁ v, nextItem (decide (index = 0)) s = .ok (some u) ∧ f.read r u = .ok (r₁, v) ∧
        shape.readPlaces gs (index + 1) r₁ v = .ok (x, t) := by
  rw [readPlaces, bind_eq_ok_iff]
  constructor
  · rintro ⟨_ | u, hnext, h⟩
    · dsimp only at h
      split at h
      · next hnone =>
        obtain ⟨rfl, rfl⟩ := Prod.mk.inj (Except.ok.inj h)
        exact .inl ⟨hnext, List.findIdx?_eq_none_iff.1 hnone, rfl, rfl⟩
      · cases h
    · obtain ⟨⟨r₁, v⟩, hread, h⟩ := bind_eq_ok_iff.1 h
      exact .inr ⟨u, r₁, v, hnext, hread, h⟩
  · rintro (⟨hnext, hnone, rfl, rfl⟩ | ⟨u, r₁, v, hnext, hread, h⟩)
    · refine ⟨none, hnext, ?_⟩
      dsimp only
      rw [List.findIdx?_eq_none_iff.2 hnone]
    · exact ⟨some u, hnext, bind_eq_ok_iff.2 ⟨(r₁, v), hread, h⟩⟩

/-- The items of a list are read as what they make of the record so far.  The induction is on the
fields that are left. -/
theorem readPlaces_iff (hl : shape.Lawful value) {gs : List (Field ρ)} (hgs : gs ⊆ shape.fields)
    (index : Nat) {vs : List Value} {s r' : List Char}
    (h : Listed Written ']' (decide (index = 0)) vs s r') {r₀ r : ρ} {r'' : List Char} :
    (∃ t, shape.readPlaces gs index r₀ s = .ok (r, t) ∧ closeList t = .ok r'') ↔
      r'' = r' ∧ shape.Places value gs vs r₀ r := by
  induction gs generalizing index vs s r₀ with
  | nil =>
    have hstay : (∃ t, shape.readPlaces [] index r₀ s = .ok (r, t) ∧ closeList t = .ok r'') ↔
        r = r₀ ∧ Space s (']' :: r'') := by
      rw [← closeList_eq_ok_iff]
      constructor
      · rintro ⟨t, hread, hclose⟩
        obtain ⟨rfl, rfl⟩ := Prod.mk.inj (Except.ok.inj hread)
        exact ⟨rfl, hclose⟩
      · rintro ⟨rfl, hclose⟩
        exact ⟨s, rfl, hclose⟩
    rw [hstay]
    cases h with
    | close hclose =>
      rw [Places, and_comm]
      refine and_congr_left fun _ => ⟨hclose.close_unique, ?_⟩
      rintro rfl
      exact hclose
    | item hgap hv _ =>
      rw [Places]
      refine ⟨?_, fun h => h.2.elim⟩
      -- before an item no list ends
      rintro ⟨-, hclose⟩
      cases (nextItem_gap hgap hv).symm.trans (nextItem_close hclose)
  | cons f gs ih =>
    obtain ⟨hf, hgs⟩ := List.cons_subset.1 hgs
    have hlater : decide (index + 1 = 0) = false := decide_eq_false (Nat.succ_ne_zero index)
    simp only [readPlaces_cons]
    cases h with
    | close hclose =>
      rw [Places, nextItem_close hclose]
      simp only [closeList_eq_ok_iff]
      constructor
      · rintro ⟨t, ⟨-, hnone, rfl, rfl⟩ | ⟨_, _, _, h, -⟩, hclose'⟩
        · exact ⟨hclose.close_unique hclose', hnone, rfl⟩
        · cases h
      · rintro ⟨rfl, hnone, rfl⟩
        exact ⟨s, .inl ⟨trivial, hnone, rfl, rfl⟩, hclose⟩
    | @item _ v vs _ u w _ hgap hv htail =>
      have hread := fun r₀ => (hl.reads f hf r₀).reads_iff .none hv (htail.ended (by decide))
      have ih : ∀ r₁, (∃ t, shape.readPlaces gs (index + 1) r₁ w = .ok (r, t) ∧
          closeList t = .ok r'') ↔ r'' = r' ∧ shape.Places value gs vs r₁ r :=
        fun _ => ih hgs (index + 1) (hlater ▸ htail)
      rw [Places, nextItem_gap hgap hv]
      constructor
      · rintro ⟨t, ⟨h, -⟩ | ⟨_, r₁, z, h, hz, hrest⟩, hclose⟩
        · cases h
        · obtain rfl := Option.some.inj (Except.ok.inj h)
          obtain ⟨rfl, hset⟩ := (hread r₀ r₁ z).1 hz
          obtain ⟨rfl, hplaces⟩ := (ih r₁).1 ⟨t, hrest, hclose⟩
          exact ⟨rfl, r₁, hset, hplaces⟩
      · rintro ⟨rfl, r₁, hset, hplaces⟩
        obtain ⟨t, hrest, hclose⟩ := (ih r₁).2 ⟨rfl, hplaces⟩
        exact ⟨t, .inr ⟨u, r₁, w, rfl, (hread r₀ r₁ w).2 ⟨rfl, hset⟩, hrest⟩, hclose⟩

/-- What is read as the items of a record is written as items.  The induction is on the fields that
are left. -/
theorem readPlaces_sound (hl : shape.Lawful value) {gs : List (Field ρ)} (hgs : gs ⊆ shape.fields)
    {index : Nat} {s t r' : List Char} {r₀ r : ρ}
    (h : shape.readPlaces gs index r₀ s = .ok (r, t)) (hclose : closeList t = .ok r') :
    ∃ vs, Listed Written ']' (decide (index = 0)) vs s r' ∧ shape.Places value gs vs r₀ r := by
  induction gs generalizing index s r₀ with
  | nil =>
    obtain ⟨rfl, rfl⟩ := Prod.mk.inj (Except.ok.inj h)
    exact ⟨[], .close (closeList_eq_ok_iff.1 hclose), rfl⟩
  | cons f gs ih =>
    obtain ⟨hf, hgs⟩ := List.cons_subset.1 hgs
    have hlater : decide (index + 1 = 0) = false := decide_eq_false (Nat.succ_ne_zero index)
    obtain ⟨hnext, hnone, rfl, rfl⟩ | ⟨u, r₁, v, hnext, hread, hrest⟩ := (readPlaces_cons ..).1 h
    · exact ⟨[], .close (closeList_eq_ok_iff.1 hclose), hnone, rfl⟩
    · obtain ⟨h', -⟩ | ⟨_, h', hgap⟩ := nextItem_sound hnext
      · cases h'
      obtain rfl := Option.some.inj h'
      obtain ⟨x, y, hspace, hx, hset⟩ := (hl.reads f hf r₀).sound hread
      obtain ⟨vs, hvs, hplaces⟩ := ih hgs hrest
      exact ⟨x :: vs, .item (hgap.trans hspace) hx (hlater ▸ hvs), r₁, hset, hplaces⟩

/-! ## Records -/

theorem read_bracket {s u r' : List Char} {r : ρ} (h : Space s ('[' :: u)) :
    shape.read s = .ok (r, r') ↔
      ∃ t, shape.readPlaces shape.fields 0 shape.blank u = .ok (r, t) ∧ closeList t = .ok r' := by
  rw [read, h.skipSpace_cons (by decide)]
  refine bind_eq_ok_iff.trans ?_
  constructor
  · rintro ⟨⟨x, t⟩, hread, h⟩
    obtain ⟨_, hclose, h⟩ := bind_eq_ok_iff.1 h
    obtain ⟨rfl, rfl⟩ := Prod.mk.inj (Except.ok.inj h)
    exact ⟨t, hread, hclose⟩
  · rintro ⟨t, hread, hclose⟩
    exact ⟨(r, t), hread, bind_eq_ok_iff.2 ⟨r', hclose, rfl⟩⟩

theorem read_brace {s u : List Char} (h : Space s ('{' :: u)) :
    shape.read s = shape.readFields (u.length + 1) true [] shape.blank u := by
  rw [read, h.skipSpace_cons (by decide)]
  rfl

theorem read_other {s u : List Char} {c : Char} (h : Space s (c :: u)) (hspace : isSpace c = false)
    (hbracket : c ≠ '[') (hbrace : c ≠ '{') :
    shape.read s = .error (wrongValue shape.title (c :: u)) := by
  rw [read, h.skipSpace_cons hspace]
  split
  · next heq => cases heq
  · next heq => exact absurd (List.cons.inj heq).1 hbracket
  · next heq => exact absurd (List.cons.inj heq).1 hbrace
  · rfl

/-- Objects and lists are read as the records they stand for, and nothing else is read. -/
theorem reads (hl : shape.Lawful value) : Reads shape.read (shape.Means value) where
  reads_iff {v s t r'} hspace hv hr r r'' := by
    obtain ⟨c, u, rfl, hc⟩ := hv.head
    by_cases hbracket : c = '['
    · subst hbracket
      obtain ⟨vs, rfl, hvs⟩ := hv.of_bracket
      rw [read_bracket hspace, readPlaces_iff hl (List.Subset.refl _) 0 hvs, Means]
    by_cases hbrace : c = '{'
    · subst hbrace
      obtain ⟨fs, rfl, hfs⟩ := hv.of_brace
      rw [read_brace hspace, readFields_iff hl hfs (Nat.lt_succ_self _), continues_iff hl, Means,
        describes_iff]
    · rw [read_other hspace (not_isSpace_of_startsValue hc) hbracket hbrace]
      refine ⟨nofun, ?_⟩
      rintro ⟨-, hmeans⟩
      cases hv with
      | list _ => exact absurd rfl hbracket
      | object _ => exact absurd rfl hbrace
      | _ => exact hmeans.elim
  sound {s r' r} h := by
    cases hs : skipSpace s with
    | nil =>
      rw [read, hs] at h
      cases h
    | cons c u =>
      have hspace := space_of_skipSpace hs
      by_cases hbracket : c = '['
      · subst hbracket
        obtain ⟨t, hread, hclose⟩ := (read_bracket hspace).1 h
        obtain ⟨vs, hvs, hplaces⟩ := readPlaces_sound hl (List.Subset.refl _) hread hclose
        exact ⟨.list vs, _, hspace, .list hvs, hplaces⟩
      by_cases hbrace : c = '{'
      · subst hbrace
        rw [read_brace hspace] at h
        obtain ⟨fs, hfs, hcontinues⟩ := readFields_sound hl h
        exact ⟨.object fs, _, hspace, .object hfs,
          describes_iff.2 ((continues_iff hl).1 hcontinues)⟩
      · rw [read_other hspace (not_isSpace_of_skipSpace hs) hbracket hbrace] at h
        cases h

/-! ## Fields that hold one part of a record each -/

/-- Reading a field puts what it holds into a record, and the field can be given any of the values
that it has in a record. -/
structure Holds (shape : Shape ρ) (value : ρ → String → Value) (f : Field ρ) : Prop where
  reads (r : ρ) : Reads (f.read r) fun v r' => shape.Sets value f.key v r r'
  settable (r r' : ρ) : ∃ r₁, shape.Sets value f.key (value r' f.key) r r₁

theorem Holds.of_put {α : Type} {encode : α → Value} {read : Reader α} {f : Field ρ}
    (get : ρ → α) (put : ρ → α → ρ) (hread : Decodes read encode)
    (hf : ∀ r s, f.read r s = (read s).map fun p => (put r p.1, p.2))
    (hext : ∀ r r', (∀ g ∈ shape.fields, value r g.key = value r' g.key) → r = r')
    (hget : ∀ r, value r f.key = encode (get r)) (hput : ∀ r x, get (put r x) = x)
    (hothers : ∀ r x key, key ≠ f.key → value (put r x) key = value r key) :
    shape.Holds value f where
  reads r := by
    rw [funext (hf r)]
    refine (Reads.map hread (put r)).congr fun v r' => ⟨?_, ?_⟩
    · rintro ⟨x, rfl, rfl⟩
      exact ⟨by rw [hget, hput], fun g _ => hothers r x g.key⟩
    · -- a record is determined by its fields, so it is `r` with another part
      rintro ⟨hown, hr'⟩
      refine ⟨get r', hown ▸ hget r', hext _ _ fun g hg => ?_⟩
      by_cases hkey : g.key = f.key
      · rw [hkey, hget, hget, hput]
      · rw [hothers r _ g.key hkey, hr' g hg hkey]
  settable r r' := by
    refine ⟨put r (get r'), ?_, fun g _ => hothers r _ g.key⟩
    rw [hget, hput, hget]

theorem Lawful.of_holds
    (hext : ∀ r r', (∀ f ∈ shape.fields, value r f.key = value r' f.key) → r = r')
    (h : ∀ f ∈ shape.fields, shape.Holds value f) : shape.Lawful value where
  reads f hf := (h f hf).reads
  ext := hext
  settable f hf := (h f hf).settable

end Shape

end LintHooks.Json
