import LintHooks.Proofs.Json.Grammar
set_option autoImplicit false

/-!
# JSON: how far a value goes

What a value takes of a text does not depend on what follows it, so a value can be cut out and put
in front of another rest.  It follows that a text that is one list or one object stays one when
space is added at its end or taken away from there.

The main result is `document_append_space`.  Something `Stands` in a text if it would stand there
whatever followed it, and for each rule of the grammar this is carried from the parts to the whole,
up to `Written.stands`.  As values stand inside values, that is by `Written.induct`, which keeps the
induction on the length in one place.  A list or an object ends with its bracket (`Written.suffix`),
so the space at the end of a text has no part in it.
-/

namespace LintHooks.Json

/-! ## Induction on values -/

theorem Listed.mono {α : Type} {R Q : α → List Char → List Char → Prop} {bracket : Char}
    {first : Bool} {xs : List α} {s r : List Char} (h : Listed R bracket first xs s r)
    (himp : ∀ {x s r}, R x s r → Q x s r) : Listed Q bracket first xs s r := by
  induction h with
  | close hspace => exact .close hspace
  | item hgap hitem _ ih => exact .item hgap (himp hitem) ih

theorem Listed.mono_of_lt {α : Type} {R Q : α → List Char → List Char → Prop} {bracket : Char}
    {first : Bool} {xs : List α} {s r : List Char} {k : Nat} (h : Listed R bracket first xs s r)
    (hs : s.length < k) (hlt : ∀ {x s r}, R x s r → r.length < s.length)
    (himp : ∀ {x s r}, s.length < k → R x s r → Q x s r) : Listed Q bracket first xs s r := by
  induction h with
  | close hspace => exact .close hspace
  | item hgap hitem _ ih =>
    have hle := hgap.length_le
    have := hlt hitem
    exact .item hgap (himp (by omega) hitem) (ih (by omega))

theorem Entry.mono_of_lt {R Q : Value → List Char → List Char → Prop} {x : Option String × Value}
    {s r : List Char} {k : Nat} (h : Entry R x s r) (hs : s.length < k)
    (himp : ∀ {v s r}, s.length < k → R v s r → Q v s r) : Entry Q x s r := by
  obtain ⟨hkey, hcolon, hspace, hvalue⟩ := h
  have h₁ := hkey.length_lt
  have h₂ := hcolon.length_le
  have h₃ := hspace.length_le
  simp only [List.length_cons] at h₂
  exact ⟨hkey, hcolon, hspace, himp (by omega) hvalue⟩

/-- What holds of lists and objects if it holds of all that is in them, and of every other value,
holds of all values.  The induction is on a bound for the length. -/
theorem Written.induct {P : Value → List Char → List Char → Prop}
    (null : ∀ r, P .null ('n' :: 'u' :: 'l' :: 'l' :: r) r)
    (trueWord : ∀ r, P (.truth true) ('t' :: 'r' :: 'u' :: 'e' :: r) r)
    (falseWord : ∀ r, P (.truth false) ('f' :: 'a' :: 'l' :: 's' :: 'e' :: r) r)
    (positive : ∀ s r, Magnitude s r → P .number s r)
    (negative : ∀ s r, Magnitude s r → P .number ('-' :: s) r)
    (text : ∀ content s r, Quoted content s r → P (.text content) s r)
    (list : ∀ vs s r, Listed P ']' true vs s r → P (.list vs) ('[' :: s) r)
    (object : ∀ fs s r, Listed (Entry P) '}' true fs s r → P (.object fs) ('{' :: s) r)
    {v : Value} {s r : List Char} (h : Written v s r) : P v s r := by
  have hbound : ∀ (k : Nat) {v : Value} {s r : List Char},
      s.length < k → Written v s r → P v s r := by
    intro k
    induction k with
    | zero => exact fun hs => absurd hs (Nat.not_lt_zero _)
    | succ k ih =>
      intro v s r hs h
      cases h with
      | null => exact null _
      | trueWord => exact trueWord _
      | falseWord => exact falseWord _
      | positive hm => exact positive _ _ hm
      | negative hm => exact negative _ _ hm
      | text hq => exact text _ _ _ hq
      | list hl => exact list _ _ _ (hl.mono_of_lt (Nat.lt_of_succ_lt_succ hs) Written.length_lt ih)
      | object hl =>
        refine object _ _ _ (hl.mono_of_lt (Nat.lt_of_succ_lt_succ hs) Entry.length_lt ?_)
        exact fun hs hentry => hentry.mono_of_lt hs ih
  exact hbound _ (Nat.lt_succ_self _) h

/-! ## Cutting out what is written -/

/-- Something stands at the beginning of a text and would stand there whatever followed it. -/
def Stands (G : List Char → List Char → Prop) (s r : List Char) : Prop :=
  ∃ w, s = w ++ r ∧ ∀ z, G (w ++ z) z

namespace Stands

variable {G H : List Char → List Char → Prop} {s t r : List Char}

theorem imp (h : Stands G s r) (himp : ∀ {s r}, G s r → H s r) : Stands H s r := by
  obtain ⟨w, rfl, hw⟩ := h
  exact ⟨w, rfl, fun z => himp (hw z)⟩

/-- Something after some characters. -/
theorem after (p : List Char) (h : Stands G s r) (himp : ∀ {s r}, G s r → H (p ++ s) r) :
    Stands H (p ++ s) r := by
  obtain ⟨w, rfl, hw⟩ := h
  refine ⟨p ++ w, (List.append_assoc ..).symm, fun z => ?_⟩
  rw [List.append_assoc]
  exact himp (hw z)

/-- Something before a character. -/
theorem before {c : Char} (h : Stands G s (c :: r)) : Stands (fun s r => G s (c :: r)) s r := by
  obtain ⟨w, rfl, hw⟩ := h
  refine ⟨w ++ [c], by rw [List.append_assoc]; rfl, fun z => ?_⟩
  rw [List.append_assoc]
  exact hw _

theorem trans (h : Stands G s t) (h' : Stands H t r) :
    Stands (fun s r => ∃ t, G s t ∧ H t r) s r := by
  obtain ⟨w, rfl, hw⟩ := h
  obtain ⟨w', rfl, hw'⟩ := h'
  refine ⟨w ++ w', (List.append_assoc ..).symm, fun z => ?_⟩
  rw [List.append_assoc]
  exact ⟨w' ++ z, hw _, hw' z⟩

end Stands

theorem Space.stands {s r : List Char} (h : Space s r) : Stands Space s r := by
  induction h with
  | none => exact ⟨[], rfl, fun _ => .none⟩
  | more hc _ ih => exact ih.after [_] (.more hc)

/-! ### Texts -/

theorem Code.stands {n : Nat} {s r : List Char} (h : Code n s r) : Stands (Code n) s r := by
  obtain ⟨ha, hb, hc, hd⟩ := h
  exact ⟨[_, _, _, _], rfl, fun _ => .digits ha hb hc hd⟩

theorem Body.stands {s r : List Char} (h : Body s r) : Stands Body s r := by
  induction h with
  | quote => exact ⟨['"'], rfl, fun _ => .quote⟩
  | plain hc _ ih => exact ih.after [_] (.plain hc)
  | letter hc _ ih => exact ih.after ['\\', _] (.letter hc)
  | code hcode _ ih =>
    exact (hcode.stands.trans ih).after ['\\', 'u'] fun ⟨_, hcode, hbody⟩ => .code hcode hbody

theorem Spelled.stands {cs s r : List Char} (h : Spelled cs s r) : Stands (Spelled cs) s r := by
  induction h with
  | quote => exact ⟨['"'], rfl, fun _ => .quote⟩
  | plain hc _ ih => exact ih.after [_] (.plain hc)
  | letter hc _ ih => exact ih.after ['\\', _] (.letter hc)
  | code hcode hhigh hlow _ ih =>
    exact (hcode.stands.trans ih).after ['\\', 'u'] fun ⟨_, hcode, hrest⟩ =>
      .code hcode hhigh hlow hrest
  | pair hm hhigh hn hlow _ ih =>
    exact (hm.stands.before.before.trans (hn.stands.trans ih)).after ['\\', 'u']
      fun ⟨_, hm, _, hn, hrest⟩ => .pair hm hhigh hn hlow hrest

theorem Quoted.stands {content : Option String} {s r : List Char} (h : Quoted content s r) :
    Stands (Quoted content) s r := by
  cases h with
  | spelled hs => exact hs.stands.after ['"'] .spelled
  | broken hb hnone =>
    obtain ⟨w, rfl, hw⟩ := hb.stands
    refine ⟨'"' :: w, rfl, fun z => .broken (hw z) fun cs hcs => ?_⟩
    -- what spells a text before one rest does so before the other
    obtain ⟨w', hw', hcs⟩ := hcs.stands
    obtain rfl := List.append_cancel_right hw'
    exact hnone cs (hcs r)

/-! ### Numbers -/

theorem Digits.stands {s r : List Char} (h : Digits s r) : Stands Digits s r := by
  induction h with
  | one hc => exact ⟨[_], rfl, fun _ => .one hc⟩
  | more hc _ ih => exact ih.after [_] (.more hc)

theorem Whole.stands {s r : List Char} (h : Whole s r) : Stands Whole s r := by
  cases h with
  | zero => exact ⟨['0'], rfl, fun _ => .zero⟩
  | digits hc hd =>
    cases hd with
    | one hdigit => exact ⟨[_], rfl, fun _ => .digits hc (.one hdigit)⟩
    | more hdigit hd => exact hd.stands.after [_] fun hd => .digits hc (.more hdigit hd)

theorem Fraction.stands {s r : List Char} (h : Fraction s r) : Stands Fraction s r := by
  cases h with
  | none => exact ⟨[], rfl, fun _ => .none⟩
  | some hd => exact hd.stands.after ['.'] .some

theorem Sign.stands {s r : List Char} (h : Sign s r) : Stands Sign s r := by
  cases h with
  | none => exact ⟨[], rfl, fun _ => .none⟩
  | plus => exact ⟨['+'], rfl, fun _ => .plus⟩
  | minus => exact ⟨['-'], rfl, fun _ => .minus⟩

theorem Exponent.stands {s r : List Char} (h : Exponent s r) : Stands Exponent s r := by
  cases h with
  | none => exact ⟨[], rfl, fun _ => .none⟩
  | some he hsign hd =>
    exact (hsign.stands.trans hd.stands).after [_] fun ⟨_, hsign, hd⟩ => .some he hsign hd

theorem Magnitude.stands {s r : List Char} (h : Magnitude s r) : Stands Magnitude s r := by
  obtain ⟨hwhole, hfraction, hexponent⟩ := h
  exact (hwhole.stands.trans (hfraction.stands.trans hexponent.stands)).imp
    fun ⟨_, hwhole, _, hfraction, hexponent⟩ => ⟨hwhole, hfraction, hexponent⟩

/-! ### Values -/

theorem Gap.stands {first : Bool} {s r : List Char} (h : Gap first s r) :
    Stands (Gap first) s r := by
  cases h with
  | start h => exact h.stands.imp .start
  | comma h h' => exact (h.stands.before.trans h'.stands).imp fun ⟨_, h, h'⟩ => .comma h h'

theorem Listed.stands {α : Type} {R : α → List Char → List Char → Prop} {bracket : Char}
    {first : Bool} {xs : List α} {s r : List Char}
    (h : Listed (fun x => Stands (R x)) bracket first xs s r) :
    Stands (Listed R bracket first xs) s r := by
  induction h with
  | close hspace => exact hspace.stands.before.imp .close
  | item hgap hitem _ ih =>
    exact (hgap.stands.trans (hitem.trans ih)).imp fun ⟨_, hgap, _, hitem, hrest⟩ =>
      .item hgap hitem hrest

theorem Entry.stands {R : Value → List Char → List Char → Prop} {x : Option String × Value}
    {s r : List Char} (h : Entry (fun v => Stands (R v)) x s r) : Stands (Entry R x) s r := by
  obtain ⟨hkey, hcolon, hspace, hvalue⟩ := h
  exact (hkey.stands.trans (hcolon.stands.before.trans (hspace.stands.trans hvalue))).imp
    fun ⟨_, hkey, _, hcolon, _, hspace, hvalue⟩ => ⟨hkey, hcolon, hspace, hvalue⟩

theorem Written.stands {v : Value} {s r : List Char} (h : Written v s r) :
    Stands (Written v) s r := by
  refine Written.induct (P := fun v => Stands (Written v)) ?null ?trueWord ?falseWord ?positive
    ?negative ?text ?list ?object h
  case null => exact fun _ => ⟨['n', 'u', 'l', 'l'], rfl, fun _ => .null⟩
  case trueWord => exact fun _ => ⟨['t', 'r', 'u', 'e'], rfl, fun _ => .trueWord⟩
  case falseWord => exact fun _ => ⟨['f', 'a', 'l', 's', 'e'], rfl, fun _ => .falseWord⟩
  case positive => exact fun _ _ hm => hm.stands.imp .positive
  case negative => exact fun _ _ hm => hm.stands.after ['-'] .negative
  case text => exact fun _ _ _ hq => hq.stands.imp .text
  case list => exact fun _ _ _ hl => hl.stands.after ['['] .list
  case object => exact fun _ _ _ hl => (hl.mono Entry.stands).stands.after ['{'] .object

/-! ## Space at the end -/

theorem space_nil_iff {s : List Char} : Space s [] ↔ ∀ c ∈ s, isSpace c = true := by
  constructor
  · intro h
    obtain ⟨r, hr⟩ : ∃ r, r = ([] : List Char) := ⟨_, rfl⟩
    rw [← hr] at h
    induction h with
    | none => simp [hr]
    | more hc _ ih => exact List.forall_mem_cons.2 ⟨hc, ih hr⟩
  · intro h
    induction s with
    | nil => exact .none
    | cons c s ih =>
      obtain ⟨hc, hs⟩ := List.forall_mem_cons.1 h
      exact .more hc (ih hs)

theorem Stands.suffix {G : List Char → List Char → Prop} {s r : List Char} (h : Stands G s r) :
    r <:+ s := by
  obtain ⟨w, rfl, -⟩ := h
  exact ⟨w, rfl⟩

/-- A list ends with its bracket. -/
theorem Listed.suffix {α : Type} {R : α → List Char → List Char → Prop} {bracket : Char}
    {first : Bool} {xs : List α} {s r : List Char} (h : Listed R bracket first xs s r)
    (hR : ∀ {x s r}, R x s r → r <:+ s) : bracket :: r <:+ s := by
  induction h with
  | close hspace => exact hspace.stands.suffix
  | item hgap hitem _ ih => exact (ih.trans (hR hitem)).trans hgap.stands.suffix

/-- A list or an object. -/
def Value.isCompound : Value → Bool
  | .list _ => true
  | .object _ => true
  | _ => false

theorem Written.suffix {v : Value} {s r : List Char} (h : Written v s r)
    (hv : v.isCompound = true) : ∃ bracket, isSpace bracket = false ∧ bracket :: r <:+ s := by
  cases h with
  | list hl =>
    have hsuffix := hl.suffix fun h => h.stands.suffix
    exact ⟨']', rfl, hsuffix.trans (List.suffix_cons ..)⟩
  | object hl =>
    have hsuffix := hl.suffix fun h =>
      (h.mono_of_lt (Nat.lt_succ_self _) fun _ => Written.stands).stands.suffix
    exact ⟨'}', rfl, hsuffix.trans (List.suffix_cons ..)⟩
  | _ => cases hv

/-- Space at the end of a text does not matter to the list or object that it is. -/
theorem document_append_space {v : Value} {s : List Char} {c : Char} (hv : v.isCompound = true)
    (hc : isSpace c = true) : Document v (s ++ [c]) ↔ Document v s := by
  constructor
  · rintro ⟨t, r, hspace, hwritten, hend⟩
    obtain ⟨bracket, hbracket, u, hu⟩ := hwritten.suffix hv
    obtain ⟨w, hw, hspaces⟩ := hspace.stands
    obtain ⟨w', rfl, hvalues⟩ := hwritten.stands
    have hend := space_nil_iff.1 hend
    rcases List.eq_nil_or_concat r with rfl | ⟨r, d, rfl⟩
    · -- then the bracket would be the space
      rw [← hu, ← List.append_assoc] at hw
      obtain ⟨-, rfl⟩ := List.append_singleton_inj.1 hw
      cases hc.symm.trans hbracket
    · rw [List.concat_eq_append, ← List.append_assoc, ← List.append_assoc] at hw
      obtain ⟨rfl, rfl⟩ := List.append_singleton_inj.1 hw
      rw [List.append_assoc]
      refine ⟨w' ++ r, r, hspaces _, hvalues r, space_nil_iff.2 fun x hx => hend x ?_⟩
      rw [List.concat_eq_append]
      exact List.mem_append_left _ hx
  · rintro ⟨t, r, hspace, hwritten, hend⟩
    obtain ⟨w, rfl, hspaces⟩ := hspace.stands
    obtain ⟨w', rfl, hvalues⟩ := hwritten.stands
    rw [List.append_assoc, List.append_assoc]
    refine ⟨w' ++ (r ++ [c]), r ++ [c], hspaces _, hvalues _, space_nil_iff.2 fun x hx => ?_⟩
    rcases List.mem_append.1 hx with hx | hx
    · exact space_nil_iff.1 hend x hx
    · rw [List.mem_singleton.1 hx, hc]

end LintHooks.Json
