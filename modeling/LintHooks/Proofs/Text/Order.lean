import LintHooks.Proofs.Text.Utf8
import Mathlib.Tactic.SplitIfs
set_option autoImplicit false

/-!
# Text: the order of the bytes

Texts are in the same order as their bytes.  In UTF-8 a greater character has greater bytes: where
two characters take the same number of bytes the digits of their numbers decide, from the first one
on, and where they do not the first byte does.

The main result is `lt_iff_bytesOf`.  Of two texts the first characters that differ decide, and
`utf8EncodeChar_append_lt` says of these two that the smaller one has the smaller bytes, whatever
comes after them.  It goes through the numbers of bytes that characters take, and compares the
digits with `ofNat_cons_lt`, one byte after the other.
-/

namespace LintHooks.Text

/-- The bytes of a text, in order. -/
def bytesOf (s : String) : List UInt8 := (encode s).toList

theorem bytesOf_eq (s : String) : bytesOf s = s.toList.flatMap String.utf8EncodeChar := by
  have hbytes : encode s = (s.toList.flatMap String.utf8EncodeChar).toByteArray :=
    String.utf8Encode_toList.symm
  rw [bytesOf, hbytes, toList_toByteArray]

section Digits

variable {m n : Nat} {s t : List UInt8}

/-- Of two sequences of bytes the one with the smaller first byte comes first, or else the rest
decides. -/
theorem ofNat_cons_lt (hn : n < 256) (hle : m ≤ n) (hrest : m = n → s < t) :
    UInt8.ofNat m :: s < UInt8.ofNat n :: t := by
  rw [List.cons_lt_cons_iff]
  rcases Nat.lt_or_eq_of_le hle with hlt | rfl
  · rw [UInt8.lt_iff_toNat_lt, toNat_ofNat (Nat.lt_trans hlt hn), toNat_ofNat hn]
    exact .inl hlt
  · exact .inr ⟨rfl, hrest rfl⟩

/-- The bytes of the smaller character come first, whatever follows. -/
theorem utf8EncodeChar_append_lt {c d : Char} (h : c < d) (s t : List UInt8) :
    String.utf8EncodeChar c ++ s < String.utf8EncodeChar d ++ t := by
  have hlt : c.val.toNat < d.val.toNat := h
  have hd : d.val.toNat < 0x110000 := by
    have hvalid : d.val.toNat < 0xD800 ∨ 0xDFFF < d.val.toNat ∧ d.val.toNat < 0x110000 := d.valid
    omega
  unfold String.utf8EncodeChar
  generalize c.val.toNat = v at hlt
  generalize d.val.toNat = w at hlt hd
  dsimp only
  -- byte for byte the smaller character has the smaller one or an equal one, and not all are equal
  split_ifs <;> simp only [List.cons_append, List.nil_append] <;>
    repeat refine ofNat_cons_lt (by omega) (by omega) fun _ => ?_
  all_goals omega

end Digits

theorem utf8EncodeChar_ne_nil (c : Char) : String.utf8EncodeChar c ≠ [] := by
  unfold String.utf8EncodeChar
  dsimp only
  split_ifs <;> exact List.cons_ne_nil _ _

theorem flatMap_lt_of_lt {l m : List Char} (h : l < m) :
    l.flatMap String.utf8EncodeChar < m.flatMap String.utf8EncodeChar := by
  induction h with
  | @nil c m =>
    obtain ⟨b, rest, hbytes⟩ := List.exists_cons_of_ne_nil (utf8EncodeChar_ne_nil c)
    rw [List.flatMap_nil, List.flatMap_cons, hbytes]
    exact .nil
  | @cons c l m _ ih =>
    rw [List.flatMap_cons, List.flatMap_cons]
    exact List.append_left_lt ih
  | rel h =>
    rw [List.flatMap_cons, List.flatMap_cons]
    exact utf8EncodeChar_append_lt h _ _

/-- One text comes before another if its bytes do. -/
theorem lt_iff_bytesOf {s t : String} : s < t ↔ bytesOf s < bytesOf t := by
  have hmono {s t : String} (h : s < t) : bytesOf s < bytesOf t := by
    rw [bytesOf_eq, bytesOf_eq]
    exact flatMap_lt_of_lt (String.lt_iff.1 h)
  refine ⟨hmono, fun h => ?_⟩
  by_cases hlt : s < t
  · exact hlt
  by_cases hgt : t < s
  · exact absurd (hmono hgt) (List.lt_asymm h)
  · obtain rfl : s = t := String.le_antisymm hgt hlt
    exact absurd h (List.lt_irrefl _)

theorem le_iff_bytesOf {s t : String} : s ≤ t ↔ bytesOf s ≤ bytesOf t :=
  not_congr lt_iff_bytesOf

end LintHooks.Text
