import LintHooks.Text.Utf8
import Mathlib.Tactic.SplitIfs
set_option autoImplicit false

/-!
# Text: well-formed UTF-8 is read as it is

Reading bytes as text replaces what is no text, and nothing else: the bytes of a text are read as
that text.  This is shown for one character at a time, by the number of its bytes.

The main result is `decodeLossy_encode`.  By `decodeBytes_utf8EncodeChar` the bytes of the first
character are read as it, whatever bytes follow, and an induction on the characters does the rest
(`decodeBytes_flatMap`).  A character has one, two, three or four bytes, and for each of these
numbers there is a lemma (`decodeBytes_fourBytes` is the last one), which reads the first byte for
how many follow and what the next may be (`Lead.of?`), and puts the digits together again
(`extend_ofNat`).
-/

namespace LintHooks.Text

variable {b c d e : UInt8} {lead : Lead} (s : List UInt8)

/-! ## Sequences of bytes -/

namespace Lead

theorem of?_two (hlow : 0xC2 ≤ b) (hhigh : b ≤ 0xDF) :
    of? b = some ⟨1, b.toNat - 0xC0, 0x80, 0xBF⟩ := by
  rw [of?, if_pos (by simp [hlow, hhigh])]

/-- Of three bytes the second one is not too small after the least first one, and none that would
begin a surrogate. -/
theorem of?_three (hlow : 0xE0 ≤ b) (hhigh : b ≤ 0xEF) :
    of? b = some ⟨2, b.toNat - 0xE0, if b = 0xE0 then 0xA0 else 0x80,
      if b = 0xED then 0x9F else 0xBF⟩ := by
  have hnotTwo : ¬ (0xC2 ≤ b && b ≤ 0xDF) = true := by
    simp only [Bool.and_eq_true, decide_eq_true_eq, UInt8.le_iff_toNat_le] at *
    simp at *
    omega
  rw [of?, if_neg hnotTwo]
  by_cases hleast : b = 0xE0
  · subst hleast
    rfl
  by_cases hsurrogate : b = 0xED
  · subst hsurrogate
    rfl
  have hmiddle : (0xE1 ≤ b && b ≤ 0xEF) = true := by
    have hne : b.toNat ≠ 0xE0 := fun h => hleast (UInt8.toNat_inj.1 h)
    simp only [Bool.and_eq_true, decide_eq_true_eq, UInt8.le_iff_toNat_le] at *
    simp at *
    omega
  rw [if_neg hleast, if_neg hsurrogate, if_pos hmiddle, if_neg hleast, if_neg hsurrogate]

/-- Of four bytes the second one is not too small after the least first one, and not too great after
the greatest. -/
theorem of?_four (hlow : 0xF0 ≤ b) (hhigh : b ≤ 0xF4) :
    of? b = some ⟨3, b.toNat - 0xF0, if b = 0xF0 then 0x90 else 0x80,
      if b = 0xF4 then 0x8F else 0xBF⟩ := by
  have hcases : b = 0xF0 ∨ b = 0xF1 ∨ b = 0xF2 ∨ b = 0xF3 ∨ b = 0xF4 := by
    simp only [← UInt8.toNat_inj, UInt8.le_iff_toNat_le] at *
    simp at *
    omega
  rcases hcases with rfl | rfl | rfl | rfl | rfl <;> rfl

end Lead

theorem decodeBytes_one (hb : b < 0x80) :
    decodeBytes (b :: s) = Char.ofNat b.toNat :: decodeBytes s := by
  rw [decodeBytes.eq_def]
  dsimp only
  rw [if_pos hb]

theorem decodeBytes_two (hb : ¬ b < 0x80) (hlead : Lead.of? b = some lead) (htails : lead.tails = 1)
    (hc : lead.low ≤ c ∧ c ≤ lead.high) :
    decodeBytes (b :: c :: s) = Char.ofNat (extend lead.bits c) :: decodeBytes s := by
  rw [decodeBytes.eq_def]
  dsimp only
  rw [if_neg hb, hlead]
  dsimp only
  rw [if_neg (by simp [hc]), if_pos htails]

theorem decodeBytes_three (hb : ¬ b < 0x80) (hlead : Lead.of? b = some lead)
    (htails : lead.tails = 2) (hc : lead.low ≤ c ∧ c ≤ lead.high) (hd : isTail d = true) :
    decodeBytes (b :: c :: d :: s) =
      Char.ofNat (extend (extend lead.bits c) d) :: decodeBytes s := by
  rw [decodeBytes.eq_def]
  dsimp only
  rw [if_neg hb, hlead]
  dsimp only
  rw [if_neg (by simp [hc]), if_neg (by omega), if_neg (by simp [hd]), if_pos htails]

theorem decodeBytes_four (hb : ¬ b < 0x80) (hlead : Lead.of? b = some lead)
    (htails : lead.tails = 3) (hc : lead.low ≤ c ∧ c ≤ lead.high) (hd : isTail d = true)
    (he : isTail e = true) :
    decodeBytes (b :: c :: d :: e :: s) =
      Char.ofNat (extend (extend (extend lead.bits c) d) e) :: decodeBytes s := by
  rw [decodeBytes.eq_def]
  dsimp only
  rw [if_neg hb, hlead]
  dsimp only
  rw [if_neg (by simp [hc]), if_neg (by omega), if_neg (by simp [hd]), if_neg (by omega),
    if_neg (by simp [he])]

/-! ## Characters -/

theorem toNat_ofNat {n : Nat} (h : n < 256) : (UInt8.ofNat n).toNat = n :=
  UInt8.toNat_ofNat_of_lt' h

theorem ofNat_mem {low high : UInt8} {n : Nat} (hlow : low.toNat ≤ n) (hhigh : n ≤ high.toNat) :
    low ≤ UInt8.ofNat n ∧ UInt8.ofNat n ≤ high := by
  have hn : (UInt8.ofNat n).toNat = n := toNat_ofNat (Nat.lt_of_le_of_lt hhigh high.toNat_lt)
  rw [UInt8.le_iff_toNat_le, UInt8.le_iff_toNat_le, hn]
  exact ⟨hlow, hhigh⟩

theorem eq_toNat_of_ofNat {n : Nat} (h : n < 256) (hb : UInt8.ofNat n = b) : n = b.toNat := by
  rw [← hb, toNat_ofNat h]

theorem isTail_ofNat {n : Nat} (h : n < 64) : isTail (UInt8.ofNat (n + 128)) = true := by
  obtain ⟨hlow, hhigh⟩ : 0x80 ≤ UInt8.ofNat (n + 128) ∧ UInt8.ofNat (n + 128) ≤ 0xBF :=
    ofNat_mem (Nat.le_add_left ..) (Nat.add_le_add_right (Nat.le_of_lt_succ h) 128)
  rw [isTail, decide_eq_true hlow, decide_eq_true hhigh]
  rfl

theorem extend_ofNat {n : Nat} (h : n < 64) (acc : Nat) :
    extend acc (UInt8.ofNat (n + 128)) = acc * 64 + n := by
  have hn : (UInt8.ofNat (n + 128)).toNat = n + 128 := toNat_ofNat (by omega)
  unfold extend
  omega

theorem not_lt_of_ofNat {n : Nat} (h : 128 ≤ n) (hn : n < 256) : ¬ UInt8.ofNat n < 0x80 := by
  rw [UInt8.lt_iff_toNat_lt, toNat_ofNat hn]
  exact Nat.not_lt.2 h

section Sizes

variable {v : Nat}

theorem decodeBytes_oneByte (h : v ≤ 127) :
    decodeBytes (UInt8.ofNat v :: s) = Char.ofNat v :: decodeBytes s := by
  have hascii : UInt8.ofNat v < 0x80 := by
    rw [UInt8.lt_iff_toNat_lt, toNat_ofNat (by omega)]
    exact Nat.lt_succ_of_le h
  rw [decodeBytes_one s hascii, toNat_ofNat (by omega)]

theorem decodeBytes_twoBytes (hlow : 127 < v) (hhigh : v ≤ 2047) :
    decodeBytes (UInt8.ofNat (v / 64 % 32 + 192) :: UInt8.ofNat (v % 64 + 128) :: s) =
      Char.ofNat v :: decodeBytes s := by
  obtain ⟨hleast, hgreatest⟩ := @ofNat_mem 0xC2 0xDF (v / 64 % 32 + 192) (by simp; omega)
    (by simp; omega)
  have hlead := Lead.of?_two hleast hgreatest
  rw [toNat_ofNat (by omega), Nat.add_sub_cancel] at hlead
  have hsecond := @ofNat_mem 0x80 0xBF (v % 64 + 128) (by simp) (by simp; omega)
  have hbits : v / 64 % 32 * 64 + v % 64 = v := by omega
  rw [decodeBytes_two s (not_lt_of_ofNat (by omega) (by omega)) hlead rfl hsecond,
    extend_ofNat (by omega), hbits]

theorem decodeBytes_threeBytes (hlow : 2047 < v) (hhigh : v ≤ 65535)
    (hvalid : v < 0xD800 ∨ 0xDFFF < v) :
    decodeBytes (UInt8.ofNat (v / 4096 % 16 + 224) :: UInt8.ofNat (v / 64 % 64 + 128) ::
      UInt8.ofNat (v % 64 + 128) :: s) = Char.ofNat v :: decodeBytes s := by
  obtain ⟨hleast, hgreatest⟩ := @ofNat_mem 0xE0 0xEF (v / 4096 % 16 + 224) (by simp)
    (by simp; omega)
  have hlead := Lead.of?_three hleast hgreatest
  rw [toNat_ofNat (by omega), Nat.add_sub_cancel] at hlead
  have hsecond : (if UInt8.ofNat (v / 4096 % 16 + 224) = 0xE0 then 0xA0 else 0x80) ≤
        UInt8.ofNat (v / 64 % 64 + 128) ∧ UInt8.ofNat (v / 64 % 64 + 128) ≤
      if UInt8.ofNat (v / 4096 % 16 + 224) = 0xED then 0x9F else 0xBF := by
    -- The lower bound excludes what two bytes could hold, the upper one the surrogates.
    refine ofNat_mem ?_ ?_ <;> split_ifs with hfirst
    · have hzero : v / 4096 % 16 + 224 = 224 := eq_toNat_of_ofNat (by omega) hfirst
      have hlong : 160 ≤ v / 64 % 64 + 128 := by omega
      exact hlong
    · exact Nat.le_add_left ..
    · have hsurrogate : v / 4096 % 16 + 224 = 237 := eq_toNat_of_ofNat (by omega) hfirst
      have hbelow : v / 64 % 64 + 128 ≤ 159 := by omega
      exact hbelow
    · have htail : v / 64 % 64 + 128 ≤ 191 := by omega
      exact htail
  have hbits : (v / 4096 % 16 * 64 + v / 64 % 64) * 64 + v % 64 = v := by omega
  rw [decodeBytes_three s (not_lt_of_ofNat (by omega) (by omega)) hlead rfl hsecond
    (isTail_ofNat (by omega)), extend_ofNat (by omega), extend_ofNat (by omega), hbits]

theorem decodeBytes_fourBytes (hlow : 65535 < v) (hhigh : v < 0x110000) :
    decodeBytes (UInt8.ofNat (v / 262144 % 8 + 240) :: UInt8.ofNat (v / 4096 % 64 + 128) ::
      UInt8.ofNat (v / 64 % 64 + 128) :: UInt8.ofNat (v % 64 + 128) :: s) =
        Char.ofNat v :: decodeBytes s := by
  obtain ⟨hleast, hgreatest⟩ := @ofNat_mem 0xF0 0xF4 (v / 262144 % 8 + 240) (by simp)
    (by simp; omega)
  have hlead := Lead.of?_four hleast hgreatest
  rw [toNat_ofNat (by omega), Nat.add_sub_cancel] at hlead
  have hsecond : (if UInt8.ofNat (v / 262144 % 8 + 240) = 0xF0 then 0x90 else 0x80) ≤
        UInt8.ofNat (v / 4096 % 64 + 128) ∧ UInt8.ofNat (v / 4096 % 64 + 128) ≤
      if UInt8.ofNat (v / 262144 % 8 + 240) = 0xF4 then 0x8F else 0xBF := by
    -- The lower bound excludes what three bytes could hold, the upper one what is no character.
    refine ofNat_mem ?_ ?_ <;> split_ifs with hfirst
    · have hzero : v / 262144 % 8 + 240 = 240 := eq_toNat_of_ofNat (by omega) hfirst
      have hlong : 144 ≤ v / 4096 % 64 + 128 := by omega
      exact hlong
    · exact Nat.le_add_left ..
    · have hfour : v / 262144 % 8 + 240 = 244 := eq_toNat_of_ofNat (by omega) hfirst
      have hbelow : v / 4096 % 64 + 128 ≤ 143 := by omega
      exact hbelow
    · have htail : v / 4096 % 64 + 128 ≤ 191 := by omega
      exact htail
  have hbits : ((v / 262144 % 8 * 64 + v / 4096 % 64) * 64 + v / 64 % 64) * 64 + v % 64 = v := by
    omega
  rw [decodeBytes_four s (not_lt_of_ofNat (by omega) (by omega)) hlead rfl hsecond
    (isTail_ofNat (by omega)) (isTail_ofNat (by omega)), extend_ofNat (by omega),
    extend_ofNat (by omega), extend_ofNat (by omega), hbits]

end Sizes

/-- The bytes of a character are read as that character. -/
theorem decodeBytes_utf8EncodeChar (c : Char) :
    decodeBytes (String.utf8EncodeChar c ++ s) = c :: decodeBytes s := by
  have hc : Char.ofNat c.val.toNat = c := c.ofNat_toNat
  have hvalid : c.val.toNat < 0xD800 ∨ 0xDFFF < c.val.toNat ∧ c.val.toNat < 0x110000 := c.valid
  unfold String.utf8EncodeChar
  dsimp only
  split_ifs with h₁ h₂ h₃
  · rw [List.singleton_append, decodeBytes_oneByte s h₁, hc]
  · rw [List.cons_append, List.singleton_append, decodeBytes_twoBytes s (by omega) h₂, hc]
  · rw [List.cons_append, List.cons_append, List.singleton_append,
      decodeBytes_threeBytes s (by omega) h₃ (by omega), hc]
  · rw [List.cons_append, List.cons_append, List.cons_append, List.singleton_append,
      decodeBytes_fourBytes s (by omega) (by omega), hc]

/-! ## Texts -/

theorem decodeBytes_flatMap (l : List Char) :
    decodeBytes (l.flatMap String.utf8EncodeChar) = l := by
  induction l with
  | nil => rw [List.flatMap_nil, decodeBytes.eq_def]
  | cons c l ih => rw [List.flatMap_cons, decodeBytes_utf8EncodeChar, ih]

theorem toList_loop (bytes : ByteArray) (i : Nat) (acc : List UInt8) :
    ByteArray.toList.loop bytes i acc = acc.reverse ++ bytes.data.toList.drop i := by
  fun_induction ByteArray.toList.loop bytes i acc with
  | case1 i acc hi ih =>
    have hlength : i < bytes.data.toList.length := by simpa using hi
    rw [ih, List.drop_eq_getElem_cons hlength]
    simp [ByteArray.get!, hi]
  | case2 i acc hi =>
    rw [List.drop_eq_nil_of_le (by simpa using Nat.le_of_not_lt hi), List.append_nil]

theorem toList_toByteArray (bytes : List UInt8) : bytes.toByteArray.toList = bytes := by
  rw [ByteArray.toList, toList_loop, List.toList_data_toByteArray]
  rfl

/-- The bytes of a text are read as that text. -/
theorem decodeLossy_encode (s : String) : decodeLossy (encode s) = s := by
  have hbytes : encode s = (s.toList.flatMap String.utf8EncodeChar).toByteArray :=
    String.utf8Encode_toList.symm
  rw [decodeLossy, hbytes, toList_toByteArray, decodeBytes_flatMap, String.ofList_toList]

end LintHooks.Text
