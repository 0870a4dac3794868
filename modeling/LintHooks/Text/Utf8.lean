set_option autoImplicit false

/-!
# Text: reading bytes as UTF-8

Output of programs and contents of files are bytes.  `decodeLossy` reads them as
text whatever they are: every longest beginning of a sequence that no
continuation can complete becomes one replacement character.  `decode?` accepts
well-formed text only.
-/

namespace LintHooks.Text

/-- The character that stands for bytes that are no text. -/
def replacement : Char := '\uFFFD'

/-- A byte that continues a sequence. -/
def isTail (b : UInt8) : Bool := 0x80 ≤ b && b ≤ 0xBF

/-- What the first byte of a sequence fixes. -/
structure Lead where
  /-- How many bytes follow. -/
  tails : Nat
  /-- The bits the first byte contributes. -/
  bits : Nat
  /-- The least second byte; the bounds exclude overlong forms and surrogates. -/
  low : UInt8
  /-- The greatest second byte. -/
  high : UInt8

/-- The sequence a byte above ASCII begins, if it can begin one. -/
def Lead.of? (b : UInt8) : Option Lead :=
  if 0xC2 ≤ b && b ≤ 0xDF then some ⟨1, b.toNat - 0xC0, 0x80, 0xBF⟩
  else if b = 0xE0 then some ⟨2, 0, 0xA0, 0xBF⟩
  else if b = 0xED then some ⟨2, 0xD, 0x80, 0x9F⟩
  else if 0xE1 ≤ b && b ≤ 0xEF then some ⟨2, b.toNat - 0xE0, 0x80, 0xBF⟩
  else if b = 0xF0 then some ⟨3, 0, 0x90, 0xBF⟩
  else if 0xF1 ≤ b && b ≤ 0xF3 then some ⟨3, b.toNat - 0xF0, 0x80, 0xBF⟩
  else if b = 0xF4 then some ⟨3, 4, 0x80, 0x8F⟩
  else none

/-- The code point so far, continued by one more byte. -/
def extend (acc : Nat) (b : UInt8) : Nat := acc * 64 + (b.toNat - 0x80)

/-- The text of a list of bytes. -/
def decodeBytes : List UInt8 → List Char
  | [] => []
  | b :: s =>
    if b < 0x80 then Char.ofNat b.toNat :: decodeBytes s
    else match Lead.of? b with
      | none => replacement :: decodeBytes s
      | some lead => match s with
        | [] => [replacement]
        | c :: s₁ =>
          if !(lead.low ≤ c && c ≤ lead.high) then replacement :: decodeBytes (c :: s₁)
          else if lead.tails = 1 then Char.ofNat (extend lead.bits c) :: decodeBytes s₁
          else match s₁ with
            | [] => [replacement]
            | d :: s₂ =>
              if !isTail d then replacement :: decodeBytes (d :: s₂)
              else if lead.tails = 2 then
                Char.ofNat (extend (extend lead.bits c) d) :: decodeBytes s₂
              else match s₂ with
                | [] => [replacement]
                | e :: s₃ =>
                  if !isTail e then replacement :: decodeBytes (e :: s₃)
                  else Char.ofNat (extend (extend (extend lead.bits c) d) e) :: decodeBytes s₃
termination_by s => s.length
decreasing_by all_goals (simp only [List.length_cons]; omega)

/-- The text of some bytes; what is no text is replaced. -/
def decodeLossy (bytes : ByteArray) : String := String.ofList (decodeBytes bytes.toList)

/-- The text of some bytes, if they are well-formed. -/
def decode? (bytes : ByteArray) : Option String := String.fromUTF8? bytes

/-- The bytes of a text. -/
def encode (s : String) : ByteArray := s.toUTF8

end LintHooks.Text
