import LintHooks.Json.Fault
set_option autoImplicit false

/-!
# JSON: texts

A text stands between double quotes.  A backslash begins an escape; an escape by
code stands for a character of the basic plane, and two of them in a row, both
halves of a pair, stand for one beyond it.  Where the value does not matter a text
is skipped, and then its codes need not make sense.
-/

namespace LintHooks.Json

/-- The value of a hexadecimal digit. -/
def hexValue? (c : Char) : Option Nat :=
  if c.isDigit then some (c.toNat - '0'.toNat)
  else if 'a' ≤ c && c ≤ 'f' then some (c.toNat - 'a'.toNat + 10)
  else if 'A' ≤ c && c ≤ 'F' then some (c.toNat - 'A'.toNat + 10)
  else none

/-- The four digits of a code. -/
def readCode (s : List Char) : Except Fault (Nat × List Char) :=
  match s with
  | a :: b :: c :: d :: rest =>
    match hexValue? a, hexValue? b, hexValue? c, hexValue? d with
    | some a, some b, some c, some d => .ok (((a * 16 + b) * 16 + c) * 16 + d, rest)
    | _, _, _, _ => .error { reason := .badEscape, rest := s, read := 4 }
  | _ =>
    if Fault.size s < 4 then faultAt .endInText []
    else .error { reason := .badEscape, rest := s, read := 4 }

/-- Whether a code is the first half of a pair. -/
def isHighHalf (n : Nat) : Bool := 0xD800 ≤ n && n ≤ 0xDBFF

/-- Whether a code is the second half of a pair. -/
def isLowHalf (n : Nat) : Bool := 0xDC00 ≤ n && n ≤ 0xDFFF

/-- The character of a pair of halves. -/
def pairedChar (high low : Nat) : Char :=
  Char.ofNat ((high - 0xD800) * 0x400 + (low - 0xDC00) + 0x10000)

/-- The second half of a pair. -/
def readLowHalf (s : List Char) : Except Fault (Nat × List Char) :=
  match s with
  | '\\' :: 'u' :: s =>
    match readCode s with
    | .error f => .error f
    | .ok (low, rest) => if isLowHalf low then .ok (low, rest) else faultAt .loneSurrogate rest
  | ['\\'] => faultAt .endInText []
  | '\\' :: s => faultAhead .escapeCutShort s
  | [] => faultAt .endInText []
  | s => faultAhead .escapeCutShort s

/-- The character given by one code or two. -/
def readCodes (s : List Char) : Except Fault (Char × List Char) :=
  match readCode s with
  | .error f => .error f
  | .ok (n, s) =>
    if isLowHalf n then faultAt .loneSurrogate s
    else if isHighHalf n then
      match readLowHalf s with
      | .error f => .error f
      | .ok (low, s) => .ok (pairedChar n low, s)
    else .ok (Char.ofNat n, s)

/-- The character of an escape that is a single letter. -/
def letterEscape? : Char → Option Char
  | '"' => some '"'
  | '\\' => some '\\'
  | '/' => some '/'
  | 'b' => some '\x08'
  | 'f' => some '\x0c'
  | 'n' => some '\n'
  | 'r' => some '\r'
  | 't' => some '\t'
  | _ => none

/-- An escape, after its backslash. -/
def readEscape : List Char → Except Fault (Char × List Char)
  | [] => faultAt .endInText []
  | c :: s =>
    if c = 'u' then readCodes s
    else match letterEscape? c with
      | some x => .ok (x, s)
      | none => faultAhead .badEscape (c :: s)

theorem length_of_readCode {s rest : List Char} {n : Nat} (h : readCode s = .ok (n, rest)) :
    rest.length < s.length := by
  unfold readCode at h
  split at h
  · split at h
    · simp at h; obtain ⟨_, rfl⟩ := h; simp; omega
    · simp at h
  · split at h <;> simp [faultAt] at h

theorem length_of_readLowHalf {s rest : List Char} {n : Nat}
    (h : readLowHalf s = .ok (n, rest)) : rest.length < s.length := by
  unfold readLowHalf at h
  split at h
  · split at h
    · simp at h
    · rename_i hc
      have := length_of_readCode hc
      split at h
      · simp at h; obtain ⟨_, rfl⟩ := h; simp; omega
      · simp [faultAt] at h
  all_goals simp [faultAt, faultAhead] at h

theorem length_of_readCodes {s rest : List Char} {c : Char} (h : readCodes s = .ok (c, rest)) :
    rest.length < s.length := by
  unfold readCodes at h
  split at h
  · simp at h
  · rename_i hc
    have hl := length_of_readCode hc
    split at h
    · simp [faultAt] at h
    · split at h
      · split at h
        · simp at h
        · rename_i hp
          have := length_of_readLowHalf hp
          simp at h; obtain ⟨_, rfl⟩ := h; omega
      · simp at h; obtain ⟨_, rfl⟩ := h; exact hl

theorem length_of_readEscape {s rest : List Char} {c : Char} (h : readEscape s = .ok (c, rest)) :
    rest.length < s.length := by
  cases s with
  | nil => simp [readEscape, faultAt] at h
  | cons x s =>
    simp only [readEscape] at h
    split at h
    · have := length_of_readCodes h; simp; omega
    · split at h
      · simp at h; obtain ⟨_, rfl⟩ := h; simp
      · simp [faultAhead] at h

/-- A text, after its opening quote. -/
def readText : List Char → Except Fault (List Char × List Char)
  | [] => faultAt .endInText []
  | '"' :: s => .ok ([], s)
  | '\\' :: s =>
    match h : readEscape s with
    | .error f => .error f
    | .ok (c, rest) =>
      have := length_of_readEscape h
      match readText rest with
      | .error f => .error f
      | .ok (cs, rest) => .ok (c :: cs, rest)
  | c :: s =>
    if c.toNat < 0x20 then faultAt .controlCharacter s
    else match readText s with
      | .error f => .error f
      | .ok (cs, rest) => .ok (c :: cs, rest)
termination_by s => s.length
decreasing_by all_goals simp_wf <;> omega

/-- The rest after an escape whose value does not matter. -/
def skipEscape : List Char → Except Fault (List Char)
  | [] => faultAt .endInText []
  | c :: s =>
    if c = 'u' then (readCode s).map Prod.snd
    else match letterEscape? c with
      | some _ => .ok s
      | none => faultAhead .badEscape (c :: s)

theorem length_of_skipEscape {s rest : List Char} (h : skipEscape s = .ok rest) :
    rest.length < s.length := by
  cases s with
  | nil => simp [skipEscape, faultAt] at h
  | cons x s =>
    simp only [skipEscape] at h
    split at h
    · cases hc : readCode s with
      | error f => simp [hc, Except.map] at h
      | ok p =>
        obtain ⟨n, r⟩ := p
        have := length_of_readCode hc
        simp [hc, Except.map] at h; subst h; simp; omega
    · split at h
      · simp at h; subst h; simp
      · simp [faultAhead] at h

/-- The rest after a text whose value does not matter, after its opening quote. -/
def skipText : List Char → Except Fault (List Char)
  | [] => faultAt .endInText []
  | '"' :: s => .ok s
  | '\\' :: s =>
    match h : skipEscape s with
    | .error f => .error f
    | .ok rest =>
      have := length_of_skipEscape h
      skipText rest
  | c :: s => if c.toNat < 0x20 then faultAt .controlCharacter (c :: s) else skipText s
termination_by s => s.length
decreasing_by all_goals simp_wf <;> omega

end LintHooks.Json
