import LintHooks.Text.Utf8
set_option autoImplicit false

/-!
# Shell: formatted output

The bytes that `echo` and `printf` write.  Escapes can name any byte.
-/

namespace LintHooks.Shell

/-- Whether a character is an octal digit. -/
def isOctal (c : Char) : Bool := '0' ≤ c && c ≤ '7'

/-- The value of octal digits. -/
def octalValue (ds : List Char) : Nat :=
  ds.foldl (fun n c => 8 * n + (c.toNat - '0'.toNat)) 0

/-- The bytes of a character. -/
def bytesOfChar (c : Char) : List UInt8 := (Text.encode (String.singleton c)).toList

/-- The byte that a letter stands for after a backslash. -/
def letterByte? : Char → Option UInt8
  | 'a' => some 7
  | 'b' => some 8
  | 'f' => some 12
  | 'n' => some 10
  | 'r' => some 13
  | 't' => some 9
  | 'v' => some 11
  | '\\' => some 92
  | _ => none

/-- What an escape stands for, after its backslash, and the rest.  An octal code may have up to
three digits, and `extra` more if it begins with a zero. -/
def escape (extra : Nat) (s : List Char) : List UInt8 × List Char :=
  match s with
  | [] => ([92], [])
  | c :: rest =>
    if isOctal c then
      let most := if c = '0' then 3 + extra else 3
      let ds := (s.take most).takeWhile isOctal
      ([UInt8.ofNat (octalValue ds)], s.drop ds.length)
    else match letterByte? c with
      | some b => ([b], rest)
      | none => (92 :: bytesOfChar c, rest)

theorem length_escape (extra : Nat) (s : List Char) : (escape extra s).2.length ≤ s.length := by
  unfold escape
  split
  · simp
  · simp only
    split
    · simp
    · split <;> simp

/-- The bytes of a text with escapes, and whether a `\c` in it ends all output. -/
def escaped (s : List Char) : List UInt8 × Bool :=
  match s with
  | [] => ([], false)
  | '\\' :: 'c' :: _ => ([], true)
  | '\\' :: s =>
    have := length_escape 1 s
    let (more, stop) := escaped (escape 1 s).2
    ((escape 1 s).1 ++ more, stop)
  | c :: s =>
    let (more, stop) := escaped s
    (bytesOfChar c ++ more, stop)
termination_by s.length
decreasing_by all_goals simp_wf <;> omega

/-- What `echo` writes. -/
def echoBytes (args : List String) : List UInt8 :=
  let (newline, args) := match args with
    | "-n" :: more => (false, more)
    | args => (true, args)
  let (bytes, stop) := escaped (String.intercalate " " args).toList
  if newline && !stop then bytes ++ [10] else bytes

/-- The text of a number argument. -/
def numberText (arg : String) : String :=
  toString ((if arg.toList.head? = some '+' then (arg.drop 1).toString else arg).toInt?.getD 0)

/-- What a format writes once, what arguments it leaves, and whether it is to be used again. -/
def formatOnce : List Char → List String → Bool → List UInt8 × List String × Bool
  | [], args, took => ([], args, took)
  | '%' :: '%' :: s, args, took =>
    let (bytes, rest) := formatOnce s args took
    (37 :: bytes, rest)
  | '%' :: 's' :: s, args, _ =>
    let (bytes, rest) := formatOnce s args.tail true
    ((Text.encode (args.headD "")).toList ++ bytes, rest)
  | '%' :: 'b' :: s, args, _ =>
    let (written, stop) := escaped (args.headD "").toList
    if stop then (written, [], false)
    else
      let (bytes, rest) := formatOnce s args.tail true
      (written ++ bytes, rest)
  | '%' :: 'c' :: s, args, _ =>
    let (bytes, rest) := formatOnce s args.tail true
    (((args.headD "").toList.take 1).flatMap bytesOfChar ++ bytes, rest)
  | '%' :: 'd' :: s, args, _ =>
    let (bytes, rest) := formatOnce s args.tail true
    ((Text.encode (numberText (args.headD "0"))).toList ++ bytes, rest)
  | '\\' :: s, args, took =>
    have := length_escape 0 s
    let (bytes, rest) := formatOnce (escape 0 s).2 args took
    ((escape 0 s).1 ++ bytes, rest)
  | c :: s, args, took =>
    let (bytes, rest) := formatOnce s args took
    (bytesOfChar c ++ bytes, rest)
termination_by s => s.length
decreasing_by all_goals simp_wf <;> omega

/-- What a format writes: it is used again while arguments are left.  `fuel` bounds how often. -/
def formatAll (format : List Char) : (fuel : Nat) → List String → List UInt8
  | 0, _ => []
  | fuel + 1, args =>
    let (bytes, rest, took) := formatOnce format args false
    if took && !rest.isEmpty then bytes ++ formatAll format fuel rest else bytes

/-- What `printf` writes. -/
def printfBytes : List String → List UInt8
  | [] => []
  | format :: args => formatAll format.toList (args.length + 1) args

end LintHooks.Shell
