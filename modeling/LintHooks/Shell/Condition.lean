import LintHooks.FileSystem.Basic
set_option autoImplicit false

/-!
# Shell: conditions

What the command `test` decides: about files, texts and numbers.
-/

namespace LintHooks.Shell

/-- A question about one operand. -/
def unary? (fs : FileSystem) (workDir : Location) (op a : String) : Option Bool :=
  match op with
  | "-n" => some (a ≠ "")
  | "-z" => some (a = "")
  | "-f" => some (fs.isFile workDir a)
  | "-d" => some (fs.isDirectory workDir a)
  | "-e" => some (fs.pathExists workDir a)
  | "-x" => some (fs.isExecutable workDir a || fs.isDirectory workDir a)
  | "-r" => some (fs.pathExists workDir a)
  | "-w" => some (fs.pathExists workDir a)
  | "-L" | "-h" =>
    some (match fs.locate workDir a { follow := false } with
      | .ok loc =>
        match fs.get? loc with
        | some (.link _) => true
        | _ => false
      | .error _ => false)
  | "-s" =>
    some (match fs.entry? workDir a with
      | some (.file content _) => content.size ≠ 0
      | some _ => true
      | none => false)
  | _ => none

/-- The number that an operand denotes. -/
def operand (a : String) : Except String Int :=
  match a.toInt? with
  | some n => .ok n
  | none => .error ("Illegal number: " ++ a)

/-- A question about two operands; `none` if it is none. -/
def binary? (a op b : String) : Option (Except String Bool) :=
  let compare (r : Int → Int → Bool) : Option (Except String Bool) :=
    some (do .ok (r (← operand a) (← operand b)))
  match op with
  | "=" => some (.ok (a = b))
  | "!=" => some (.ok (a ≠ b))
  | "-eq" => compare fun x y => x = y
  | "-ne" => compare fun x y => x ≠ y
  | "-lt" => compare fun x y => x < y
  | "-le" => compare fun x y => x ≤ y
  | "-gt" => compare fun x y => x > y
  | "-ge" => compare fun x y => x ≥ y
  | _ => none

/-- What `test` decides, or what is wrong with its arguments. -/
def condition (fs : FileSystem) (workDir : Location) (args : List String) : Except String Bool :=
  let unexpected (a : String) : Except String Bool := .error (a ++ ": unexpected operator")
  let one (op a : String) : Except String Bool :=
    if op = "!" then .ok (a = "")
    else match unary? fs workDir op a with
      | some b => .ok b
      | none => unexpected op
  match args with
  | [] => .ok false
  | [a] => .ok (a ≠ "")
  | [op, a] => one op a
  | [a, op, b] =>
    match binary? a op b with
    | some result => result
    | none => if a = "!" then (one op b).map not else unexpected op
  | ["!", a, op, b] => ((binary? a op b).getD (unexpected op)).map not
  | a :: _ => unexpected a

end LintHooks.Shell
