import LintHooks.Shell.Token
set_option autoImplicit false

/-!
# Shell: scripts

The commands of a script, read from its tokens.  What is not understood makes the
whole script unreadable.
-/

namespace LintHooks.Shell

/-- The rest of the tokens after something read from their beginning. -/
abbrev Parsed (α : Type) : Type := Option (α × List Token)

/-- Whether the first token is a plain word with a spelling. -/
def isWord (s : String) : List Token → Bool
  | ⟨.word [.plain w], _⟩ :: _ => w = s.toList
  | _ => false

/-- The tokens after a plain word. -/
def afterWord? (s : String) (ts : List Token) : Option (List Token) :=
  if isWord s ts then some ts.tail else none

/-- The tokens after the line ends at their beginning. -/
def skipLines : List Token → List Token
  | ⟨.newline, _⟩ :: ts => skipLines ts
  | ts => ts

/-- The tokens after the separators at their beginning. -/
def skipSeparators : List Token → List Token
  | ⟨.newline, _⟩ :: ts => skipSeparators ts
  | ⟨.semicolon, _⟩ :: ts => skipSeparators ts
  | ts => ts

/-- The words that end a list of commands. -/
def closingWords : List String := ["then", "elif", "else", "fi", "do", "done", "esac", "\x7d"]

/-- Whether a list of commands ends here. -/
def closesList (ts : List Token) : Bool :=
  match ts with
  | [] => true
  | ⟨.doubleSemicolon, _⟩ :: _ => true
  | ⟨.closeParen, _⟩ :: _ => true
  | ts => closingWords.any fun w => isWord w ts

/-- The redirections at the beginning of tokens. -/
def redirects? : List Token → Parsed (List Redirect)
  | ⟨.toFile stream add, line⟩ :: ⟨.word w, _⟩ :: ts =>
    (redirects? ts).map fun (rs, ts) => (⟨stream, .file w add, line⟩ :: rs, ts)
  | ⟨.toStream stream, line⟩ :: ⟨.word [.plain w], _⟩ :: ts =>
    match (String.ofList w).toNat? with
    | some n => (redirects? ts).map fun (rs, ts) => (⟨stream, .stream n, line⟩ :: rs, ts)
    | none => none
  | ⟨.toFile _ _, _⟩ :: _ => none
  | ⟨.toStream _, _⟩ :: _ => none
  | ts => some ([], ts)

/-- A command with redirections, if there are any. -/
def redirected (c : Command) (rs : List Redirect) : Command :=
  if rs.isEmpty then c else .redirected c rs

/-- The assignment that a word is. -/
def assignment? : Word → Option (String × Word)
  | .plain s :: ps =>
    let name := s.takeWhile isNameChar
    match s.dropWhile isNameChar with
    | '=' :: value =>
      if name = [] ∨ name.head?.any Char.isDigit then none
      else some (String.ofList name, if value = [] then ps else .plain value :: ps)
    | _ => none
  | _ => none

/-- What a simple command has collected so far. -/
structure Simple where
  assignments : List (String × Word) := []
  words : List Word := []
  redirects : List Redirect := []

/-- The words and redirections of a simple command.  `fuel` bounds the tokens. -/
def simple? : (fuel : Nat) → Simple → List Token → Parsed Simple
  | 0, _, _ => none
  | fuel + 1, c, ts =>
    match ts with
    | ⟨.word w, _⟩ :: rest =>
      match c.words, assignment? w with
      | [], some a => simple? fuel { c with assignments := c.assignments ++ [a] } rest
      | _, _ => simple? fuel { c with words := c.words ++ [w] } rest
    | _ =>
      match redirects? ts with
      | some ([], ts) => some (c, ts)
      | some (rs, ts) => simple? fuel { c with redirects := c.redirects ++ rs } ts
      | none => none

/-- The patterns of an arm of a choice, up to the parenthesis after them. -/
def patterns? : List Token → Parsed (List Word)
  | ⟨.word w, _⟩ :: ⟨.closeParen, _⟩ :: ts => some ([w], ts)
  | ⟨.word w, _⟩ :: ⟨.bar, _⟩ :: ts => (patterns? ts).map fun (ws, ts) => (w :: ws, ts)
  | _ => none

/-- The words of a loop, up to the separator after them. -/
def loopWords : List Token → List Word × List Token
  | ⟨.word w, _⟩ :: ts =>
    let (ws, ts) := loopWords ts
    (w :: ws, ts)
  | ts => ([], ts)

mutual

/-- A list of commands.  `fuel` bounds the depth of the reading, here and below. -/
def list? : (fuel : Nat) → List Token → Parsed Command
  | 0, _ => none
  | fuel + 1, ts =>
    let ts := skipSeparators ts
    if closesList ts then some (.nothing, ts)
    else
      match chain? fuel ts with
      | none => none
      | some (c, ts) =>
        match ts with
        | ⟨.semicolon, _⟩ :: _ | ⟨.newline, _⟩ :: _ =>
          (list? fuel ts).map fun (more, ts) => (.andThen c more, ts)
        | ts => if closesList ts then some (c, ts) else none

/-- Commands that depend on the success of those before them. -/
def chain? : (fuel : Nat) → List Token → Parsed Command
  | 0, _ => none
  | fuel + 1, ts =>
    match item? fuel ts with
    | none => none
    | some (c, ts) => links? fuel c ts

/-- The links of a chain after its first command. -/
def links? : (fuel : Nat) → Command → List Token → Parsed Command
  | 0, _, _ => none
  | fuel + 1, c, ts =>
    match ts with
    | ⟨.andAnd, _⟩ :: ts =>
      match item? fuel (skipLines ts) with
      | none => none
      | some (d, ts) => links? fuel (.ifOk c d) ts
    | ⟨.orOr, _⟩ :: ts =>
      match item? fuel (skipLines ts) with
      | none => none
      | some (d, ts) => links? fuel (.ifNot c d) ts
    | ts => some (c, ts)

/-- One command. -/
def item? : (fuel : Nat) → List Token → Parsed Command
  | 0, _ => none
  | fuel + 1, ts =>
    let closed (c : Command) (word : String) (ts : List Token) : Parsed Command :=
      match afterWord? word ts with
      | none => none
      | some ts => (redirects? ts).map fun (rs, ts) => (redirected c rs, ts)
    if isWord "!" ts then (item? fuel ts.tail).map fun (c, ts) => (.negated c, ts)
    else if isWord "\x7b" ts then
      match list? fuel ts.tail with
      | none => none
      | some (c, ts) => closed c "\x7d" ts
    else if isWord "if" ts then
      match branch? fuel ts.tail with
      | none => none
      | some (c, ts) => (redirects? ts).map fun (rs, ts) => (redirected c rs, ts)
    else if isWord "while" ts || isWord "until" ts then
      match list? fuel ts.tail with
      | none => none
      | some (condition, rest) =>
        match afterWord? "do" rest with
        | none => none
        | some rest =>
          match list? fuel rest with
          | none => none
          | some (body, rest) => closed (.loop (isWord "until" ts) condition body) "done" rest
    else if isWord "for" ts then
      match ts.tail with
      | ⟨.word [.plain name], _⟩ :: ts =>
        let (words, ts) :=
          if isWord "in" (skipLines ts) then
            let (ws, ts) := loopWords (skipLines ts).tail
            (some ws, ts)
          else (none, ts)
        match afterWord? "do" (skipSeparators ts) with
        | none => none
        | some ts =>
          match list? fuel ts with
          | none => none
          | some (body, ts) => closed (.each (String.ofList name) words body) "done" ts
      | _ => none
    else if isWord "case" ts then
      match ts.tail with
      | ⟨.word subject, _⟩ :: ts =>
        match afterWord? "in" (skipLines ts) with
        | none => none
        | some ts =>
          match arms? fuel subject ts with
          | none => none
          | some (c, ts) => closed c "esac" ts
      | _ => none
    else
      match simple? (ts.length + 1) {} ts with
      | none => none
      | some (c, rest) =>
        if c.words.isEmpty && c.assignments.isEmpty && c.redirects.isEmpty then none
        else
          let line := (ts.head?.map Token.line).getD 1
          some (redirected (.simple line c.assignments c.words) c.redirects, rest)

/-- A branch, after its first word. -/
def branch? : (fuel : Nat) → List Token → Parsed Command
  | 0, _ => none
  | fuel + 1, ts =>
    match list? fuel ts with
    | none => none
    | some (condition, ts) =>
      match afterWord? "then" ts with
      | none => none
      | some ts =>
        match list? fuel ts with
        | none => none
        | some (yes, ts) =>
          if isWord "fi" ts then some (.branch condition yes .nothing, ts.tail)
          else if isWord "elif" ts then
            (branch? fuel ts.tail).map fun (no, ts) => (.branch condition yes no, ts)
          else if isWord "else" ts then
            match list? fuel ts.tail with
            | none => none
            | some (no, ts) =>
              (afterWord? "fi" ts).map fun ts => (.branch condition yes no, ts)
          else none

/-- The arms of a choice. -/
def arms? : (fuel : Nat) → Word → List Token → Parsed Command
  | 0, _, _ => none
  | fuel + 1, subject, ts =>
    let ts := skipLines ts
    if isWord "esac" ts then some (.nothing, ts)
    else
      let ts := match ts with
        | ⟨.openParen, _⟩ :: ts => ts
        | ts => ts
      match patterns? ts with
      | none => none
      | some (patterns, ts) =>
        match list? fuel ts with
        | none => none
        | some (body, ts) =>
          match ts with
          | ⟨.doubleSemicolon, _⟩ :: ts =>
            (arms? fuel subject ts).map fun (rest, ts) => (.choose subject patterns body rest, ts)
          | ts => some (.choose subject patterns body .nothing, ts)

end

/-- The command that a script is. -/
def parseScript? (script : List Char) : Option Command := do
  let ts ← tokens? (2 * script.length + 2) 1 script
  match ← list? (8 * ts.length + 8) ts with
  | (c, []) => some c
  | _ => none

end LintHooks.Shell
