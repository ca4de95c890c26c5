import LintGate.Shell.Word
import LintGate.Text.Pieces

/-!
# Reading shell scripts

`Shell.parse?` reads a script. The reader goes down the grammar from lists of commands to simple
commands; each function answers what it read with what is left of the text.
-/

namespace LintGate.Shell

/-- Where a list of commands ends. -/
inductive Ending where
  | script
  | parenthesis
  /-- At one of some words. -/
  | words (ws : List String)
  /-- At the end of a branch. -/
  | branch
deriving DecidableEq, Repr

/-- The next word, if it is plain. -/
def nextPlain? (cs : List Char) : Option (String × List Char) := do
  let (word, rest) ← readWord cs
  let text ← plainText? word
  some (text, rest)

/-- Reads a given word. -/
def readKeyword (keyword : String) (cs : List Char) : Option (List Char) :=
  match nextPlain? cs with
  | some (text, rest) => if text = keyword then some rest else none
  | none => none

/-- Skips blanks, joined lines, comments and the ends of lines. -/
def skipSpace (cs : List Char) : List Char :=
  skipLines (cs.length + 1) cs

/-- Whether a list of commands ends here. -/
def Ending.isHere (e : Ending) (cs : List Char) : Bool :=
  match cs with
  | [] => true
  | ')' :: _ => e = .parenthesis
  | ';' :: ';' :: _ => e = .branch
  | _ =>
    match e, nextPlain? cs with
    | .words ws, some (text, _) => ws.contains text
    | .branch, some (text, _) => text = "esac"
    | _, _ => false

/-- The line of a script on which a rest of it begins. -/
def lineOf (script rest : List Char) : Nat :=
  (script.take (script.length - rest.length)).count '\n' + 1

/-- The lines up to one that holds a delimiter, and what follows it. -/
def documentLines (delimiter : List Char) (dropTabs : Bool) :
    List (List Char) → List (List Char) × List (List Char)
  | [] => ([], [])
  | line :: rest =>
    let line := if dropTabs then line.dropWhile (· = '\t') else line
    if line = delimiter then ([], rest)
    else
      let (body, rest) := documentLines delimiter dropTabs rest
      (line :: body, rest)

/-- The text of a word, its quotes taken off, and whether it had any. -/
def delimiterOf (w : Word) : List Char × Bool :=
  w.foldr (fun part (text, quoted) => match part with
    | .text cs q => (cs ++ text, q || quoted)
    | _ => (text, quoted)) ([], false)

/-- Reads a document within a script. It begins on the next line; what stands on this line behind
its delimiter is left together with what follows the document. -/
def readDocument (stream : Option Nat) (dropTabs : Bool) (cs : List Char) :
    Option (Redirect × List Char) := do
  let (word, rest) ← readWord (skipBlanks cs)
  let (delimiter, quoted) := delimiterOf word
  let line := rest.takeWhile (· ≠ '\n')
  let (body, after) :=
    documentLines delimiter dropTabs (Text.pieces '\n' ((rest.drop line.length).drop 1))
  let text := body.flatMap fun l => l ++ ['\n']
  let parts ← if quoted then some [.text text true]
    else (readParts (text.length + 1) .document [] text).map (·.1)
  some (⟨stream.getD 0, .document, .text [] true :: parts⟩,
    line ++ '\n' :: Text.joined ['\n'] after)

/-- Reads a redirection behind its stream number, if it has one. -/
def readRedirectFrom (stream : Option Nat) (cs : List Char) : Option (Redirect × List Char) := do
  if "<<-".toList.isPrefixOf cs then readDocument stream true (cs.drop 3)
  else if "<<".toList.isPrefixOf cs then readDocument stream false (cs.drop 2)
  else
  let (mode, standard, rest) ← match cs with
    | '>' :: '>' :: rest => some (RedirectMode.append, 1, rest)
    | '>' :: '&' :: rest => some (.duplicate, 1, rest)
    | '>' :: '|' :: rest => some (.write, 1, rest)
    | '>' :: rest => some (.write, 1, rest)
    | '<' :: '&' :: rest => some (.duplicate, 0, rest)
    | '<' :: rest => some (.read, 0, rest)
    | _ => none
  let (target, rest) ← readWord (skipBlanks rest)
  if target.isEmpty then none else some (⟨stream.getD standard, mode, target⟩, rest)

/-- Reads a redirection. -/
def readRedirect (cs : List Char) : Option (Redirect × List Char) :=
  let digits := cs.takeWhile Char.isDigit
  if digits.isEmpty then readRedirectFrom none cs
  else readRedirectFrom (some (Nat.ofDigitChars 10 digits 0)) (cs.drop digits.length)

/-- Reads the redirections behind a compound command. -/
def readRedirects : Nat → List Redirect → List Char → List Redirect × List Char
  | 0, done, cs => (done.reverse, cs)
  | fuel + 1, done, cs =>
    match readRedirect (skipBlanks cs) with
    | some (r, rest) => readRedirects fuel (r :: done) rest
    | none => (done.reverse, cs)

/-- The assignment that a word is, if it is one. -/
def asAssignment? (w : Word) : Option Assignment :=
  match w with
  | .text cs false :: more =>
    let name := cs.takeWhile (· ≠ '=')
    match cs.dropWhile (· ≠ '=') with
    | '=' :: value =>
      if name.head?.any isNameStart && name.all isNameChar then
        some ⟨String.ofList name, if value.isEmpty then more else .text value false :: more⟩
      else none
    | _ => none
  | _ => none

/-- Reads the rest of a simple command. Assignments stand before the first other word. -/
def readSimple (line : Nat) : Nat → List Assignment → List Word → List Redirect → List Char →
    Option (Command × List Char)
  | 0, _, _, _, _ => none
  | fuel + 1, assignments, words, redirects, cs =>
    let cs := skipBlanks cs
    match readRedirect cs with
    | some (r, rest) => readSimple line fuel assignments words (r :: redirects) rest
    | none => do
      let (word, rest) ← readWord cs
      if word.isEmpty then
        if assignments.isEmpty && words.isEmpty && redirects.isEmpty then none
        else some (.simple line assignments.reverse words.reverse redirects.reverse, cs)
      else match if words.isEmpty then asAssignment? word else none with
        | some a => readSimple line fuel (a :: assignments) words redirects rest
        | none => readSimple line fuel assignments (word :: words) redirects rest

/-- Reads the words of a loop up to the end of its line. -/
def readWords : Nat → List Word → List Char → Option (List Word × List Char)
  | 0, _, _ => none
  | fuel + 1, done, cs => do
    let cs := skipBlanks cs
    let (word, rest) ← readWord cs
    if word.isEmpty then some (done.reverse, cs) else readWords fuel (word :: done) rest

/-- Reads the patterns of a branch up to the parenthesis behind them. -/
def readPatterns : Nat → List Word → List Char → Option (List Word × List Char)
  | 0, _, _ => none
  | fuel + 1, done, cs => do
    let (word, rest) ← readWord (skipBlanks cs)
    match skipBlanks rest with
    | '|' :: rest => readPatterns fuel (word :: done) rest
    | ')' :: rest => some ((word :: done).reverse, rest)
    | _ => none

/-- Whether the text goes on with the parentheses of a function definition. -/
def readParentheses (cs : List Char) : Option (List Char) :=
  match skipBlanks cs with
  | '(' :: rest =>
    match skipBlanks rest with
    | ')' :: rest => some rest
    | _ => none
  | _ => none

/-- Joins commands; one alone stands for itself. -/
def sequenceOf : List Command → Command
  | [only] => only
  | cs => .sequence cs

mutual

/-- Reads commands up to an ending, which is left. -/
def readList (script : List Char) (ending : Ending) :
    Nat → List Command → List Char → Option (Command × List Char)
  | 0, _, _ => none
  | fuel + 1, done, cs =>
    let cs := skipSpace cs
    if ending.isHere cs then
      if cs.isEmpty && ending ≠ .script then none else some (sequenceOf done.reverse, cs)
    else do
      let (first, rest) ← readPipeline script fuel cs
      let (command, rest) ← readChain script fuel first rest
      match skipBlanks rest with
      | ';' :: ';' :: rest =>
        if ending = .branch then some (sequenceOf (command :: done).reverse, ';' :: ';' :: rest)
        else none
      | ';' :: rest => readList script ending fuel (command :: done) rest
      | '&' :: rest => readList script ending fuel (.background command :: done) rest
      | '\n' :: rest => readList script ending fuel (command :: done) rest
      | rest =>
        if ending.isHere rest then readList script ending fuel (command :: done) rest else none

/-- Reads the pipelines that are joined to a first one by `&&` and `||`. -/
def readChain (script : List Char) :
    Nat → Command → List Char → Option (Command × List Char)
  | 0, _, _ => none
  | fuel + 1, first, cs =>
    match skipBlanks cs with
    | '&' :: '&' :: rest => do
      let (second, rest) ← readPipeline script fuel (skipSpace rest)
      readChain script fuel (.both first second) rest
    | '|' :: '|' :: rest => do
      let (second, rest) ← readPipeline script fuel (skipSpace rest)
      readChain script fuel (.either first second) rest
    | rest => some (first, rest)

def readPipeline (script : List Char) : Nat → List Char → Option (Command × List Char)
  | 0, _ => none
  | fuel + 1, cs => do
    let (negated, cs) := match readKeyword "!" cs with
      | some rest => (true, skipBlanks rest)
      | none => (false, cs)
    let (first, rest) ← readCommand script fuel cs
    let (stages, rest) ← readStages script fuel [first] rest
    match stages, negated with
    | [only], false => some (only, rest)
    | _, _ => some (.pipeline negated stages, rest)

/-- Reads the further stages of a pipeline. -/
def readStages (script : List Char) :
    Nat → List Command → List Char → Option (List Command × List Char)
  | 0, _, _ => none
  | fuel + 1, done, cs =>
    match skipBlanks cs with
    | '|' :: '|' :: _ => some (done.reverse, cs)
    | '|' :: rest => do
      let (stage, rest) ← readCommand script fuel (skipSpace rest)
      readStages script fuel (stage :: done) rest
    | _ => some (done.reverse, cs)

/-- Reads a command with the redirections behind it. -/
def readCommand (script : List Char) : Nat → List Char → Option (Command × List Char)
  | 0, _ => none
  | fuel + 1, cs =>
    let simple := readSimple (lineOf script cs) (cs.length + 1) [] [] [] cs
    let compound := fun (read : Option (Command × List Char)) => do
      let (body, rest) ← read
      match readRedirects (rest.length + 1) [] rest with
      | ([], rest) => some (body, rest)
      | (redirects, rest) => some (.redirected body redirects, rest)
    match cs with
    | '(' :: rest => compound do
      let (body, rest) ← readList script .parenthesis fuel [] rest
      some (.subshell body, rest.drop 1)
    | _ =>
      match nextPlain? cs with
      | none => simple
      | some (text, rest) =>
        match text with
        | "\x7b" => compound do
          let (body, rest) ← readList script (.words ["\x7d"]) fuel [] rest
          some (body, ← readKeyword "\x7d" rest)
        | "if" => compound (readIf script fuel rest)
        | "while" => compound (readLoop script fuel false rest)
        | "until" => compound (readLoop script fuel true rest)
        | "for" => compound (readFor script fuel rest)
        | "case" => compound (readCase script fuel rest)
        | _ =>
          match readParentheses rest with
          | some rest => do
            let (body, rest) ← readCommand script fuel (skipSpace rest)
            some (.define text body, rest)
          | none => simple

/-- Reads a choice behind its `if` or `elif`. -/
def readIf (script : List Char) : Nat → List Char → Option (Command × List Char)
  | 0, _ => none
  | fuel + 1, cs => do
    let (test, rest) ← readList script (.words ["then"]) fuel [] cs
    let rest ← readKeyword "then" rest
    let (body, rest) ← readList script (.words ["elif", "else", "fi"]) fuel [] rest
    let (keyword, rest) ← nextPlain? rest
    match keyword with
    | "elif" =>
      let (otherwise, rest) ← readIf script fuel rest
      some (.ifElse test body (some otherwise), rest)
    | "else" =>
      let (otherwise, rest) ← readList script (.words ["fi"]) fuel [] rest
      some (.ifElse test body (some otherwise), ← readKeyword "fi" rest)
    | _ => some (.ifElse test body none, rest)

/-- Reads the body of a loop. -/
def readBody (script : List Char) : Nat → List Char → Option (Command × List Char)
  | 0, _ => none
  | fuel + 1, cs => do
    let rest ← readKeyword "do" (skipSpace cs)
    let (body, rest) ← readList script (.words ["done"]) fuel [] rest
    some (body, ← readKeyword "done" rest)

def readLoop (script : List Char) : Nat → Bool → List Char → Option (Command × List Char)
  | 0, _, _ => none
  | fuel + 1, untilTrue, cs => do
    let (test, rest) ← readList script (.words ["do"]) fuel [] cs
    let (body, rest) ← readBody script fuel rest
    some (.loop untilTrue test body, rest)

def readFor (script : List Char) : Nat → List Char → Option (Command × List Char)
  | 0, _ => none
  | fuel + 1, cs => do
    let (name, rest) ← nextPlain? (skipBlanks cs)
    let (words, rest) ← match readKeyword "in" (skipSpace rest) with
      | some rest => do
        let (words, rest) ← readWords (rest.length + 1) [] rest
        some (some words, rest)
      | none => some (none, rest)
    let rest := match skipBlanks rest with
      | ';' :: rest => rest
      | rest => rest
    let (body, rest) ← readBody script fuel rest
    some (.forEach name words body, rest)

def readCase (script : List Char) : Nat → List Char → Option (Command × List Char)
  | 0, _ => none
  | fuel + 1, cs => do
    let (subject, rest) ← readWord (skipBlanks cs)
    let rest ← readKeyword "in" (skipSpace rest)
    let (branches, rest) ← readBranches script fuel [] rest
    some (.choose subject branches, rest)

def readBranches (script : List Char) : Nat → List (List Word × Command) → List Char →
    Option (List (List Word × Command) × List Char)
  | 0, _, _ => none
  | fuel + 1, done, cs =>
    let cs := skipSpace cs
    match readKeyword "esac" cs with
    | some rest => some (done.reverse, rest)
    | none => do
      let cs := match cs with
        | '(' :: rest => rest
        | _ => cs
      let (patterns, rest) ← readPatterns (cs.length + 1) [] cs
      let (body, rest) ← readList script .branch fuel [] rest
      let rest := match rest with
        | ';' :: ';' :: rest => rest
        | rest => rest
      readBranches script fuel ((patterns, body) :: done) rest

end

/-- Reads a whole script. A script that is no script is none. -/
def parse? (script : List Char) : Option Command :=
  match readList script .script (2 * script.length + 10) [] script with
  | some (command, []) => some command
  | _ => none

end LintGate.Shell
