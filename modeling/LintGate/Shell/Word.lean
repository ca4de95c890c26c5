import LintGate.Shell.Syntax

/-!
# Reading words of the shell

Every function takes the characters of a text from its first position on and gives what it read
with what is left. `readWord` reads a word with its quotes and expansions.
-/

namespace LintGate.Shell

def isBlank (c : Char) : Bool :=
  c = ' ' || c = '\t'

/-- Characters that end a word without quotes. -/
def endsWord (c : Char) : Bool :=
  isBlank c || c = '\n' || c = ';' || c = '&' || c = '|' || c = '<' || c = '>' || c = '(' || c = ')'

def isNameStart (c : Char) : Bool :=
  c.isAlpha || c = '_'

def isNameChar (c : Char) : Bool :=
  c.isAlphanum || c = '_'

def backquote : Char := '\x60'

/-- Skips blanks, joined lines and comments, but not the end of a line. -/
def skipBlanks : List Char → List Char
  | '\\' :: '\n' :: rest => skipBlanks rest
  | '#' :: rest => rest.dropWhile (· ≠ '\n')
  | c :: rest => if isBlank c then skipBlanks rest else c :: rest
  | [] => []

/-- Skips what may stand between commands. -/
def skipLines : Nat → List Char → List Char
  | 0, cs => cs
  | fuel + 1, cs =>
    match skipBlanks cs with
    | '\n' :: rest => skipLines fuel rest
    | rest => rest

/-- The text up to the parenthesis that closes `depth + 1` open ones. Quotes keep parentheses from
counting. -/
def readNested : Nat → Nat → List Char → List Char → Option (List Char × List Char)
  | 0, _, _, _ => none
  | _, _, _, [] => none
  | fuel + 1, depth, done, c :: rest =>
    match c with
    | ')' =>
      match depth with
      | 0 => some (done.reverse, rest)
      | depth + 1 => readNested fuel depth (c :: done) rest
    | '(' => readNested fuel (depth + 1) (c :: done) rest
    | '\\' => readNested fuel depth ((rest.take 1).reverse ++ c :: done) (rest.drop 1)
    | '\'' =>
      let body := rest.takeWhile (· ≠ '\'')
      readNested fuel depth ('\'' :: body.reverse ++ '\'' :: done)
        ((rest.dropWhile (· ≠ '\'')).drop 1)
    | _ => readNested fuel depth (c :: done) rest

/-- The text up to the next backquote, escaped characters taken out of their escapes. -/
def readBackquoted : List Char → List Char → Option (List Char × List Char)
  | _, [] => none
  | done, '\\' :: c :: rest =>
    if c = backquote || c = '\\' || c = '$' then readBackquoted (c :: done) rest
    else readBackquoted (c :: '\\' :: done) rest
  | done, c :: rest =>
    if c = backquote then some (done.reverse, rest) else readBackquoted (c :: done) rest

/-- The operator behind the name of a parameter in braces. -/
def readOperator (cs : List Char) : Option (Operator × List Char) :=
  let (colon, rest) := match cs with
    | ':' :: rest => (true, rest)
    | _ => (false, cs)
  match rest with
  | '-' :: rest => some (.default colon, rest)
  | '=' :: rest => some (.assign colon, rest)
  | '?' :: rest => some (.require colon, rest)
  | '+' :: rest => some (.replace colon, rest)
  | '#' :: '#' :: rest => if colon then none else some (.dropStart true, rest)
  | '#' :: rest => if colon then none else some (.dropStart false, rest)
  | '%' :: '%' :: rest => if colon then none else some (.dropEnd true, rest)
  | '%' :: rest => if colon then none else some (.dropEnd false, rest)
  | _ => none

/-- The name of a parameter: a word, a number or a special character. In braces numbers may have
several digits. -/
def readParameterName (braces : Bool) (cs : List Char) : Option (String × List Char) :=
  match cs with
  | [] => none
  | c :: rest =>
    if isNameStart c then
      some (String.ofList (cs.takeWhile isNameChar), cs.dropWhile isNameChar)
    else if c.isDigit then
      if braces then some (String.ofList (cs.takeWhile Char.isDigit), cs.dropWhile Char.isDigit)
      else some (String.singleton c, rest)
    else if ['@', '*', '#', '?', '$', '!', '-'].contains c then some (String.singleton c, rest)
    else none

/-- What a piece of a word stands in. -/
inductive Surrounding where
  | word
  | doubleQuotes
  /-- The braces of a parameter, perhaps within double quotes. -/
  | braces (quoted : Bool)
  | arithmetic
  /-- A document within a script. -/
  | document
deriving DecidableEq, Repr

namespace Surrounding

/-- Whether the text must not end here. -/
def needsEnd : Surrounding → Bool
  | doubleQuotes => true
  | braces _ => true
  | _ => false

def endsAt : Surrounding → Char → Bool
  | word, c => endsWord c
  | doubleQuotes, c => c = '"'
  | braces _, c => c = '}'
  | arithmetic, _ => false
  | document, _ => false

def quoted : Surrounding → Bool
  | word => false
  | doubleQuotes => true
  | braces q => q
  | arithmetic => true
  | document => true

/-- Whether double quotes begin a quoted part. -/
def allowsDouble : Surrounding → Bool
  | word => true
  | braces _ => true
  | _ => false

/-- Whether single quotes begin a quoted part. -/
def allowsSingle : Surrounding → Bool
  | word => true
  | braces q => !q
  | _ => false

/-- Whether a backslash takes the meaning from a character. -/
def escapes (s : Surrounding) (c : Char) : Bool :=
  !s.quoted || ['$', '\\', backquote].contains c || (c = '"' && s ≠ document)
    || (s = braces true && c = '}')

end Surrounding

/-- Adds a character to the pieces read so far, the last of which comes first. -/
def addChar (done : List Part) (c : Char) (quoted : Bool) : List Part :=
  match done with
  | .text cs q :: more =>
    if q = quoted then .text (cs ++ [c]) q :: more else .text [c] quoted :: done
  | _ => .text [c] quoted :: done

mutual

/-- Reads what follows a dollar sign. -/
def readDollar (quoted : Bool) : Nat → List Char → Option (Part × List Char)
  | 0, _ => none
  | fuel + 1, cs =>
    match cs with
    | '(' :: '(' :: rest => do
      let (body, rest) ← readNested (rest.length + 1) 1 [] rest
      let (parts, _) ← readParts fuel .arithmetic [] (body.dropLast)
      some (.arithmetic parts quoted, rest)
    | '(' :: rest => do
      let (script, rest) ← readNested (rest.length + 1) 0 [] rest
      some (.output script quoted, rest)
    | '{' :: '#' :: rest =>
      match rest with
      | '}' :: rest => some (.parameter "#" none [] quoted, rest)
      | _ => do
        let (name, rest) ← readParameterName true rest
        match rest with
        | '}' :: rest => some (.parameter name (some .length) [] quoted, rest)
        | _ => none
    | '{' :: rest => do
      let (name, rest) ← readParameterName true rest
      match rest with
      | '}' :: rest => some (.parameter name none [] quoted, rest)
      | _ => do
        let (operator, rest) ← readOperator rest
        let (operand, rest) ← readParts fuel (.braces (quoted && !operator.takesPattern)) [] rest
        some (.parameter name (some operator) operand quoted, rest)
    | _ =>
      match readParameterName false cs with
      | some (name, rest) => some (.parameter name none [] quoted, rest)
      | none => some (.text ['$'] true, cs)

/-- Reads the pieces of a word, or of a quoted or braced part of one, up to its end. `done` holds
those read so far, the last one first. -/
def readParts : Nat → Surrounding → List Part → List Char → Option (List Part × List Char)
  | 0, _, _, _ => none
  | fuel + 1, within, done, cs =>
    match cs with
    | [] => if within.needsEnd then none else some (done.reverse, [])
    | c :: rest =>
      if within.endsAt c then
        some (done.reverse, if within.needsEnd then rest else cs)
      else if c = '$' then do
        let (part, rest) ← readDollar within.quoted fuel rest
        readParts fuel within (part :: done) rest
      else if c = backquote then do
        let (script, rest) ← readBackquoted [] rest
        readParts fuel within (.output script within.quoted :: done) rest
      else if c = '\\' then
        match rest with
        | [] => readParts fuel within (addChar done c true) []
        | '\n' :: rest => readParts fuel within done rest
        | next :: rest =>
          if within.escapes next then readParts fuel within (addChar done next true) rest
          else readParts fuel within (addChar (addChar done c true) next true) rest
      else if c = '"' && within.allowsDouble then do
        let (parts, rest) ← readParts fuel .doubleQuotes [.text [] true] rest
        readParts fuel within (parts.reverse ++ done) rest
      else if c = '\'' && within.allowsSingle then
        let body := rest.takeWhile (· ≠ '\'')
        match rest.dropWhile (· ≠ '\'') with
        | [] => none
        | _ :: rest => readParts fuel within (.text body true :: done) rest
      else readParts fuel within (addChar done c within.quoted) rest

end

/-- Reads a word, which ends at a blank or an operator. There may be none. -/
def readWord (cs : List Char) : Option (Word × List Char) :=
  readParts (cs.length + 1) .word [] cs

/-- The text of a piece without quotes and expansions. -/
def Part.plainText? : Part → Option String
  | .text cs false => some (String.ofList cs)
  | _ => none

/-- The text of a word without quotes and expansions. -/
def plainText? (w : Word) : Option String :=
  if w.isEmpty then none else (w.mapM Part.plainText?).map String.join

end LintGate.Shell
