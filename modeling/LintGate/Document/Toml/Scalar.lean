import LintGate.Document

/-!
# TOML scalars

Strings, numbers, truth values and times as they are written in TOML. A reader takes the
characters of a text from its first position on and gives a value with what is left.
-/

namespace LintGate.Toml

def isSpace (c : Char) : Bool :=
  c = ' ' || c = '\t'

def skipSpaces (cs : List Char) : List Char :=
  cs.dropWhile isSpace

/-- Control characters other than the tab stand nowhere in a text. -/
def isControl (c : Char) : Bool :=
  (c.toNat < 0x20 && c ≠ '\t') || c.toNat = 0x7F

/-- The rest of a text that begins with a line end. -/
def afterNewline? : List Char → Option (List Char)
  | '\n' :: rest => some rest
  | '\r' :: '\n' :: rest => some rest
  | _ => none

/-- A character by its number in hexadecimal digits. -/
def readCode (digits : Nat) (cs : List Char) : Option (Char × List Char) := do
  let word := cs.take digits
  if word.length < digits then none
  else
    let code ← Document.natInBase? 16 word
    if code < 0xD800 || (0xDFFF < code && code < 0x110000) then
      some (Char.ofNat code, cs.drop digits)
    else none

/-- What follows a backslash. -/
def readEscape : List Char → Option (Char × List Char)
  | 'b' :: rest => some ('\x08', rest)
  | 't' :: rest => some ('\t', rest)
  | 'n' :: rest => some ('\n', rest)
  | 'f' :: rest => some ('\x0c', rest)
  | 'r' :: rest => some ('\r', rest)
  | 'e' :: rest => some ('\x1b', rest)
  | '"' :: rest => some ('"', rest)
  | '\\' :: rest => some ('\\', rest)
  | 'x' :: rest => readCode 2 rest
  | 'u' :: rest => readCode 4 rest
  | 'U' :: rest => readCode 8 rest
  | _ => none

/-- The body of a string on one line, up to its closing quote. -/
def readBasic : Nat → List Char → List Char → Option (String × List Char)
  | _, _, [] => none
  | 0, _, _ => none
  | _ + 1, done, '"' :: rest => some (String.ofList done.reverse, rest)
  | fuel + 1, done, '\\' :: rest => do
    let (c, rest) ← readEscape rest
    readBasic fuel (c :: done) rest
  | fuel + 1, done, c :: rest => if isControl c then none else readBasic fuel (c :: done) rest

/-- The body of a string on one line without escapes. -/
def readLiteral (cs : List Char) : Option (String × List Char) :=
  let body := cs.takeWhile (· ≠ '\'')
  match cs.dropWhile (· ≠ '\'') with
  | _ :: rest => if body.any isControl then none else some (String.ofList body, rest)
  | [] => none

/-- Skips blanks and line ends after a backslash at the end of a line; there has to be a line
end. -/
def skipFolded (cs : List Char) : Option (List Char) := do
  let rest ← afterNewline? (skipSpaces cs)
  some (more rest.length rest)
where
  more : Nat → List Char → List Char
    | 0, cs => cs
    | fuel + 1, cs =>
      match afterNewline? (skipSpaces cs) with
      | some rest => more fuel rest
      | none => skipSpaces cs

/-- The end of a string of several lines: three quotes, of which up to two more belong to the
string. -/
def closing? (quote : Char) (cs : List Char) : Option (List Char × List Char) :=
  let run := (cs.takeWhile (· = quote)).length
  if run < 3 then none
  else
    let kept := min (run - 3) 2
    some (List.replicate kept quote, cs.drop (kept + 3))

/-- The body of a string of several lines. -/
def readLong (quote : Char) (escapes : Bool) :
    Nat → List Char → List Char → Option (String × List Char)
  | _, _, [] => none
  | 0, _, _ => none
  | fuel + 1, done, c :: rest =>
    if c = quote then
      match closing? quote (c :: rest) with
      | some (kept, rest) => some (String.ofList (done.reverse ++ kept), rest)
      | none => readLong quote escapes fuel (c :: done) rest
    else if c = '\\' && escapes then
      match skipFolded rest with
      | some rest => readLong quote escapes fuel done rest
      | none => do
        let (c, rest) ← readEscape rest
        readLong quote escapes fuel (c :: done) rest
    else match afterNewline? (c :: rest) with
      | some rest => readLong quote escapes fuel ('\n' :: done) rest
      | none => if isControl c then none else readLong quote escapes fuel (c :: done) rest

/-- A string that begins with a quote. -/
def readString (cs : List Char) : Option (String × List Char) :=
  let fuel := cs.length + 1
  match cs with
  | '"' :: '"' :: '"' :: rest =>
    readLong '"' true fuel [] ((afterNewline? rest).getD rest)
  | '\'' :: '\'' :: '\'' :: rest =>
    readLong '\'' false fuel [] ((afterNewline? rest).getD rest)
  | '"' :: rest => readBasic fuel [] rest
  | '\'' :: rest => readLiteral rest
  | _ => none

/-! ## Numbers -/

/-- Digits with single underscores between them, without the underscores. -/
def joinDigits? (isDigit : Char → Bool) (cs : List Char) : Option (List Char) :=
  go true cs
where
  /-- `fresh` says that a digit has to follow. -/
  go (fresh : Bool) : List Char → Option (List Char)
    | [] => if fresh then none else some []
    | c :: rest =>
      if c = '_' then if fresh then none else go true rest
      else if isDigit c then (go false rest).map (c :: ·)
      else none

def isHexDigit (c : Char) : Bool :=
  (Document.digitValue? c).isSome

/-- The whole number with these digits, unless needless zeros stand in front. -/
def wholeDigits? (word : List Char) : Option (List Char) := do
  let digits ← joinDigits? Char.isDigit word
  if digits.head? = some '0' && 1 < digits.length then none else some digits

/-- Whole numbers that no integer type of the format holds are refused. -/
def inRange? (n : Int) : Option Document :=
  if -(Nat.pow 2 127 : Int) ≤ n && n < (Nat.pow 2 128 : Int) then some (.integer n) else none

def unsignedInteger? (negative : Bool) (word : List Char) : Option Document := do
  let digits ← wholeDigits? word
  let n : Int := Nat.ofDigitChars 10 digits 0
  inRange? (if negative then -n else n)

/-- A number with a fraction or an exponent, without its sign. -/
def unsignedFloat? (negative : Bool) (word : List Char) : Option Document := do
  let (mantissa, exponent) := word.span fun c => c ≠ 'e' && c ≠ 'E'
  let (whole, fraction) := mantissa.span (· ≠ '.')
  let whole ← wholeDigits? whole
  let fraction ← match fraction with
    | [] => some []
    | _ :: ds => (joinDigits? Char.isDigit ds).map ('.' :: ·)
  let exponent ← match exponent with
    | [] => some []
    | _ :: '+' :: ds => (joinDigits? Char.isDigit ds).map ('e' :: ·)
    | _ :: '-' :: ds => (joinDigits? Char.isDigit ds).map fun ds => 'e' :: '-' :: ds
    | _ :: ds => (joinDigits? Char.isDigit ds).map ('e' :: ·)
  let x ← Document.unsignedDecimal? negative (whole ++ fraction ++ exponent)
  if x.isFinite then some (.float x) else none

/-- A word that is a number. -/
def number? (word : List Char) : Option Document :=
  match word with
  | '0' :: 'x' :: ds => do inRange? (← Document.natInBase? 16 (← joinDigits? isHexDigit ds))
  | '0' :: 'o' :: ds => do inRange? (← Document.natInBase? 8 (← joinDigits? isHexDigit ds))
  | '0' :: 'b' :: ds => do inRange? (← Document.natInBase? 2 (← joinDigits? isHexDigit ds))
  | _ =>
    let (negative, body) := match word with
      | '-' :: ds => (true, ds)
      | '+' :: ds => (false, ds)
      | ds => (false, ds)
    if body = ['i', 'n', 'f'] then some (.float (.infinite negative))
    else if body = ['n', 'a', 'n'] then some (.float .nan)
    else if body.all (fun c => c.isDigit || c = '_') then unsignedInteger? negative body
    else unsignedFloat? negative body

/-! ## Times -/

/-- A number of exactly so many digits at the beginning of a word. -/
def fixedNumber? (digits : Nat) (cs : List Char) : Option (Nat × List Char) :=
  let word := cs.take digits
  if word.length = digits && word.all Char.isDigit then
    some (Nat.ofDigitChars 10 word 0, cs.drop digits)
  else none

def daysIn (year month : Nat) : Nat :=
  let leap := year % 4 = 0 && (year % 100 ≠ 0 || year % 400 = 0)
  match month with
  | 2 => if leap then 29 else 28
  | 4 | 6 | 9 | 11 => 30
  | _ => 31

def afterDate? (cs : List Char) : Option (List Char) := do
  let (year, rest) ← fixedNumber? 4 cs
  match rest with
  | '-' :: rest => do
    let (month, rest) ← fixedNumber? 2 rest
    match rest with
    | '-' :: rest => do
      let (day, rest) ← fixedNumber? 2 rest
      if 1 ≤ month && month ≤ 12 && 1 ≤ day && day ≤ daysIn year month then some rest else none
    | _ => none
  | _ => none

/-- A fraction of a second, if there is one. -/
def afterFraction? : List Char → Option (List Char)
  | '.' :: rest =>
    if (rest.takeWhile Char.isDigit).isEmpty then none else some (rest.dropWhile Char.isDigit)
  | cs => some cs

def afterTime? (cs : List Char) : Option (List Char) := do
  let (hour, rest) ← fixedNumber? 2 cs
  match rest with
  | ':' :: rest => do
    let (minute, rest) ← fixedNumber? 2 rest
    if 23 < hour || 59 < minute then none
    else match rest with
      | ':' :: rest => do
        let (second, rest) ← fixedNumber? 2 rest
        if 60 < second then none else afterFraction? rest
      | _ => some rest
  | _ => none

def afterOffset? : List Char → Option (List Char)
  | 'Z' :: rest => some rest
  | 'z' :: rest => some rest
  | sign :: rest =>
    if sign = '+' || sign = '-' then do
      let (hour, rest) ← fixedNumber? 2 rest
      match rest with
      | ':' :: rest => do
        let (minute, rest) ← fixedNumber? 2 rest
        if 23 < hour || 59 < minute then none else some rest
      | _ => none
    else some (sign :: rest)
  | [] => some []

/-- Whether a word is a date, a time or both. -/
def isTime (word : List Char) : Bool :=
  match afterDate? word with
  | some [] => true
  | some (c :: rest) =>
    (c = 'T' || c = 't' || c = ' ') &&
      ((afterTime? rest).bind afterOffset?).any List.isEmpty
  | none => (afterTime? word).any List.isEmpty

/-- A time is a structure of its own, with no field that anyone asks for. -/
def timeDocument : Document :=
  .record [(some "$time", .null)]

/-! ## Words -/

/-- The characters of which numbers, times and truth values consist. -/
def isWordChar (c : Char) : Bool :=
  c.isAlphanum || c = '+' || c = '-' || c = '_' || c = '.' || c = ':'

/-- A word, to which the time behind a date and a blank belongs. -/
def readWord (cs : List Char) : List Char × List Char :=
  let word := cs.takeWhile isWordChar
  let rest := cs.dropWhile isWordChar
  match rest with
  | ' ' :: d :: more =>
    if afterDate? word = some [] && d.isDigit then
      (word ++ ' ' :: (d :: more).takeWhile isWordChar, (d :: more).dropWhile isWordChar)
    else (word, rest)
  | _ => (word, rest)

/-- A number, a time or a truth value. -/
def readBare (cs : List Char) : Option (Document × List Char) :=
  let (word, rest) := readWord cs
  if word = ['t', 'r', 'u', 'e'] then some (.bool true, rest)
  else if word = ['f', 'a', 'l', 's', 'e'] then some (.bool false, rest)
  else if isTime word then some (timeDocument, rest)
  else (number? word).map fun d => (d, rest)

end LintGate.Toml
