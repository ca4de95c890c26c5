import LintGate.Text.Pieces
import LintGate.Text.Raw

/-!
# Printing by programs

`echo` prints its arguments with blanks between them; `printf` prints them as a format says, which
is used again as long as arguments are left. Both know escapes for bytes.
-/

namespace LintGate.Utility

open Text (Bytes)

def isOctal (c : Char) : Bool :=
  '0' ≤ c && c ≤ '7'

def octalByte (cs : List Char) : UInt8 :=
  UInt8.ofNat (Nat.ofDigitChars 8 cs 0)

/-- The byte that a letter behind a backslash stands for. -/
def escapedByte? : Char → Option UInt8
  | 'a' => some 7
  | 'b' => some 8
  | 'f' => some 12
  | 'n' => some 10
  | 'r' => some 13
  | 't' => some 9
  | 'v' => some 11
  | '\\' => some 92
  | _ => none

/-- Reads an escape behind its backslash. In arguments the digits of a byte follow a zero. -/
def readEscape (inArgument : Bool) (cs : List Char) : Bytes × List Char :=
  match cs with
  | [] => ([92], [])
  | c :: rest =>
    match escapedByte? c with
    | some b => ([b], rest)
    | none =>
      if inArgument && c = '0' then
        let digits := (rest.take 3).takeWhile isOctal
        ([octalByte digits], rest.drop digits.length)
      else if !inArgument && isOctal c then
        let digits := (cs.take 3).takeWhile isOctal
        ([octalByte digits], cs.drop digits.length)
      else
        let (bytes, rest) := Text.firstRaw cs
        (92 :: bytes, rest)

/-- The bytes of an argument with escapes, and whether `\c` ended all output. -/
def unescape : Nat → List Char → Bytes × Bool
  | 0, _ => ([], false)
  | _, [] => ([], false)
  | _, '\\' :: 'c' :: _ => ([], true)
  | fuel + 1, '\\' :: rest =>
    let (bytes, rest) := readEscape true rest
    let (more, ended) := unescape fuel rest
    (bytes ++ more, ended)
  | fuel + 1, cs =>
    let (bytes, rest) := Text.firstRaw cs
    let (more, ended) := unescape fuel rest
    (bytes ++ more, ended)

def unescapeText (s : String) : Bytes × Bool :=
  unescape (s.length + 1) s.toList

/-- The text that `echo` prints. -/
def echo (escapes : Bool) (args : List String) : Bytes :=
  let (newline, args) := match args with
    | "-n" :: rest => (false, rest)
    | _ => (true, args)
  let text := " ".intercalate args
  let (bytes, ended) := if escapes then unescapeText text else (Text.rawBytes text, false)
  if newline && !ended then bytes ++ [10] else bytes

/-! ## Formats -/

/-- How one argument is printed. -/
structure Conversion where
  leftAligned : Bool := false
  zeros : Bool := false
  plus : Bool := false
  width : Nat := 0
  precision : Option Nat := none
  letter : Char := 's'
deriving Repr

/-- Reads a conversion behind its percent sign. -/
def readConversion (cs : List Char) : Option (Conversion × List Char) :=
  let isFlag := fun (c : Char) => c = '-' || c = '0' || c = '+' || c = ' ' || c = '#'
  let flags := cs.takeWhile isFlag
  let rest := cs.dropWhile isFlag
  let width := rest.takeWhile Char.isDigit
  let rest := rest.dropWhile Char.isDigit
  let (precision, rest) := match rest with
    | '.' :: more =>
      (some (Nat.ofDigitChars 10 (more.takeWhile Char.isDigit) 0), more.dropWhile Char.isDigit)
    | _ => (none, rest)
  match rest with
  | [] => none
  | letter :: rest =>
    some ({ leftAligned := flags.contains '-', zeros := flags.contains '0'
            plus := flags.contains '+', width := Nat.ofDigitChars 10 width 0
            precision, letter }, rest)

/-- The whole number at the beginning of an argument. -/
def numberOf (s : String) : Int :=
  match s.toList with
  | '-' :: ds => -(Nat.ofDigitChars 10 (ds.takeWhile Char.isDigit) 0 : Int)
  | '+' :: ds => Nat.ofDigitChars 10 (ds.takeWhile Char.isDigit) 0
  | '\'' :: c :: _ => c.toNat
  | '"' :: c :: _ => c.toNat
  | ds => Nat.ofDigitChars 10 (ds.takeWhile Char.isDigit) 0

/-- Puts blanks or zeros beside a text that is too short. -/
def Conversion.pad (c : Conversion) (sign body : Bytes) : Bytes :=
  let missing := c.width - (sign.length + body.length)
  if c.leftAligned then sign ++ body ++ List.replicate missing 32
  else if c.zeros && c.letter ≠ 's' then sign ++ List.replicate missing 48 ++ body
  else List.replicate missing 32 ++ sign ++ body

/-- A whole number with its digits in a base. -/
def Conversion.number (c : Conversion) (base : Nat) (upper : Bool) (n : Int) : Bytes :=
  let digits := Nat.toDigits base n.natAbs
  let digits := if upper then digits.map Char.toUpper else digits
  let digits := List.replicate ((c.precision.getD 0) - digits.length) '0' ++ digits
  let sign := if n < 0 then [45] else if c.plus then [43] else []
  c.pad sign (Text.encodeChars digits)

/-- Prints an argument, and says whether it ends all output. -/
def Conversion.print (c : Conversion) (arg : String) : Bytes × Bool :=
  let cut := fun (bs : Bytes) => match c.precision with
    | some p => bs.take p
    | none => bs
  match c.letter with
  | 's' => (c.pad [] (cut (Text.rawBytes arg)), false)
  | 'b' =>
    let (bytes, ended) := unescapeText arg
    (c.pad [] (cut bytes), ended)
  | 'c' => (c.pad [] ((Text.rawBytes arg).take 1), false)
  | 'x' => (c.number 16 false (numberOf arg), false)
  | 'X' => (c.number 16 true (numberOf arg), false)
  | 'o' => (c.number 8 false (numberOf arg), false)
  | _ => (c.number 10 false (numberOf arg), false)

/-- One use of a format: what is printed, the arguments left, and whether output has ended. -/
def printOnce : Nat → List Char → List String → Bytes → Bytes × List String × Bool
  | 0, _, args, done => (done, args, false)
  | _, [], args, done => (done, args, false)
  | fuel + 1, '%' :: '%' :: rest, args, done => printOnce fuel rest args (done ++ [37])
  | fuel + 1, '%' :: rest, args, done =>
    match readConversion rest with
    | none => (done ++ [37], args, false)
    | some (conversion, rest) =>
      let (bytes, ended) := conversion.print (args.headD "")
      if ended then (done ++ bytes, [], true)
      else printOnce fuel rest (args.drop 1) (done ++ bytes)
  | fuel + 1, '\\' :: rest, args, done =>
    let (bytes, rest) := readEscape false rest
    printOnce fuel rest args (done ++ bytes)
  | fuel + 1, cs, args, done =>
    let (bytes, rest) := Text.firstRaw cs
    printOnce fuel rest args (done ++ bytes)

/-- Uses a format as long as it takes arguments. -/
def printAll (format : List Char) : Nat → List String → Bytes
  | 0, _ => []
  | fuel + 1, args =>
    let (bytes, left, ended) := printOnce (format.length + 1) format args []
    if ended || left.isEmpty || left.length = args.length then bytes
    else bytes ++ printAll format fuel left

def printf (args : List String) : Bytes :=
  match args with
  | [] => []
  | "--" :: format :: rest => printAll format.toList (rest.length + 1) rest
  | format :: rest => printAll format.toList (rest.length + 1) rest

end LintGate.Utility
