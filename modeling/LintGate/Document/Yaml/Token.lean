import LintGate.Document
import LintGate.Document.Yaml.Character

/-!
# YAML tokens

A text of YAML is cut into tokens, among them tokens for the beginning and end of blocks, which
stand for changes of indentation. `Scanner.step` takes the next token from a text. A text that
turns out to be the key of a mapping only at the colon behind it gets its key token afterwards,
in front of the tokens that were taken from it.
-/

namespace LintGate.Yaml

/-- A line in front of a document. -/
inductive Directive where
  | version
  /-- Declares a handle for tags. -/
  | tagHandle (handle : String)
deriving DecidableEq, Repr

inductive Token where
  | directive (d : Directive)
  | documentStart
  | documentEnd
  | blockSequenceStart
  | blockMappingStart
  | blockEnd
  | flowSequenceStart
  | flowSequenceEnd
  | flowMappingStart
  | flowMappingEnd
  | blockEntry
  | flowEntry
  | key
  | value
  | alias (name : String)
  | anchor (name : String)
  /-- A tag with the handle in front of its name, which is empty where the name is whole. -/
  | tag (handle name : String)
  /-- A scalar; `plain` says that it is without quotes and not a block of its own. -/
  | scalar (text : String) (plain : Bool)
deriving DecidableEq, Repr

def Token.isDirective : Token → Bool
  | .directive _ => true
  | _ => false

/-- The rest of a text and where it begins. -/
structure Cursor where
  rest : List Char
  line : Nat := 0
  column : Nat := 0
deriving Repr

namespace Cursor

/-- Passes one character, or both of a pair that ends a line. -/
def next (c : Cursor) : Cursor :=
  match c.rest with
  | [] => c
  | '\r' :: '\n' :: rest => ⟨rest, c.line + 1, 0⟩
  | x :: rest => if isBreak x then ⟨rest, c.line + 1, 0⟩ else ⟨rest, c.line, c.column + 1⟩

/-- Passes characters of one line. -/
def skip (c : Cursor) (n : Nat) : Cursor :=
  ⟨c.rest.drop n, c.line, c.column + n⟩

/-- The characters up to the first that `keep` refuses, which stand on one line, and where they
end. -/
def span (c : Cursor) (keep : Char → Bool) : List Char × Cursor :=
  let word := c.rest.takeWhile keep
  (word, c.skip word.length)

/-- What a line end is read as. -/
def breakText (c : Cursor) : List Char :=
  match c.rest with
  | [] => []
  | x :: _ => if x = '\u2028' || x = '\u2029' then [x] else ['\n']

def atBreak (c : Cursor) : Bool :=
  c.rest.head?.any isBreak

def atSpace (c : Cursor) : Bool :=
  c.rest.head?.any isSpace

/-- Whether three given characters and the end of a word stand at the beginning of a line. -/
def atMark (c : Cursor) (mark : Char) : Bool :=
  c.column = 0 && c.rest.take 3 = [mark, mark, mark] && endsWord (c.rest.drop 3)

/-- Whether a document ends or begins here. -/
def atDocumentMark (c : Cursor) : Bool :=
  c.atMark '-' || c.atMark '.'

/-- Passes a comment. -/
def skipComment (c : Cursor) : Cursor :=
  if c.rest.head? = some '#' then (c.span fun x => !isBreak x).2 else c

end Cursor

/-- A place at which the key of a mapping may have begun. -/
structure KeyCandidate where
  /-- How many tokens there were. -/
  index : Nat
  line : Nat
  column : Nat
  /-- How much text was left. -/
  left : Nat
  /-- Nothing but a key can stand there. -/
  required : Bool
deriving Repr

structure Scanner where
  cursor : Cursor
  /-- The tokens so far. -/
  tokens : Array Token := #[]
  /-- The columns of the open blocks, the innermost first. -/
  indents : List Nat := []
  keyAllowed : Bool := true
  /-- The candidate for a key at each level of brackets, the innermost first. There is one level
  more than there are open brackets. -/
  candidates : List (Option KeyCandidate) := [none]
deriving Repr

namespace Scanner

/-- The column of the innermost block, one more than it is; none is open at zero. -/
def indent (s : Scanner) : Nat :=
  match s.indents with
  | [] => 0
  | column :: _ => column + 1

def inFlow (s : Scanner) : Bool :=
  1 < s.candidates.length

def push (s : Scanner) (t : Token) : Scanner :=
  { s with tokens := s.tokens.push t }

/-- The candidate at the current level. -/
def candidate? (s : Scanner) : Option KeyCandidate :=
  s.candidates.head?.join

def setCandidate (s : Scanner) (k : Option KeyCandidate) : Scanner :=
  { s with candidates := k :: s.candidates.drop 1 }

/-- Gives up the candidate at the current level, which must not be a required one. -/
def dropCandidate (s : Scanner) : Option Scanner :=
  match s.candidate? with
  | some k => if k.required then none else some (s.setCandidate none)
  | none => some s

/-- Notes that a key may begin here. -/
def saveCandidate (s : Scanner) : Option Scanner :=
  if s.keyAllowed then do
    let required := !s.inFlow && s.indents.head? = some s.cursor.column
    let s ← s.dropCandidate
    some (s.setCandidate (some ⟨s.tokens.size, s.cursor.line, s.cursor.column,
      s.cursor.rest.length, required⟩))
  else some s

/-- The most characters that a key without a mark of its own may have. -/
def maxKeyLength : Nat := 1024

/-- Gives up candidates that cannot become keys any more: those on earlier lines and those too
far back. -/
def dropStale (s : Scanner) : Option Scanner := do
  let candidates ← s.candidates.mapM fun k =>
    match k with
    | none => some none
    | some k =>
      if k.line < s.cursor.line || s.cursor.rest.length + maxKeyLength < k.left then
        if k.required then none else some none
      else some (some k)
  some { s with candidates }

/-- Opens a block at a column if it is further in than the innermost one. -/
def openBlock (s : Scanner) (column : Nat) (position : Nat) (start : Token) : Scanner :=
  if !s.inFlow && s.indent ≤ column then
    { s with
      indents := column :: s.indents
      tokens := s.tokens.insertIdx! position start }
  else s

/-- Closes the blocks that begin behind a column; `none` closes all. -/
def closeBlocks (s : Scanner) (column : Option Nat) : Scanner :=
  if s.inFlow then s
  else
    let closes := fun (c : Nat) => column.all fun limit => limit < c
    let closed := s.indents.takeWhile closes
    { s with
      indents := s.indents.dropWhile closes
      tokens := s.tokens ++ Array.replicate closed.length .blockEnd }

/-! ## Between tokens -/

/-- A mark that may stand in front of a line. -/
def byteOrderMark : Char := '\uFEFF'

/-- Passes blanks, comments and line ends. Tabs count as blanks where no key may begin. -/
def skipFiller : Nat → Scanner → Scanner
  | 0, s => s
  | fuel + 1, s =>
    let blank := fun (c : Char) => c = ' ' || (c = '\t' && (s.inFlow || !s.keyAllowed))
    let cursor := if s.cursor.column = 0 && s.cursor.rest.head? = some byteOrderMark
      then s.cursor.skip 1 else s.cursor
    let cursor := (cursor.span blank).2.skipComment
    if cursor.atBreak then
      skipFiller fuel
        { s with cursor := cursor.next, keyAllowed := s.keyAllowed || !s.inFlow }
    else { s with cursor }

/-! ## Scalars -/

/-- Line ends and blanks within a scalar that spans lines. -/
structure Gap where
  /-- Blanks on the line of the last word. -/
  blanks : List Char := []
  /-- What the first line end is read as, if there is one. -/
  firstBreak : Option (List Char) := none
  /-- What the others are read as. -/
  moreBreaks : List Char := []
deriving Repr

namespace Gap

/-- What a gap between two words is read as: a single line end is a blank. -/
def text (g : Gap) : List Char :=
  match g.firstBreak with
  | none => g.blanks
  | some first =>
    if first = ['\n'] then if g.moreBreaks.isEmpty then [' '] else g.moreBreaks
    else first ++ g.moreBreaks

/-- Takes blanks and line ends into a gap. In a block, a tab may not stand in front of the column
`limit` of a continued line. -/
def read (limit : Nat) : Nat → Gap → Cursor → Option (Gap × Cursor)
  | 0, g, c => some (g, c)
  | fuel + 1, g, c =>
    match c.rest with
    | [] => some (g, c)
    | x :: _ =>
      if isSpace x then
        if g.firstBreak.isSome && x = '\t' && c.column < limit then none
        else if g.firstBreak.isNone then read limit fuel { g with blanks := g.blanks ++ [x] } c.next
        else read limit fuel g c.next
      else if isBreak x then
        if g.firstBreak.isNone then
          read limit fuel { g with blanks := [], firstBreak := some c.breakText } c.next
        else read limit fuel { g with moreBreaks := g.moreBreaks ++ c.breakText } c.next
      else some (g, c)

end Gap

/-- The length of the word at the beginning of a plain scalar, if nothing forbidden ends it. -/
def plainWord (flow : Bool) : List Char → Option (List Char)
  | [] => some []
  | c :: rest =>
    if isSpace c || isBreak c then some []
    else if flow && c = ':' && rest.head?.any (fun n => isFlowMark n || n = '?') then none
    else if c = ':' && endsWord rest then some []
    else if flow && isFlowMark c then some []
    else (plainWord flow rest).map (c :: ·)

/-- Reads a plain scalar: its text, where it ends, and whether a line ended behind its last
word. -/
def readPlain (flow : Bool) (limit : Nat) :
    Nat → List Char → Gap → Cursor → Option (List Char × Cursor × Bool)
  | 0, done, _, c => some (done, c, false)
  | fuel + 1, done, gap, c =>
    let broken := gap.firstBreak.isSome
    if c.atDocumentMark || c.rest.head? = some '#' then some (done, c, broken)
    else do
      let word ← plainWord flow c.rest
      if word.isEmpty then some (done, c, broken)
      else
        let done := done ++ gap.text ++ word
        let c := c.skip word.length
        if !(c.atSpace || c.atBreak) then some (done, c, false)
        else
          let (gap, after) ← Gap.read limit (c.rest.length + 1) {} c
          if !flow && after.column < limit then some (done, after, gap.firstBreak.isSome)
          else readPlain flow limit fuel done gap after

/-- A character by its number in hexadecimal digits. -/
def codeEscape (digits : Nat) (c : Cursor) : Option (List Char × Cursor) := do
  let word := c.rest.take digits
  if word.length < digits then none
  else
    let code ← Document.natInBase? 16 word
    if (0xD800 ≤ code && code ≤ 0xDFFF) || 0x10FFFF < code then none
    else some ([Char.ofNat code], c.skip digits)

/-- What follows a backslash between double quotes. -/
def readEscape (c : Cursor) : Option (List Char × Cursor) :=
  match c.rest with
  | [] => none
  | x :: _ =>
    let one := fun (y : Char) => some ([y], c.next)
    match x with
    | '0' => one '\x00'
    | 'a' => one '\x07'
    | 'b' => one '\x08'
    | 't' => one '\t'
    | '\t' => one '\t'
    | 'n' => one '\n'
    | 'v' => one '\x0b'
    | 'f' => one '\x0c'
    | 'r' => one '\r'
    | 'e' => one '\x1b'
    | ' ' => one ' '
    | '"' => one '"'
    | '/' => one '/'
    | '\\' => one '\\'
    | 'N' => one '\u0085'
    | '_' => one '\u00A0'
    | 'L' => one '\u2028'
    | 'P' => one '\u2029'
    | 'x' => codeEscape 2 c.next
    | 'u' => codeEscape 4 c.next
    | 'U' => codeEscape 8 c.next
    | _ => none

/-- Reads a quoted scalar whose opening quote has been passed. `escaped` says that a backslash
joined the last line end to its line. -/
def readQuoted (single : Bool) : Nat → List Char → Cursor → Option (List Char × Cursor)
  | 0, _, _ => none
  | fuel + 1, done, c =>
    if c.atDocumentMark then none
    else match c.rest with
      | [] => none
      | '\'' :: '\'' :: _ =>
        if single then readQuoted single fuel (done ++ ['\'']) (c.skip 2)
        else readQuoted single fuel (done ++ ['\'', '\'']) (c.skip 2)
      | x :: rest =>
        if x = (if single then '\'' else '"') then some (done, c.next)
        else if x = '\\' && !single then
          if rest.head?.any isBreak then do
            -- the line end is passed over, and so are the blanks in front of the next word
            let after := c.next.next
            let (gap, after) ← Gap.read 0 (after.rest.length + 1) { firstBreak := some [] } after
            readQuoted single fuel (done ++ gap.moreBreaks) after
          else do
            let (cs, after) ← readEscape c.next
            readQuoted single fuel (done ++ cs) after
        else if isSpace x || isBreak x then do
          let (gap, after) ← Gap.read 0 (c.rest.length + 1) {} c
          readQuoted single fuel (done ++ gap.text) after
        else readQuoted single fuel (done ++ [x]) c.next

/-! ## Block scalars -/

/-- What is done with the line ends behind a block scalar. -/
inductive Chomping where
  | strip
  | clip
  | keep
deriving DecidableEq, Repr

/-- The marks behind the sign of a block scalar, in either order. -/
def readHeader (c : Cursor) : Option (Chomping × Option Nat × Cursor) :=
  let chomping := fun (x : Char) =>
    if x = '+' then some Chomping.keep else if x = '-' then some Chomping.strip else none
  match c.rest with
  | [] => some (.clip, none, c)
  | x :: rest =>
    match chomping x with
    | some how =>
      match rest.head? with
      | some d =>
        if d.isDigit then
          if d = '0' then none else some (how, some (d.toNat - '0'.toNat), c.skip 2)
        else some (how, none, c.skip 1)
      | none => some (how, none, c.skip 1)
    | none =>
      if x.isDigit then
        if x = '0' then none
        else
          let size := x.toNat - '0'.toNat
          match rest.head?.bind chomping with
          | some how => some (how, some size, c.skip 2)
          | none => some (.clip, some size, c.skip 1)
      else some (.clip, none, c)

/-- Passes indentation and empty lines in front of a line of a block scalar. Without a known
column the deepest indentation seen is answered. -/
def readBreaks (column : Option Nat) : Nat → Nat → List Char → Cursor →
    Option (List Char × Nat × Cursor)
  | 0, deepest, breaks, c => some (breaks, deepest, c)
  | fuel + 1, deepest, breaks, c =>
    let room := match column with
      | none => c.rest.length
      | some limit => limit - c.column
    let blanks := (c.rest.take room).takeWhile (· = ' ')
    let c := c.skip blanks.length
    let deepest := max deepest c.column
    if column.all (fun limit => c.column < limit) && c.rest.head? = some '\t' then none
    else if c.atBreak then readBreaks column fuel deepest (breaks ++ c.breakText) c.next
    else some (breaks, deepest, c)

/-- Reads the lines of a block scalar that begin at a column. `lineBreak` is the end of the line
before and `wasBlank` says that it began with a blank. -/
def readBlockLines (literal : Bool) (column : Nat) :
    Nat → List Char → List Char → List Char → Bool → Cursor →
    Option (List Char × List Char × List Char × Cursor)
  | 0, done, lineBreak, breaks, _, c => some (done, lineBreak, breaks, c)
  | fuel + 1, done, lineBreak, breaks, wasBlank, c =>
    if c.column ≠ column || c.rest.isEmpty then some (done, lineBreak, breaks, c)
    else do
      let blank := c.atSpace
      let join :=
        if !literal && lineBreak = ['\n'] && !wasBlank && !blank then
          if breaks.isEmpty then [' '] else []
        else lineBreak
      let (word, after) := c.span fun x => !isBreak x
      let done := done ++ join ++ breaks ++ word
      if after.rest.isEmpty then some (done, [], [], after)
      else
        let (breaks, _, next) ←
          readBreaks (some column) (after.rest.length + 1) 0 [] after.next
        readBlockLines literal column fuel done after.breakText breaks blank next

/-- Reads a block scalar whose sign has been passed. `base` is where blocks within the current one
begin at the least. -/
def readBlockScalar (literal : Bool) (base : Nat) (blockColumn : Nat) (c : Cursor) :
    Option (List Char × Cursor) := do
  let (chomping, size, c) ← readHeader c
  let c := (c.span isSpace).2.skipComment
  if !(c.rest.isEmpty || c.atBreak) then none
  else
    let c := c.next
    let fuel := c.rest.length + 1
    let known := size.map fun n => blockColumn + n
    let (breaks, deepest, c) ← readBreaks known fuel 0 [] c
    let column := known.getD (max (max deepest base) 1)
    let (done, lineBreak, breaks, c) ← readBlockLines literal column fuel [] [] breaks false c
    let ending := match chomping with
      | .strip => []
      | .clip => lineBreak
      | .keep => lineBreak ++ breaks
    some (done ++ ending, c)

/-! ## Tokens -/

def readName (c : Cursor) : Option (String × Cursor) :=
  let (name, after) := c.span isNameChar
  let endsHere := endsWord after.rest ||
    after.rest.head?.any fun x => ['?', ':', ',', ']', '}', '%', '@', '\x60'].contains x
  if name.isEmpty || !endsHere then none else some (String.ofList name, after)

/-- Whether every percent sign is followed by two hexadecimal digits. -/
def isEscaped : List Char → Bool
  | [] => true
  | '%' :: a :: b :: rest =>
    (Document.natInBase? 16 [a]).isSome && (Document.natInBase? 16 [b]).isSome && isEscaped rest
  | c :: rest => c ≠ '%' && isEscaped rest

/-- Reads a tag: its handle and its name. -/
def readTag (flow : Bool) (c : Cursor) : Option (String × String × Cursor) := do
  let whole := ['!', '<'].isPrefixOf c.rest
  let (handle, name, after) ←
    if whole then
      let (uri, after) := (c.skip 2).span fun x => isTagChar x || x = ',' || x = '[' || x = ']'
      if uri.isEmpty || after.rest.head? ≠ some '>' then none else some ([], uri, after.skip 1)
    else
      let (word, afterWord) := (c.skip 1).span isNameChar
      if afterWord.rest.head? = some '!' then
        let (name, after) := (afterWord.skip 1).span isTagChar
        if name.isEmpty then none else some ('!' :: word ++ ['!'], name, after)
      else
        let (name, after) := (c.skip 1).span isTagChar
        some (['!'], name, after)
  let endsHere := endsWord after.rest || (flow && after.rest.head? = some ',')
  if isEscaped name && endsHere then some (String.ofList handle, String.ofList name, after)
  else none

/-- Begins a bracketed collection. -/
def openFlow (s : Scanner) (t : Token) : Option Scanner := do
  let s ← s.saveCandidate
  some { s.push t with
    candidates := none :: s.candidates, keyAllowed := true, cursor := s.cursor.next }

def closeFlow (s : Scanner) (t : Token) : Option Scanner := do
  let s ← s.dropCandidate
  let candidates := if s.inFlow then s.candidates.drop 1 else s.candidates
  some { s.push t with candidates, keyAllowed := false, cursor := s.cursor.next }

/-- A mark for the beginning or end of a document. -/
def documentMark (s : Scanner) (t : Token) : Option Scanner := do
  let s ← (s.closeBlocks none).dropCandidate
  some { s.push t with keyAllowed := false, cursor := s.cursor.skip 3 }

def entryMark (s : Scanner) : Option Scanner := do
  if !s.inFlow && !s.keyAllowed then none
  else
    let s := s.openBlock s.cursor.column s.tokens.size .blockSequenceStart
    let s ← s.dropCandidate
    some { s.push .blockEntry with keyAllowed := true, cursor := s.cursor.next }

def keyMark (s : Scanner) : Option Scanner := do
  if !s.inFlow && !s.keyAllowed then none
  else
    let s := s.openBlock s.cursor.column s.tokens.size .blockMappingStart
    let s ← s.dropCandidate
    some { s.push .key with keyAllowed := !s.inFlow, cursor := s.cursor.next }

/-- The colon behind a key. -/
def valueMark (s : Scanner) : Option Scanner :=
  match s.candidate? with
  | some k =>
    let s := { s with tokens := s.tokens.insertIdx! k.index .key }
    let s := (s.openBlock k.column k.index .blockMappingStart).setCandidate none
    some { s.push .value with keyAllowed := false, cursor := s.cursor.next }
  | none =>
    if !s.inFlow && !s.keyAllowed then none
    else
      let s := s.openBlock s.cursor.column s.tokens.size .blockMappingStart
      some { s.push .value with keyAllowed := !s.inFlow, cursor := s.cursor.next }

/-- Whether a word can be declared to stand in front of the names of tags. -/
def isHandle (word : List Char) : Bool :=
  word = ['!'] ||
    (1 < word.length && word.head? = some '!' && word.getLast? = some '!' &&
      (word.drop 1).dropLast.all isNameChar)

def directiveLine (s : Scanner) : Option Scanner := do
  let s ← (s.closeBlocks none).dropCandidate
  let (line, cursor) := s.cursor.span fun x => !isBreak x
  let words := (line.takeWhile (· ≠ '#'))
  let name := (words.drop 1).takeWhile fun c => !isSpace c
  if name.isEmpty then none
  else
    let version := name = ['Y', 'A', 'M', 'L']
    let argument := ((words.drop (1 + name.length)).dropWhile isSpace).reverse.dropWhile isSpace
    let read := { s with keyAllowed := false, cursor }
    if version then
      if ["1.1", "1.2"].contains (String.ofList argument.reverse) then
        some (read.push (.directive .version))
      else none
    else if name ≠ ['T', 'A', 'G'] then none
    else
      let handle := argument.reverse.takeWhile fun c => !isSpace c
      if isHandle handle && handle.length < argument.length then
        some (read.push (.directive (.tagHandle (String.ofList handle))))
      else none

/-- Takes a scalar, an alias, an anchor or a tag that was read as a token. -/
def accept (s : Scanner) (t : Token) (cursor : Cursor) (keyAllowed : Bool) : Option Scanner := do
  let s ← s.saveCandidate
  some { s.push t with cursor, keyAllowed }

/-- Whether a plain scalar can begin with a character in front of some text. -/
def beginsPlain (flow : Bool) (c : Char) (rest : List Char) : Bool :=
  let indicators := ['-', '?', ':', ',', '[', ']', '{', '}', '#', '&', '*', '!', '|', '>', '\'',
    '"', '%', '@', '\x60']
  !(isSpace c || isBreak c || indicators.contains c) ||
    (c = '-' && !(rest.head?.any isSpace)) ||
    (!flow && (c = '?' || c = ':') && !endsWord rest)

/-- Takes the token that begins with a character. -/
def token (s : Scanner) (c : Char) (rest : List Char) : Option Scanner :=
  let cursor := s.cursor
  let fuel := cursor.rest.length + 1
  let scalar := fun (cs : List Char) (plain : Bool) => Token.scalar (String.ofList cs) plain
  if cursor.column = 0 && c = '%' then s.directiveLine
  else if cursor.atMark '-' then s.documentMark .documentStart
  else if cursor.atMark '.' then s.documentMark .documentEnd
  else if c = '[' then s.openFlow .flowSequenceStart
  else if c = '{' then s.openFlow .flowMappingStart
  else if c = ']' then s.closeFlow .flowSequenceEnd
  else if c = '}' then s.closeFlow .flowMappingEnd
  else if c = ',' then do
    let s ← s.dropCandidate
    some { s.push .flowEntry with keyAllowed := true, cursor := cursor.next }
  else if c = '-' && endsWord rest then s.entryMark
  else if c = '?' && (s.inFlow || endsWord rest) then s.keyMark
  else if c = ':' && (s.inFlow || endsWord rest) then s.valueMark
  else if c = '*' then do
    let (name, after) ← readName cursor.next
    s.accept (.alias name) after false
  else if c = '&' then do
    let (name, after) ← readName cursor.next
    s.accept (.anchor name) after false
  else if c = '!' then do
    let (handle, name, after) ← readTag s.inFlow cursor
    s.accept (.tag handle name) after false
  else if (c = '|' || c = '>') && !s.inFlow then do
    let s ← s.dropCandidate
    let (text, after) ← readBlockScalar (c = '|') s.indent (s.indent - 1) cursor.next
    some { s.push (scalar text false) with keyAllowed := true, cursor := after }
  else if c = '\'' || c = '"' then do
    let (text, after) ← readQuoted (c = '\'') fuel [] cursor.next
    s.accept (scalar text false) after false
  else if beginsPlain s.inFlow c rest then do
    let (text, after, broken) ← readPlain s.inFlow s.indent fuel [] {} cursor
    s.accept (scalar text true) after broken
  else none

/-- Takes the next tokens from the text; `none` within the result says that the text has ended. -/
def step (s : Scanner) : Option (Scanner × Bool) := do
  let s := skipFiller (s.cursor.rest.length + 1) s
  let s ← s.dropStale
  match s.cursor.rest with
  | [] => do
    let s ← (s.closeBlocks none).dropCandidate
    some (s, true)
  | c :: rest => do
    let s ← (s.closeBlocks (some s.cursor.column)).token c rest
    some (s, false)

def run : Nat → Scanner → Option Scanner
  | 0, _ => none
  | fuel + 1, s => do
    let (s, ended) ← s.step
    if ended then some s else run fuel s

end Scanner

/-- The tokens of a text. A mark of the byte order in front is passed over. -/
def tokens? (text : String) : Option (List Token) :=
  let cs := match text.toList with
    | c :: rest => if c = Scanner.byteOrderMark then rest else c :: rest
    | [] => []
  if cs.all isPrintable then
    (Scanner.run (2 * cs.length + 2) { cursor := { rest := cs } }).map (·.tokens.toList)
  else none

end LintGate.Yaml
