/-!
# Characters of YAML

Which characters may stand in a YAML text at all, and which separate its words and lines.
-/

namespace LintGate.Yaml

/-- The character that ends a line and has no form of its own in other texts. -/
def isBreak (c : Char) : Bool :=
  c = '\n' || c = '\r' || c = '\u0085' || c = '\u2028' || c = '\u2029'

def isSpace (c : Char) : Bool :=
  c = ' ' || c = '\t'

/-- Whether the first character of a text ends a word. The end of the text does. -/
def endsWord : List Char → Bool
  | [] => true
  | c :: _ => isSpace c || isBreak c

def isFlowMark (c : Char) : Bool :=
  c = ',' || c = '[' || c = ']' || c = '{' || c = '}'

/-- Control characters and half surrogates stand nowhere in a text. -/
def isPrintable (c : Char) : Bool :=
  let n := c.toNat
  n = 0x09 || n = 0x0A || n = 0x0D || (0x20 ≤ n && n ≤ 0x7E) || n = 0x85 ||
    (0xA0 ≤ n && n ≤ 0xD7FF) || (0xE000 ≤ n && n ≤ 0xFFFD) || 0x10000 ≤ n

/-- The characters of names of anchors. -/
def isNameChar (c : Char) : Bool :=
  c.isAlphanum || c = '_' || c = '-'

/-- The characters of tags, apart from the percent sign of an escape. -/
def isTagChar (c : Char) : Bool :=
  isNameChar c || [';', '/', '?', ':', '@', '&', '=', '+', '$', '.', '%', '!', '~', '*', '\'', '(',
    ')'].contains c

end LintGate.Yaml
