import LintGate.Document
import LintGate.Json

/-!
# Documents from JSON

Of several fields with one name the last has its value and the first its place.
-/

namespace LintGate.Json

/-- Puts a field into an object, in the place of an earlier one of its name. -/
def putField (name : Option String) (value : Document) :
    List (Option String × Document) → List (Option String × Document)
  | [] => [(name, value)]
  | (n, old) :: rest =>
    if n = name then (n, value) :: rest else (n, old) :: putField name value rest

def scalarDocument : Number → Document
  | .integer n => .integer n
  | .float x => .float x

mutual

def document : Json → Document
  | .null => .null
  | .bool b => .bool b
  | .number n => (n.map scalarDocument).getD .null
  | .string s => .text (s.getD "")
  | .array items => .sequence (documentItems items)
  | .object fields => .record (documentFields fields [])

def documentItems : List Json → List Document
  | [] => []
  | item :: rest => item.document :: documentItems rest

def documentFields : List (Option String × Json) → List (Option String × Document) →
    List (Option String × Document)
  | [], done => done
  | (name, value) :: rest, done => documentFields rest (putField name value.document done)

end

end LintGate.Json
