import LintGate.Document.Yaml.Token

/-!
# Documents from YAML

A text holds at most one document. An alias stands for the node with its anchor, which comes
before it. An empty text is an empty plain scalar, which reads as a record without fields.
-/

namespace LintGate.Yaml

/-- The anchors that have been read, the latest first, with their nodes. -/
abbrev Anchors := List (String × Document)

/-- A node that was read, the anchors after it and the tokens that are left. -/
abbrev Composed (α : Type) := α × Anchors × List Token

def nothing : Document := .plain "" none

/-- What an alias stands for within the node that it names. No value is read from it. -/
def withinItself : Document := .record [(none, nothing)]

/-- The handle for standard tags, which is short for what they begin with. -/
def standardHandle : String := "!!"

def standardTags : String := "tag:yaml.org,2002:"

/-- The tag of a handle and a name. -/
def tagName (handle name : String) : String :=
  if handle = standardHandle then standardTags ++ name else handle ++ name

/-- The anchor and the tag in front of a node. -/
structure Properties where
  anchor : Option String := none
  tag : Option String := none

def readProperties (ts : List Token) : Properties × List Token :=
  match ts with
  | .anchor a :: .tag h t :: rest => (⟨some a, some (tagName h t)⟩, rest)
  | .tag h t :: .anchor a :: rest => (⟨some a, some (tagName h t)⟩, rest)
  | .anchor a :: rest => (⟨some a, none⟩, rest)
  | .tag h t :: rest => (⟨none, some (tagName h t)⟩, rest)
  | rest => ({}, rest)

/-- The key of a field, if it is a scalar. -/
def keyName? : Document → Option String
  | .plain s _ => some s
  | .text s => some s
  | _ => none

/-- Whether a block mapping goes on without a node here. -/
def endsBlockNode : List Token → Bool
  | .key :: _ => true
  | .value :: _ => true
  | .blockEnd :: _ => true
  | _ => false

def endsFlowNode (close : Token) : List Token → Bool
  | .flowEntry :: _ => true
  | t :: _ => t = close
  | [] => false

mutual

/-- Reads a node. Within the value of a mapping a sequence may stand without indentation of its
own. -/
def readNode (block indentless : Bool) (anchors : Anchors) :
    Nat → List Token → Option (Composed Document)
  | 0, _ => none
  | _ + 1, .alias name :: rest => (anchors.lookup name).map fun d => (d, anchors, rest)
  | fuel + 1, ts => do
    let (properties, rest) := readProperties ts
    match properties.anchor with
    | some name => do
      let (d, anchors, rest) ←
        readContent block indentless properties ((name, withinItself) :: anchors) fuel rest
      some (d, (name, d) :: anchors, rest)
    | none => readContent block indentless properties anchors fuel rest

def readContent (block indentless : Bool) (properties : Properties) (anchors : Anchors) :
    Nat → List Token → Option (Composed Document)
  | 0, _ => none
  | fuel + 1, ts =>
    match ts with
    | .scalar s plain :: rest =>
      some (if plain then .plain s properties.tag else .text s, anchors, rest)
    | .flowSequenceStart :: rest => do
      let (items, anchors, rest) ← readFlowItems true anchors fuel rest
      some (.sequence items, anchors, rest)
    | .flowMappingStart :: rest => do
      let (fields, anchors, rest) ← readFlowFields true anchors fuel rest
      some (.record fields, anchors, rest)
    | .blockEntry :: _ =>
      if indentless then do
        let (items, anchors, rest) ← readEntries false anchors fuel ts
        some (.sequence items, anchors, rest)
      else readEmpty properties anchors ts
    | .blockSequenceStart :: rest =>
      if block then do
        let (items, anchors, rest) ← readEntries true anchors fuel rest
        some (.sequence items, anchors, rest)
      else readEmpty properties anchors ts
    | .blockMappingStart :: rest =>
      if block then do
        let (fields, anchors, rest) ← readFields anchors fuel rest
        some (.record fields, anchors, rest)
      else readEmpty properties anchors ts
    | _ => readEmpty properties anchors ts

/-- A node without content, which there is only behind an anchor or a tag. -/
def readEmpty (properties : Properties) (anchors : Anchors) (ts : List Token) :
    Option (Composed Document) :=
  if properties.anchor.isSome || properties.tag.isSome then
    some (.plain "" properties.tag, anchors, ts)
  else none

/-- Reads the entries of a block sequence. Only one with indentation of its own has an end
token. -/
def readEntries (closed : Bool) (anchors : Anchors) :
    Nat → List Token → Option (Composed (List Document))
  | 0, _ => none
  | fuel + 1, ts =>
    match ts with
    | .blockEntry :: rest => do
      let empty := match rest with
        | .blockEntry :: _ => true
        | .blockEnd :: _ => true
        | _ => !closed && endsBlockNode rest
      let (item, anchors, rest) ←
        if empty then some (nothing, anchors, rest) else readNode true false anchors fuel rest
      let (items, anchors, rest) ← readEntries closed anchors fuel rest
      some (item :: items, anchors, rest)
    | .blockEnd :: rest => if closed then some ([], anchors, rest) else some ([], anchors, ts)
    | _ => if closed then none else some ([], anchors, ts)

/-- Reads the fields of a block mapping up to its end. -/
def readFields (anchors : Anchors) :
    Nat → List Token → Option (Composed (List (Option String × Document)))
  | 0, _ => none
  | fuel + 1, ts =>
    match ts with
    | .blockEnd :: rest => some ([], anchors, rest)
    | .key :: rest => do
      let (key, anchors, rest) ←
        if endsBlockNode rest then some (nothing, anchors, rest)
        else readNode true true anchors fuel rest
      let (value, anchors, rest) ← readBlockValue anchors fuel rest
      let (fields, anchors, rest) ← readFields anchors fuel rest
      some ((keyName? key, value) :: fields, anchors, rest)
    | .value :: _ => do
      let (value, anchors, rest) ← readBlockValue anchors fuel ts
      let (fields, anchors, rest) ← readFields anchors fuel rest
      some ((some "", value) :: fields, anchors, rest)
    | _ => none

/-- Reads the value behind a key of a block mapping, if there is one. -/
def readBlockValue (anchors : Anchors) : Nat → List Token → Option (Composed Document)
  | 0, _ => none
  | fuel + 1, ts =>
    match ts with
    | .value :: rest =>
      if endsBlockNode rest then some (nothing, anchors, rest)
      else readNode true true anchors fuel rest
    | _ => some (nothing, anchors, ts)

/-- Reads the items of a sequence in brackets. -/
def readFlowItems (first : Bool) (anchors : Anchors) :
    Nat → List Token → Option (Composed (List Document))
  | 0, _ => none
  | fuel + 1, ts => do
    let close := Token.flowSequenceEnd
    if ts.head? = some close then some ([], anchors, ts.drop 1)
    else
      let ts ← if first then some ts
        else if ts.head? = some .flowEntry then some (ts.drop 1) else none
      match ts with
      | .flowSequenceEnd :: rest => some ([], anchors, rest)
      | .key :: rest => do
        let (key, anchors, rest) ←
          if rest.head? = some .value || endsFlowNode close rest then some (nothing, anchors, rest)
          else readNode false false anchors fuel rest
        let (value, anchors, rest) ← readFlowValue close anchors fuel rest
        let (items, anchors, rest) ← readFlowItems false anchors fuel rest
        some (.record [(keyName? key, value)] :: items, anchors, rest)
      | _ => do
        let (item, anchors, rest) ← readNode false false anchors fuel ts
        let (items, anchors, rest) ← readFlowItems false anchors fuel rest
        some (item :: items, anchors, rest)

/-- Reads the fields of a mapping in braces. -/
def readFlowFields (first : Bool) (anchors : Anchors) :
    Nat → List Token → Option (Composed (List (Option String × Document)))
  | 0, _ => none
  | fuel + 1, ts => do
    let close := Token.flowMappingEnd
    if ts.head? = some close then some ([], anchors, ts.drop 1)
    else
      let ts ← if first then some ts
        else if ts.head? = some .flowEntry then some (ts.drop 1) else none
      match ts with
      | .flowMappingEnd :: rest => some ([], anchors, rest)
      | .key :: rest => do
        let (key, anchors, rest) ←
          if rest.head? = some .value || endsFlowNode close rest then some (nothing, anchors, rest)
          else readNode false false anchors fuel rest
        let (value, anchors, rest) ← readFlowValue close anchors fuel rest
        let (fields, anchors, rest) ← readFlowFields false anchors fuel rest
        some ((keyName? key, value) :: fields, anchors, rest)
      | _ => do
        let (key, anchors, rest) ← readNode false false anchors fuel ts
        let (fields, anchors, rest) ← readFlowFields false anchors fuel rest
        some ((keyName? key, nothing) :: fields, anchors, rest)

/-- Reads the value behind a key in brackets or braces, if there is one. -/
def readFlowValue (close : Token) (anchors : Anchors) :
    Nat → List Token → Option (Composed Document)
  | 0, _ => none
  | fuel + 1, ts =>
    match ts with
    | .value :: rest =>
      if endsFlowNode close rest then some (nothing, anchors, rest)
      else readNode false false anchors fuel rest
    | _ => some (nothing, anchors, ts)

end

/-- Drops the marks of document ends. -/
def skipEnds (ts : List Token) : List Token :=
  ts.dropWhile (· = .documentEnd)

/-- Whether a document has no content here. -/
def endsDocument : List Token → Bool
  | [] => true
  | t :: _ => t.isDirective || t = .documentStart || t = .documentEnd

/-- Whether the lines in front of a document declare nothing twice. -/
def declaresOnce (ts : List Token) : Bool :=
  (ts.takeWhile Token.isDirective).Nodup

/-- Whether every handle in front of a tag is declared or known without that. -/
def handlesDeclared (ts : List Token) : Bool :=
  ts.all fun t =>
    match t with
    | .tag handle _ =>
      ["", "!", standardHandle].contains handle || ts.contains (.directive (.tagHandle handle))
    | _ => true

/-- The document of a text. -/
def document? (text : String) : Option Document := do
  let ts ← tokens? text
  let fuel := 4 * ts.length + 8
  if ts.isEmpty then some nothing
  else if !(declaresOnce ts && handlesDeclared ts) then none
  else
    let marked := ts.head?.any fun t => t.isDirective || t = .documentStart
    let content := ts.dropWhile Token.isDirective
    let content ←
      if !marked then some content
      else if content.head? = some .documentStart then some (content.drop 1) else none
    let (d, rest) ←
      if endsDocument content && marked then some (nothing, content)
      else (readNode true false [] fuel content).map fun r => (r.1, r.2.2)
    if (skipEnds rest).isEmpty then some d else none

end LintGate.Yaml
