import LintGate.Text.Ascii
import LintGate.Text.Blank
import LintGate.Text.Pieces

/-!
# Languages

The toolchains that can be checked, in the order in which they are detected and reported. A
`Profile` says which files belong to a language, which directories never do, and which tools are
tried for it. `Language.ofId?` reads the name of a language as people write it, and
`Language.ofExactId?` the word that a document has for it.
-/

namespace LintGate

inductive Language where
  | go
  | python
  | javascript
  | rust
  | shell
  | terraform
  | yaml
  | markdown
  | nix
deriving DecidableEq, Repr

/-- What makes a language apply to a working tree. -/
inductive DetectionRule where
  /-- A file has exactly this name. -/
  | marker (name : String)
  /-- A file has this extension, written without its dot. -/
  | extension (suffix : String)
deriving DecidableEq, Repr

/-- The facts about one language. -/
structure Profile where
  id : String
  markers : List String := []
  extensions : List String
  /-- Ignore rules for what never belongs to the language. -/
  excludes : List String := []
  /-- Names of formatters, the preferred one first. -/
  formatters : List String := []
  /-- Names of linters, the preferred one first. -/
  linters : List String := []
  /-- Rules that a linter leaves alone when it repairs, unless the settings say otherwise. -/
  unfixable : List String := []
deriving DecidableEq, Repr

namespace Language

/-- All languages, in detection order. -/
def all : List Language :=
  [go, python, javascript, rust, shell, terraform, yaml, markdown, nix]

theorem mem_all (l : Language) : l ∈ all := by
  cases l <;> decide

/-- The place of a language in detection order. -/
def index (l : Language) : Nat :=
  all.idxOf l

def profile : Language → Profile
  | go => {
      id := "go"
      markers := ["go.mod", "go.work"]
      extensions := ["go"]
      excludes := ["vendor/", "testdata/"]
      formatters := ["gofumpt", "gofmt"]
      linters := ["golangci-lint", "go-vet"] }
  | python => {
      id := "python"
      markers := ["pyproject.toml", "setup.py", "setup.cfg", "requirements.txt", "Pipfile"]
      extensions := ["py", "pyi"]
      excludes := [".venv/", "venv/", "__pycache__/", ".tox/", "build/", "dist/", "*.egg-info/"]
      formatters := ["ruff-format", "black"]
      linters := ["ruff", "flake8"]
      unfixable := ["F401"] }
  | javascript => {
      id := "javascript"
      markers := ["package.json", "tsconfig.json", "deno.json"]
      extensions := ["js", "jsx", "mjs", "cjs", "ts", "tsx", "mts", "cts"]
      excludes := ["node_modules/", "dist/", "build/", ".next/", "coverage/", "*.min.js"]
      formatters := ["biome-format", "prettier"]
      linters := ["biome-lint", "eslint"] }
  | rust => {
      id := "rust"
      markers := ["Cargo.toml"]
      extensions := ["rs"]
      excludes := ["target/"]
      formatters := ["rustfmt"]
      linters := ["clippy"] }
  | shell => {
      id := "shell"
      extensions := ["sh", "bash"]
      formatters := ["shfmt"]
      linters := ["shellcheck"] }
  | terraform => {
      id := "terraform"
      extensions := ["tf", "tfvars"]
      excludes := [".terraform/"]
      formatters := ["terraform-fmt", "tofu-fmt"]
      linters := ["tflint"] }
  | yaml => {
      id := "yaml"
      extensions := ["yml", "yaml"]
      formatters := ["yamlfmt"]
      linters := ["yamllint"] }
  | markdown => {
      id := "markdown"
      extensions := ["md", "markdown"]
      excludes := ["CHANGELOG.md"]
      linters := ["markdownlint-cli2", "markdownlint"] }
  | nix => {
      id := "nix"
      markers := ["flake.nix"]
      extensions := ["nix"]
      excludes := ["result/"]
      formatters := ["alejandra", "nixpkgs-fmt"]
      linters := ["statix"] }

def id (l : Language) : String :=
  l.profile.id

/-- The word for a language in documents. -/
def word : Language → String
  | go => "go"
  | python => "python"
  | javascript => "javascript"
  | rust => "rust"
  | shell => "shell"
  | terraform => "terraform"
  | yaml => "yaml"
  | markdown => "markdown"
  | nix => "nix"

/-- Other words that documents may use for a language. -/
def aliases : Language → List String
  | javascript => ["typescript", "js", "ts"]
  | _ => []

/-- The language for which a document has this word, spelt exactly. -/
def ofExactId? (name : String) : Option Language :=
  all.find? fun l => name == l.word || l.aliases.contains name

/-- The language with this id or another usual name, whatever its letter case and the blanks around
it. -/
def ofId? (name : String) : Option Language :=
  match Text.asciiLower (Text.trim name) with
  | "typescript" | "js" | "ts" => some javascript
  | id => all.find? (·.id == id)

/-- Documents call a language by its id. -/
theorem word_eq_id (l : Language) : l.word = l.id := by
  cases l <;> rfl

theorem ofExactId?_id (l : Language) : ofExactId? l.id = some l := by
  cases l <;> decide

end Language

namespace Profile

/-- Markers first, then extensions. -/
def detectionRules (p : Profile) : List DetectionRule :=
  p.markers.map .marker ++ p.extensions.map .extension

/-- The part of a file name after its last dot. A dot that opens the name begins no extension. -/
def extensionOf? (fileName : String) : Option String :=
  match Text.pieces '.' fileName.toList with
  | [] => none
  | [_] => none
  | [first, last] => if first.isEmpty then none else some (String.ofList last)
  | parts => parts.getLast?.map String.ofList

/-- A file belongs to a language when its name carries one of the language's extensions. -/
def claims (p : Profile) (fileName : String) : Bool :=
  match extensionOf? fileName with
  | none => false
  | some found => p.extensions.any fun suffix => Text.sameIgnoringCase suffix found

end Profile

example : (Language.profile .python).claims "stubs.PYI" = true := by decide

example : (Language.profile .python).claims ".py" = false := by decide

end LintGate
