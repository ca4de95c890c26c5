import LintGate.Tool.Recovery

/-!
# Catalog of tools

A `Tool` says how a formatter or linter is found, and how it is called to repair files and to
check them. `Tool.ofName?` finds a tool by the name that languages and settings use for it.
-/

namespace LintGate

/-- What a tool is pointed at. -/
inductive Targets where
  /-- The selected files, many to an invocation. -/
  | files
  /-- The directories that hold selected files. -/
  | directories
  /-- Nothing: the tool looks at the whole project. -/
  | project
  /-- The selected files, one to an invocation. -/
  | eachFile
deriving DecidableEq, Repr

namespace Targets

def text : Targets → String
  | files => "files"
  | directories => "dirs"
  | project => "project"
  | eachFile => "each-file"

end Targets

/-- The program to run when it is not the one whose presence is looked for. -/
structure Launcher where
  program : String
  /-- Arguments that come before all others. -/
  args : List String
deriving DecidableEq, Repr

structure Tool where
  name : String
  /-- The program whose presence shows that the tool is installed. -/
  binary : String
  launcher : Option Launcher := none
  /-- Arguments that repair files in place; a tool without them only checks. -/
  fix : Option (List String) := none
  check : List String
  /-- Arguments for checking, by installed version. -/
  versioned : List ByVersion := []
  targets : Targets := .files
  /-- A check that finds fault says so by printing, and still ends with exit code 0. -/
  failsOnOutput : Bool := false
  /-- Exit codes that mean that the tool could not do its work. -/
  failureCodes : List Nat := []
  timeoutSeconds : Nat := 120
  /-- Arguments for a check that repairs what can be repaired safely. -/
  autofix : Option (List String) := none
  /-- The option that keeps one rule out of such repairs. -/
  unfixableOption : Option String := none
  recovery : Option RecoveryRule := none
deriving DecidableEq, Repr

namespace Tool

def gofumpt : Tool where
  name := "gofumpt"
  binary := "gofumpt"
  fix := some ["-w"]
  check := ["-l"]
  failsOnOutput := true

def gofmt : Tool :=
  { gofumpt with name := "gofmt", binary := "gofmt" }

def golangciLint : Tool where
  name := "golangci-lint"
  binary := "golangci-lint"
  check := ["run", "--fast"]
  versioned := [⟨2, ["run", "--fast-only"]⟩]
  targets := .directories
  failureCodes := [2, 3, 4, 5, 7]
  timeoutSeconds := 300
  autofix := some ["run", "--fix"]
  recovery := some .golangciLint

def goVet : Tool where
  name := "go-vet"
  binary := "go"
  check := ["vet"]
  targets := .directories
  timeoutSeconds := 180

def ruffFormat : Tool where
  name := "ruff-format"
  binary := "ruff"
  fix := some ["format", "--quiet"]
  check := ["format", "--check", "--quiet"]
  failureCodes := [2]
  recovery := some .ruff

def black : Tool where
  name := "black"
  binary := "black"
  fix := some ["--quiet"]
  check := ["--check", "--quiet"]
  failureCodes := [123]

def ruff : Tool where
  name := "ruff"
  binary := "ruff"
  check := ["check", "--quiet", "--no-fix"]
  failureCodes := [2]
  autofix := some ["check", "--quiet", "--fix"]
  unfixableOption := some "--unfixable"
  recovery := some .ruff

def flake8 : Tool where
  name := "flake8"
  binary := "flake8"
  check := []

def biomeFormat : Tool where
  name := "biome-format"
  binary := "biome"
  fix := some ["format", "--write"]
  check := ["format"]

def prettier : Tool where
  name := "prettier"
  binary := "prettier"
  fix := some ["--write", "--log-level", "warn"]
  check := ["--check", "--log-level", "warn"]
  failureCodes := [2]

def biomeLint : Tool where
  name := "biome-lint"
  binary := "biome"
  check := ["lint"]
  autofix := some ["lint", "--write"]

def eslint : Tool where
  name := "eslint"
  binary := "eslint"
  check := ["--max-warnings", "0"]
  failureCodes := [2]
  autofix := some ["--max-warnings", "0", "--fix"]
  recovery := some .eslint

def rustfmt : Tool where
  name := "rustfmt"
  binary := "rustfmt"
  fix := some ["--edition", "2021"]
  check := ["--edition", "2021", "--check"]

def clippy : Tool where
  name := "clippy"
  binary := "cargo-clippy"
  launcher := some ⟨"cargo", ["clippy", "--quiet"]⟩
  check := ["--", "-D", "warnings"]
  targets := .project
  timeoutSeconds := 600
  autofix := some ["--fix", "--allow-dirty", "--allow-staged", "--", "-D", "warnings"]

def shfmt : Tool where
  name := "shfmt"
  binary := "shfmt"
  fix := some ["-w"]
  check := ["-d"]

def shellcheck : Tool where
  name := "shellcheck"
  binary := "shellcheck"
  check := ["--format", "gcc"]
  failureCodes := [2, 3, 4]

def terraformFmt : Tool where
  name := "terraform-fmt"
  binary := "terraform"
  fix := some ["fmt"]
  check := ["fmt", "-check", "-diff"]
  targets := .eachFile

def tofuFmt : Tool :=
  { terraformFmt with name := "tofu-fmt", binary := "tofu" }

def tflint : Tool where
  name := "tflint"
  binary := "tflint"
  check := ["--format", "compact"]
  targets := .project
  timeoutSeconds := 180

def yamlfmt : Tool where
  name := "yamlfmt"
  binary := "yamlfmt"
  fix := some []
  check := ["-lint"]

def yamllint : Tool where
  name := "yamllint"
  binary := "yamllint"
  check := ["--strict", "--format", "parsable"]

def markdownlintCli2 : Tool where
  name := "markdownlint-cli2"
  binary := "markdownlint-cli2"
  check := []
  failureCodes := [2]
  autofix := some ["--fix"]

def markdownlint : Tool where
  name := "markdownlint"
  binary := "markdownlint"
  check := []
  autofix := some ["--fix"]

def alejandra : Tool where
  name := "alejandra"
  binary := "alejandra"
  fix := some ["--quiet"]
  check := ["--check", "--quiet"]

def nixpkgsFmt : Tool where
  name := "nixpkgs-fmt"
  binary := "nixpkgs-fmt"
  fix := some []
  check := ["--check"]

def statix : Tool where
  name := "statix"
  binary := "statix"
  check := ["check", "--format", "errfmt"]
  targets := .eachFile
  timeoutSeconds := 60

/-- Every tool that is known. -/
def catalog : List Tool :=
  [gofumpt, gofmt, golangciLint, goVet, ruffFormat, black, ruff, flake8, biomeFormat, prettier,
    biomeLint, eslint, rustfmt, clippy, shfmt, shellcheck, terraformFmt, tofuFmt, tflint, yamlfmt,
    yamllint, markdownlintCli2, markdownlint, alejandra, nixpkgsFmt, statix]

def ofName? (name : String) : Option Tool :=
  catalog.find? (·.name == name)

/-- The arguments for a check by the given installed major version. -/
def checkArgs (t : Tool) (major : Option Nat) : List String :=
  ByVersion.choose t.check t.versioned major

/-- Only a tool whose arguments depend on its version is asked for it. -/
def needsVersion (t : Tool) : Bool :=
  !t.versioned.isEmpty || t.recovery.any fun rule => !rule.versioned.isEmpty

example : (catalog.map (·.name)).Nodup := by decide

end Tool

end LintGate
