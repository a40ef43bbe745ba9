import Drydock.Dockerfile.Instruction
import Drydock.Text.Blank
import Drydock.Text.Word

/-! What COPY instructions bring into an image: the whole source tree, or the
manifests that list what the source depends on. -/
namespace Drydock.Copy

def manifestNames : List Text :=
  ["package.json", "package-lock.json", "yarn.lock", "pnpm-lock.yaml", "bun.lock",
    "bun.lockb", "npm-shrinkwrap.json", "Pipfile", "Pipfile.lock", "poetry.lock",
    "pyproject.toml", "go.mod", "go.sum", "Cargo.toml", "Cargo.lock", "Gemfile",
    "Gemfile.lock", "composer.json", "composer.lock", "pom.xml", "build.gradle",
    "build.gradle.kts", "settings.gradle", "settings.gradle.kts"].map String.toList

/-- The part of a path after its last slash. -/
def fileName (path : Text) : Text :=
  (path.reverse.takeWhile (· != '/')).reverse

/-- Whether a name is `requirements` with any ending before `.txt`. -/
def isRequirements (name : Text) : Bool :=
  match Text.after? "requirements".toList name with
  | some rest =>
    rest.all (fun c => Text.isWord c || c == '.' || c == '-') &&
      ".txt".toList.isSuffixOf rest
  | none => false

/-- Whether a name is that of a project file of the `.csproj` kind. -/
def isProject (name : Text) : Bool :=
  ".csproj".toList.isSuffixOf name && ".csproj".length < name.length

def isManifest (path : Text) : Bool :=
  let name := fileName path
  manifestNames.contains name || isRequirements name || isProject name

/-- The paths that a COPY copies from: all operands but the last. -/
def sources (i : Instruction) : List Text :=
  match i.args with
  | .list items => items.dropLast
  | _ => ((Text.words i.value).filter (!Text.startsWith "--".toList ·)).dropLast

def fromStage (i : Instruction) : Bool :=
  (Text.words i.value).any (Text.startsWith "--from".toList)

def copiesTree (i : Instruction) : Bool :=
  !fromStage i && (sources i).any (fun path => path = ".".toList || path = "./".toList)

/-- Whether a COPY brings in a manifest. Stars in a path may stand for
nothing. -/
def copiesManifest (i : Instruction) : Bool :=
  !fromStage i &&
    (sources i).any (fun path => isManifest (path.filter (· != '*')) || isManifest path)

end Drydock.Copy
