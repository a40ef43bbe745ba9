import Drydock.Dockerfile.BuildKit
import Drydock.Rule.Catalog

/-! Checks of single lines, for files that do not parse. Four of the rules have
a form that looks at one line alone and reports each line that breaks it;
besides, every feature of the extended syntax in use is reported as passed. -/
namespace Drydock.LineScan

/-- What follows a keyword and blanks at the beginning of a line. -/
def operand? (keyword : String) (line : Text) : Option Text :=
  match (BuildKit.afterKeyword? keyword line).bind Text.afterBlanks? with
  | some (c :: rest) => some (c :: rest)
  | _ => none

def failure (rule : Rule) (n : Nat) (message : String) : Finding :=
  { rule.failure ("Line " ++ n.repr ++ ": " ++ message) with line := some n }

def latestImage (n : Nat) (line : Text) : List Finding :=
  match operand? "from" line with
  | none => []
  | some args =>
    let image := Image.reference args
    if Image.isLatest image then
      [failure Rule.pinnedBaseImage n
        ("base image '" ++ String.ofList image ++ "' uses the latest tag")]
    else []

/-- A line that assigns a secret and is not the mount of one. -/
def hardcodedSecret (n : Nat) (line : Text) : List Finding :=
  if Secret.looksSecret line && !BuildKit.isSecretMountLine line then
    match Secret.holder? line with
    | some name =>
      let detail := String.ofList name
      [{ failure Rule.noSecrets n ("potential hardcoded secret: " ++ detail) with
        details := some detail }]
    | none => [failure Rule.noSecrets n "potential hardcoded secret"]
  else []

def rootUser (n : Nat) (line : Text) : List Finding :=
  match operand? "user" line with
  | none => []
  | some args =>
    if Account.isRoot (Text.firstRun args) then
      [failure Rule.noRootUser n "container switches to the root user"]
    else []

def recommendedPackages (n : Nat) (line : Text) : List Finding :=
  if Command.installsRecommended line then
    [failure Rule.noInstallRecommends n "apt-get install without --no-install-recommends"]
  else []

def scanLine (n : Nat) (line : Text) : List Finding :=
  let trimmed := Text.trim line
  if trimmed.isEmpty || trimmed.head? = some '#' then []
  else latestImage n trimmed ++ hardcodedSecret n trimmed ++ rootUser n trimmed ++
    recommendedPackages n trimmed

/-- The findings on lines of which the first has number `n`. -/
def scanFrom (n : Nat) : List Text → List Finding
  | [] => []
  | line :: rest => scanLine n line ++ scanFrom (n + 1) rest

def featureFindings (features : Features) (lines : List Text) : List Finding :=
  (match features.directive with
    | some parser =>
      [Finding.pass "buildkit-syntax" .info
        ("BuildKit syntax directive in use (" ++ parser ++ ")")]
    | none => []) ++
  (if features.heredocs then
    [Finding.pass "buildkit-heredoc" .info "Heredocs keep multi-line scripts readable"]
    else []) ++
  (if features.mounts && lines.any BuildKit.hasPlainMount then
    [Finding.pass "buildkit-cache-mount" .info "RUN --mount speeds up rebuilds"] else []) ++
  (if features.secretMounts then
    [Finding.pass "buildkit-secret-mount" .info "Secrets are provided through secret mounts"]
    else [])

def scan (features : Features) (content : Text) : List Finding :=
  let lines := Text.lines content
  scanFrom 1 lines ++ featureFindings features lines

end Drydock.LineScan
