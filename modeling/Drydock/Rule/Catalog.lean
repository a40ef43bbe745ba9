import Drydock.Rule.Argument
import Drydock.Rule.Basic
import Drydock.Rule.Copy
import Drydock.Rule.Secret

/-! The rules, in the order in which they are reported. -/
namespace Drydock.Rule

/-- Whether the last USER names an account other than root. -/
def endsUnprivileged (instructions : List Instruction) : Bool :=
  match (named "USER" instructions).getLast? with
  | some user => !Account.isRoot user.value
  | none => false

def noRootUser : Rule :=
  { id := "no-root-user"
    name := "Runs as a non-root user"
    description := "The last USER instruction switches to a non-root user"
    holds := endsUnprivileged
    culprit? := none
    message := "Container runs as root (no non-root USER instruction)"
    severity := .error
    remedy := "Create an unprivileged user and add 'USER <name>' after the last privileged " ++
      "step, e.g. 'RUN adduser -D app' then 'USER app'"
    category := .security }

def noSudoInstall : Rule :=
  { id := "no-sudo-install"
    name := "No sudo usage"
    description := "RUN instructions neither install nor invoke sudo"
    holds := fun is => !(named "RUN" is).any (fun i => Command.mentionsSudo i.value)
    culprit? := none
    message := "sudo is installed or used in a RUN instruction"
    severity := .error
    remedy := "Remove sudo; run privileged steps before switching USER instead of escalating " ++
      "at runtime"
    category := .security }

def pinnedBaseImage : Rule :=
  { id := "pinned-base-image"
    name := "Base images are pinned"
    description := "Every FROM references a specific tag rather than latest or nothing"
    holds := fun is => (named "FROM" is).all (fun i => Image.isPinned (Image.reference i.value))
    culprit? := none
    message := "Base image uses the 'latest' tag or no tag at all"
    severity := .warning
    remedy := "Pin the base image to a release tag, e.g. 'FROM node:20-alpine' instead of " ++
      "'FROM node:latest'"
    category := .bestPractice }

/-- Whether a HEALTHCHECK defines a check; NONE takes an inherited one away. -/
def definesCheck (i : Instruction) : Bool :=
  !Text.sameLetters (Text.trim i.value) "NONE".toList

def healthcheckDefined : Rule :=
  { id := "healthcheck-defined"
    name := "Health check defined"
    description := "The image declares how the runtime can probe its health"
    holds := fun is => (named "HEALTHCHECK" is).any definesCheck
    culprit? := none
    message := "No HEALTHCHECK instruction"
    severity := .warning
    remedy := "Add a HEALTHCHECK, e.g. 'HEALTHCHECK --interval=30s CMD wget -qO- " ++
      "http://localhost:8080/health || exit 1'"
    category := .bestPractice }

/-- Whether manifests are copied before the source tree, if the tree is copied
at all. -/
def copiesManifestsFirst (instructions : List Instruction) : Bool :=
  let copies := named "COPY" instructions
  match copies.findIdx? Copy.copiesTree with
  | none => true
  | some tree => (copies.findIdx? Copy.copiesManifest).any (· < tree)

def layerCaching : Rule :=
  { id := "layer-caching"
    name := "Cache-friendly layer ordering"
    description := "Dependency manifests are copied and installed before the full source tree"
    holds := copiesManifestsFirst
    culprit? := none
    message := "Source tree is copied before dependency manifests, invalidating the " ++
      "dependency cache on every change"
    severity := .warning
    remedy := "Copy dependency manifests first (e.g. 'COPY package*.json ./'), install " ++
      "dependencies, then 'COPY . .'"
    category := .optimization }

/-- The assignments of ENV and ARG instructions; arguments that are none count
whole. -/
def settings (instructions : List Instruction) : List Text :=
  (instructions.filter (fun i => i.is "ENV" || i.is "ARG")).flatMap fun i =>
    match i.args with
    | .assignments pairs => pairs.map Arguments.assignment
    | _ => [i.value]

/-- The variable of the first assignment that looks like a secret. -/
def secretHolder? (instructions : List Instruction) : Option Text :=
  ((settings instructions).find? Secret.looksSecret).bind Secret.holder?

def noSecrets : Rule :=
  { id := "no-secrets"
    name := "No hardcoded secrets"
    description := "ENV and ARG values do not contain passwords, keys or tokens"
    holds := fun is => !(settings is).any Secret.looksSecret
    culprit? := some secretHolder?
    message := "Potential secret hardcoded in ENV/ARG"
    severity := .error
    remedy := "Pass secrets at runtime or mount them with 'RUN --mount=type=secret,id=<name>' " ++
      "instead of ENV/ARG"
    category := .security }

/-- The number of instructions from which on a single stage is too few. -/
def manyInstructions : Nat := 10

def multiStageBuild : Rule :=
  { id := "multi-stage-build"
    name := "Multi-stage build"
    description := "Larger builds separate build-time and runtime stages"
    holds := fun is => is.length < manyInstructions || 1 < (named "FROM" is).length
    culprit? := none
    message := "Single-stage build; build tooling ships in the final image"
    severity := .info
    remedy := "Split into a builder stage and a slim runtime stage, copying artifacts with " ++
      "'COPY --from=builder'"
    category := .optimization }

def exposePorts : Rule :=
  { id := "expose-ports"
    name := "Ports documented"
    description := "Images that define a run command declare the ports they listen on"
    holds := fun is =>
      !is.any (fun i => i.is "CMD" || i.is "ENTRYPOINT") || is.any (·.is "EXPOSE")
    culprit? := none
    message := "CMD/ENTRYPOINT present but no EXPOSE instruction"
    severity := .info
    remedy := "Document listening ports with EXPOSE, e.g. 'EXPOSE 8080'"
    category := .bestPractice }

def workdirSet : Rule :=
  { id := "workdir-set"
    name := "Working directory set"
    description := "A WORKDIR is declared instead of relying on the image default"
    holds := fun is => is.any (·.is "WORKDIR")
    culprit? := none
    message := "No WORKDIR instruction; files land in the image's default directory"
    severity := .warning
    remedy := "Set an explicit working directory, e.g. 'WORKDIR /app'"
    category := .bestPractice }

def noInstallRecommends : Rule :=
  { id := "no-install-recommends"
    name := "Minimal apt-get installs"
    description := "apt-get install is run with --no-install-recommends"
    holds := fun is => !(named "RUN" is).any (fun i => Command.installsRecommended i.value)
    culprit? := none
    message := "apt-get install without --no-install-recommends pulls in unneeded packages"
    severity := .info
    remedy := "Use 'apt-get install -y --no-install-recommends <packages>'"
    category := .optimization }

/-- All rules, in the order in which they are reported. -/
def catalog : List Rule :=
  [noRootUser, noSudoInstall, pinnedBaseImage, healthcheckDefined, layerCaching, noSecrets,
    multiStageBuild, exposePorts, workdirSet, noInstallRecommends]

def find? (id : String) : Option Rule :=
  catalog.find? (·.id == id)

def evaluateAll (instructions : List Instruction) : List Finding :=
  catalog.map (·.evaluate instructions)

end Drydock.Rule
