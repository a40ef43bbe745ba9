import Drydock.Text.Blank
import Drydock.Text.Letter
import Drydock.Text.Word

/-! What the arguments of an instruction name: the base image of a FROM, the
account of a USER, with or without a group, and the shell command of a RUN. -/
namespace Drydock

namespace Image

/-- The image in the arguments of a FROM: without leading options and without
the name of the stage. -/
def reference (args : Text) : Text :=
  let operands := (Text.words args).dropWhile (Text.startsWith "--".toList)
  Text.join [' '] (operands.takeWhile (fun word => !Text.sameLetters word "as".toList))

def isLatest (image : Text) : Bool :=
  Text.endsFolded ":latest".toList image

/-- Whether an image is taken for pinned: its reference holds a colon, be it
that of a port, and does not end in the tag `latest`. -/
def isPinned (image : Text) : Bool :=
  image.contains ':' && !isLatest image

end Image

/-- Whether an account is that of root, by name or by number. -/
def Account.isRoot (account : Text) : Bool :=
  let user := Text.before ':' (Text.trim account)
  user = "root".toList || user = "0".toList

namespace Command

/-- Whether the text begins with `word` and the word ends there. -/
def beginsWord (word : String) (s : Text) : Bool :=
  match Text.after? word.toList s with
  | some rest => Text.wordEnds rest
  | none => false

def mentionsSudo (command : Text) : Bool :=
  Text.anyAtWordStart (beginsWord "sudo") false command

/-- Whether the word `install` follows a blank. `afterBlank` tells whether a
blank comes before the text itself. -/
def installFollows (afterBlank : Bool) : Text → Bool
  | [] => false
  | c :: cs =>
    (afterBlank && beginsWord "install" (c :: cs)) || installFollows (Text.isBlank c) cs

/-- Whether the text begins with a call of apt-get that installs. -/
def beginsInstall (s : Text) : Bool :=
  match Text.after? "apt-get".toList s with
  | some rest => rest.head?.any Text.isBlank && installFollows false rest
  | none => false

def installs (command : Text) : Bool :=
  Text.anyAtWordStart beginsInstall false command

/-- Whether a command installs packages together with those they only
recommend. -/
def installsRecommended (command : Text) : Bool :=
  installs command && !Text.occursIn "--no-install-recommends".toList command

end Command

end Drydock
