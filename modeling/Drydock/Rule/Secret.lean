import Drydock.Text.Blank
import Drydock.Text.Letter
import Drydock.Text.Word

/-! Secrets in assignments. A text looks like a secret where something is
assigned to a name that mentions a credential. Letters count in either case. -/
namespace Drydock.Secret

/-- The words that mention a credential. -/
def credentials : List Text :=
  ["password", "passwd", "secret", "token", "apikey", "api_key", "api-key", "privatekey",
    "private_key", "private-key", "accesskey", "access_key", "access-key"].map String.toList

/-- The characters of a name around the mention of a credential. -/
def isNameChar (c : Char) : Bool :=
  Text.isFoldedLetter c || c.isDigit || c == '_'

/-- Whether the rest of a name, an equals sign and a value follow. Blanks may
surround the sign. -/
def assigns (s : Text) : Bool :=
  match Text.trimStart (s.dropWhile isNameChar) with
  | '=' :: rest => !(Text.trimStart rest).isEmpty
  | _ => false

/-- Whether the text begins with a credential whose name is then assigned to. -/
def beginsCredential (s : Text) : Bool :=
  credentials.any fun word =>
    match Text.afterFolded? word s with
    | some rest => assigns rest
    | none => false

/-- Whether a credential is assigned to in the name that begins the text. -/
def inName : Text → Bool
  | [] => false
  | c :: cs => beginsCredential (c :: cs) || (isNameChar c && inName cs)

/-- Whether a text assigns to a credential anywhere. -/
def looksSecret (s : Text) : Bool :=
  Text.anyAtWordStart inName false s

def isVariableStart (c : Char) : Bool :=
  c.isAlpha || c == '_'

def isVariableChar (c : Char) : Bool :=
  c.isAlphanum || c == '_'

/-- The name of the first variable that an equals sign follows directly. -/
def assignedName? : Text → Option Text
  | [] => none
  | c :: cs =>
    if isVariableStart c && (cs.dropWhile isVariableChar).head? = some '=' then
      some (c :: cs.takeWhile isVariableChar)
    else assignedName? cs

/-- The name of the variable that holds a secret: the one of the first word that
looks like a secret by itself, and else the first one assigned to. -/
def holder? (s : Text) : Option Text :=
  match ((Text.words s).find? looksSecret).bind assignedName? with
  | some name => some name
  | none => assignedName? s

end Drydock.Secret
