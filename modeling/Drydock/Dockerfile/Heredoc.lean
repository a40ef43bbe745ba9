import Drydock.Text.Blank

/-! Here-documents. An operator `<<` or `<<-` names the line that ends the
document; the name may stand in quotes and blanks may come before it. -/
namespace Drydock.Heredoc

def isNameStart (c : Char) : Bool :=
  c.isAlpha || c == '_'

def isNameChar (c : Char) : Bool :=
  c.isAlphanum || c == '_'

/-- What follows an operator at the beginning of the text, up to where the name
begins. -/
def operand? : Text → Option Text
  | '<' :: '<' :: rest =>
    let rest := match rest with
      | '-' :: r => r
      | r => r
    some (match Text.trimStart rest with
      | '"' :: r => r
      | '\x27' :: r => r
      | r => r)
  | _ => none

/-- The delimiter that an operator at the beginning of the text names. -/
def delimiter? (s : Text) : Option Text :=
  match operand? s with
  | some (c :: cs) => if isNameStart c then some (c :: cs.takeWhile isNameChar) else none
  | _ => none

/-- The delimiters of all operators in a text, in their order. -/
def delimiters (s : Text) : List Text :=
  (Text.endings s).filterMap delimiter?

end Drydock.Heredoc
