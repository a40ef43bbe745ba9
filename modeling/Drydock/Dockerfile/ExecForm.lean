import Drydock.Text.Blank

/-! Commands written as a list of strings, such as `["node", "index.js"]`. Items
stand in double quotes, commas divide them, and spaces and tabs are free around
items. The escapes `\n`, `\t`, `\r`, `\\` and `\"` stand for one character; any
other backslash is kept together with the character after it. Text that breaks
the form in any place is no list at all. -/
namespace Drydock.ExecForm

/-- The characters that may surround an item. -/
def isGap (c : Char) : Bool :=
  c == ' ' || c == '\t'

/-- What an escape stands for, given the character after the backslash. -/
def unescape : Char → Text
  | 'n' => ['\n']
  | 't' => ['\t']
  | 'r' => ['\r']
  | '\\' => ['\\']
  | '"' => ['"']
  | c => ['\\', c]

/-- Nothing but blanks may follow the closing bracket. -/
def closed? (rest : Text) : Option (List Text) :=
  if rest.all Text.isBlank then some [] else none

mutual

/-- Read on inside an item: the rest of the item, and the items after it. -/
def inItem? : Text → Option (Text × List Text)
  | [] => none
  | '"' :: cs => (afterItem? cs).map (fun items => ([], items))
  | '\\' :: c :: cs => (inItem? cs).map (fun (item, items) => (unescape c ++ item, items))
  | c :: cs => (inItem? cs).map (fun (item, items) => (c :: item, items))

/-- Read on after an item: the items after it. -/
def afterItem? : Text → Option (List Text)
  | [] => none
  | ',' :: cs => beforeItem? cs
  | ']' :: cs => closed? cs
  | c :: cs => if isGap c then afterItem? cs else none

/-- Read on after a comma, where an item has to follow. -/
def beforeItem? : Text → Option (List Text)
  | [] => none
  | '"' :: cs => (inItem? cs).map (fun (item, items) => item :: items)
  | c :: cs => if isGap c then beforeItem? cs else none

end

/-- Read on after the opening bracket, where the list may end at once. -/
def opened? : Text → Option (List Text)
  | [] => none
  | ']' :: cs => closed? cs
  | '"' :: cs => (inItem? cs).map (fun (item, items) => item :: items)
  | c :: cs => if isGap c then opened? cs else none

/-- The items of a text that is a list of strings from its first character
on. -/
def items? : Text → Option (List Text)
  | '[' :: cs => opened? cs
  | _ => none

end Drydock.ExecForm
