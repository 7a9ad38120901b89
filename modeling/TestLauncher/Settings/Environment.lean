import TestLauncher.Collection.OrderedMap
import TestLauncher.Text.Blank

/-! # Environments

    Settings come from variables: those of the environment, and those that the lines of a
    file assign.  The case of the letters in a variable's name does not count. -/

namespace TestLauncher

/-- Variables under their names in small letters. -/
abbrev Environment := OrderedMap String String

namespace Environment

/-- The variables with the given names and values; of two names that differ in case only, the
later one counts. -/
def ofVariables (given : OrderedMap String String) : Environment :=
  OrderedMap.ofList (given.toList.map fun e => (e.1.map Char.toLower, e.2))

/-- A value without the comment behind it: a comment starts with a number sign after white
space. -/
def dropComment : List Char → List Char
  | [] => []
  | c :: rest =>
    if Text.isBlankChar c && (rest.dropWhile Text.isBlankChar).head? = some '#' then []
    else c :: dropComment rest

/-- The characters between two quotation marks of one sort, if nothing but a comment follows. -/
def unquote? (mark : Char) (cs : List Char) : Option (List Char) :=
  let inner := cs.takeWhile (· ≠ mark)
  match cs.dropWhile (· ≠ mark) with
  | _ :: rest => if (Text.trimChars (dropComment (' ' :: rest))).isEmpty then some inner else none
  | [] => none

/-- The value written behind the equals sign. -/
def value (cs : List Char) : List Char :=
  let bare := Text.trimChars (dropComment cs)
  match cs.dropWhile Text.isBlankChar with
  | '"' :: rest => (unquote? '"' rest).getD bare
  | '\'' :: rest => (unquote? '\'' rest).getD bare
  | _ => bare

/-- The assignment on a line; lines that are blank, comments, or without an equals sign have
none. -/
def assignment? (line : String) : Option (String × String) :=
  let cs := Text.trimChars line.toList
  let name := cs.takeWhile (· ≠ '=')
  match cs.dropWhile (· ≠ '=') with
  | '=' :: rest =>
    if cs.head? = some '#' then none
    else some (String.ofList (Text.trimChars name), String.ofList (value rest))
  | _ => none

/-- The variables that lines assign. -/
def ofLines (lines : List String) : Environment :=
  ofVariables (OrderedMap.ofList (lines.filterMap assignment?))

end Environment

end TestLauncher
