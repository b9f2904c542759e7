import CounterStream.Json.Basic
import CounterStream.Word

/-!
# Writing JSON

A value is written on one line without blanks, or with each item on a line of its own, two spaces
deeper than what holds it.
-/

namespace CounterStream.Json

/-- One character of a string. -/
def escape (c : Char) : List Char :=
  match c with
  | '"' => ['\\', '"']
  | '\\' => ['\\', '\\']
  | '\n' => ['\\', 'n']
  | '\r' => ['\\', 'r']
  | '\t' => ['\\', 't']
  | c =>
    if c.toNat = 8 then ['\\', 'b']
    else if c.toNat = 12 then ['\\', 'f']
    else if c.toNat < 32 then '\\' :: 'u' :: (Word.hex 4 c.toNat).toList
    else [c]

/-- A string that stands for no text is written as the empty one. -/
def quoted (text : Option String) : List Char :=
  '"' :: (text.getD "").toList.flatMap escape ++ ['"']

/-- The text of a value that holds no other. -/
def scalar : Json → List Char
  | bool true => "true".toList
  | bool false => "false".toList
  | number literal => literal
  | string text => quoted text
  | _ => "null".toList

mutual

def compact : Json → List Char
  | array items => '[' :: compactItems items ++ [']']
  | object members => '\x7b' :: compactMembers members ++ ['\x7d']
  | j => scalar j

def compactItems : List Json → List Char
  | [] => []
  | [item] => compact item
  | item :: items => compact item ++ ',' :: compactItems items

def compactMembers : List (Option String × Json) → List Char
  | [] => []
  | [(name, value)] => quoted name ++ ':' :: compact value
  | (name, value) :: members => quoted name ++ ':' :: compact value ++ ',' :: compactMembers members

end

def newline (depth : Nat) : List Char := '\n' :: List.replicate (2 * depth) ' '

mutual

def pretty (depth : Nat) : Json → List Char
  | array [] => ['[', ']']
  | array items => '[' :: prettyItems (depth + 1) items ++ newline depth ++ [']']
  | object [] => ['\x7b', '\x7d']
  | object members =>
    '\x7b' :: prettyMembers (depth + 1) members ++ newline depth ++ ['\x7d']
  | j => scalar j

def prettyItems (depth : Nat) : List Json → List Char
  | [] => []
  | [item] => newline depth ++ pretty depth item
  | item :: items => newline depth ++ pretty depth item ++ ',' :: prettyItems depth items

def prettyMembers (depth : Nat) : List (Option String × Json) → List Char
  | [] => []
  | [(name, value)] => newline depth ++ quoted name ++ ':' :: ' ' :: pretty depth value
  | (name, value) :: members =>
    newline depth ++ quoted name ++ ':' :: ' ' :: pretty depth value ++
      ',' :: prettyMembers depth members

end

def compactText (j : Json) : String := String.ofList j.compact

def prettyText (j : Json) : String := String.ofList (j.pretty 0)

end CounterStream.Json
