import CounterStream.Decimal.Layout
import CounterStream.Decimal.Reader
import CounterStream.Toml.Basic

/-!
# Writing TOML

A document is written as the lines of its own keys and then, after a blank line each, the headers
and lines of its tables.
-/

namespace CounterStream.Toml

/-- The text of a string that needs no escape, a number or a truth value. A whole number has to fit
64 bits with a sign. -/
def scalar? : Toml → Option (List Char)
  | string text => some ('"' :: text.toList ++ ['"'])
  | integer n => if (CounterStream.int64? n).isSome then some (toString n).toList else none
  | float x => some (Layout.pointedPlain.write x).toList
  | boolean value => some (if value then "true".toList else "false".toList)
  | _ => none

def entryLine? (key : String) (value : Toml) : Option (List Char) :=
  (scalar? value).map fun text => key.toList ++ ' ' :: '=' :: ' ' :: text ++ ['\n']

def entryLines? : Entries → Option (List Char)
  | [] => some []
  | (key, value) :: entries => do return (← entryLine? key value) ++ (← entryLines? entries)

/-- A document of keys and of tables that hold no tables. -/
def write? (keys : Entries) (sections : List (String × Entries)) : Option String := do
  let lines ← entryLines? keys
  let parts ← sections.mapM fun (name, entries) => do
    return '\n' :: '[' :: name.toList ++ ']' :: '\n' :: (← entryLines? entries)
  return String.ofList (lines ++ parts.flatten)

end CounterStream.Toml
