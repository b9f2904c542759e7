import CounterStream.Text.Basic
import CounterStream.Toml.Basic

/-!
# Strings and comments

A string stands between one or three quotes, double ones when it has escapes. Each reader takes the
text after the opening quotes and gives the characters and the text after the closing ones.
-/

namespace CounterStream.Toml

def isBlank (c : Char) : Bool := c = ' ' || c = '\t'

def skipBlanks (cs : List Char) : List Char := cs.dropWhile isBlank

/-- A line ends with a line feed, alone or after a carriage return. -/
def newline? : List Char → Option (List Char)
  | '\n' :: rest => some rest
  | '\r' :: '\n' :: rest => some rest
  | _ => none

/-- Tabs and what is no control character. -/
def isTextChar (c : Char) : Bool := c = '\t' || (32 ≤ c.toNat && c.toNat ≠ 127)

/-- A comment holds what strings may hold and goes on to the end of the line. -/
def skipComment : List Char → List Char
  | '#' :: cs => cs.dropWhile isTextChar
  | cs => cs

/-- Blanks, a comment and the end of the line or of the text. -/
def endLine? (cs : List Char) : Option (List Char) :=
  match skipComment (skipBlanks cs) with
  | [] => some []
  | cs => newline? cs

def skipNewline (cs : List Char) : List Char := (newline? cs).getD cs

/-! ## Escapes -/

def escaped? : Char → Option Char
  | 'b' => some '\x08'
  | 't' => some '\t'
  | 'n' => some '\n'
  | 'f' => some '\x0c'
  | 'r' => some '\r'
  | '"' => some '"'
  | '\\' => some '\\'
  | _ => none

def codePoint? (digits : List Char) : Option Char := do
  let n := (← digits.mapM Text.hexDigit?).foldl (fun n d => 16 * n + d) 0
  if h : n.isValidChar then some (Char.ofNatAux n h) else none

/-! ## Strings -/

def prepend (cs : List Char) : List Char × List Char → List Char × List Char
  | (text, rest) => (cs ++ text, rest)

def basic? : List Char → Option (List Char × List Char)
  | [] => none
  | '"' :: rest => some ([], rest)
  | '\\' :: 'u' :: a :: b :: c :: d :: rest => do
    let c ← codePoint? [a, b, c, d]
    (basic? rest).map (prepend [c])
  | '\\' :: 'U' :: a :: b :: c :: d :: e :: f :: g :: h :: rest => do
    let c ← codePoint? [a, b, c, d, e, f, g, h]
    (basic? rest).map (prepend [c])
  | '\\' :: c :: rest => do
    let c ← escaped? c
    (basic? rest).map (prepend [c])
  | c :: rest => if isTextChar c ∧ c ≠ '\\' then (basic? rest).map (prepend [c]) else none

def literal? : List Char → Option (List Char × List Char)
  | [] => none
  | '\'' :: rest => some ([], rest)
  | c :: rest => if isTextChar c then (literal? rest).map (prepend [c]) else none

/-- Three quotes close the string, and up to two right before them belong to it. After a backslash
at the end of a line, blanks and line ends are passed over. -/
def longBasic? (skipping : Bool) : List Char → Option (List Char × List Char)
  | [] => none
  | '"' :: '"' :: '"' :: '"' :: '"' :: rest => some (['"', '"'], rest)
  | '"' :: '"' :: '"' :: '"' :: rest => some (['"'], rest)
  | '"' :: '"' :: '"' :: rest => some ([], rest)
  | '\r' :: '\n' :: rest =>
    if skipping then longBasic? true rest else (longBasic? false rest).map (prepend ['\n'])
  | '\\' :: 'u' :: a :: b :: c :: d :: rest => do
    let c ← codePoint? [a, b, c, d]
    (longBasic? false rest).map (prepend [c])
  | '\\' :: 'U' :: a :: b :: c :: d :: e :: f :: g :: h :: rest => do
    let c ← codePoint? [a, b, c, d, e, f, g, h]
    (longBasic? false rest).map (prepend [c])
  | '\\' :: c :: rest =>
    if (newline? (skipBlanks (c :: rest))).isSome then longBasic? true (c :: rest)
    else do
      let c ← escaped? c
      (longBasic? false rest).map (prepend [c])
  | c :: rest =>
    if skipping && (isBlank c || c = '\n') then longBasic? true rest
    else if c = '\n' ∨ (isTextChar c ∧ c ≠ '\\') then (longBasic? false rest).map (prepend [c])
    else none

def longLiteral? : List Char → Option (List Char × List Char)
  | [] => none
  | '\'' :: '\'' :: '\'' :: '\'' :: '\'' :: rest => some (['\'', '\''], rest)
  | '\'' :: '\'' :: '\'' :: '\'' :: rest => some (['\''], rest)
  | '\'' :: '\'' :: '\'' :: rest => some ([], rest)
  | '\r' :: '\n' :: rest => (longLiteral? rest).map (prepend ['\n'])
  | c :: rest =>
    if c = '\n' ∨ isTextChar c then (longLiteral? rest).map (prepend [c]) else none

/-- A string in any of its four forms. A line end right after three opening quotes is passed over.
-/
def string? (cs : List Char) : Option (String × List Char) :=
  let read := match cs with
    | '"' :: '"' :: '"' :: rest => longBasic? false (skipNewline rest)
    | '\'' :: '\'' :: '\'' :: rest => longLiteral? (skipNewline rest)
    | '"' :: rest => basic? rest
    | '\'' :: rest => literal? rest
    | _ => none
  read.map fun (text, rest) => (String.ofList text, rest)

end CounterStream.Toml
