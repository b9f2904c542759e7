import CounterStream.Toml.Scalar
import CounterStream.Toml.Text

/-!
# Reading TOML

A document is lines: blank ones, headers, and keys with values. A header or a key names a path of
tables; `extend` follows it from a table on, makes the tables that are missing, and refuses to add
to one that is closed.
-/

namespace CounterStream.Toml

/-- Values and keys are nested less deep than this. -/
def depthLimit : Nat := 80

/-! ## Adding to tables -/

def find? (key : String) (entries : Entries) : Option Toml :=
  (entries.find? (·.1 = key)).map (·.2)

def replace (key : String) (value : Toml) (entries : Entries) : Entries :=
  entries.map fun entry => if entry.1 = key then (key, value) else entry

/-- The entries with the table at the end of a path changed by `f`, which may refuse. A table
between braces is closed to all, and one with a header to dotted keys. A path leads on through the
last of several tables. -/
def extend (dotted : Bool) (f : TableOrigin → Entries → Option Entries) :
    List String → TableOrigin → Entries → Option Entries
  | [], origin, entries => f origin entries
  | key :: path, _, entries =>
    match find? key entries with
    | none => do
      let origin := if dotted then TableOrigin.dotted else .implied
      let inner ← extend dotted f path origin []
      return entries ++ [(key, table origin inner)]
    | some (table origin inner) =>
      if origin = .inline ∨ (dotted ∧ origin = .header) then none
      else do
        let inner ← extend dotted f path origin inner
        return replace key (table origin inner) entries
    | some (tables items) =>
      match items.getLast? with
      | none => none
      | some inner => do
        let inner ← extend dotted f path .header inner
        return replace key (tables (items.dropLast ++ [inner])) entries
    | some _ => none

/-- Adds a new key. A table made by a dotted key takes only dotted keys, and only it does. -/
def insert (direct : Bool) (key : String) (value : Toml) (origin : TableOrigin)
    (entries : Entries) : Option Entries :=
  if (origin = .dotted) = direct then none
  else if (find? key entries).isSome then none
  else some (entries ++ [(key, value)])

def put (path : List String) (value : Toml) (origin : TableOrigin) (entries : Entries) :
    Option Entries :=
  match path.getLast? with
  | none => none
  | some key => extend true (insert (path.length = 1) key value) path.dropLast origin entries

/-- Opens the table of a header: a new one, or one that was only a step to another. -/
def openTable (key : String) (_ : TableOrigin) (entries : Entries) : Option Entries :=
  match find? key entries with
  | none => some (entries ++ [(key, table .header [])])
  | some (table .implied inner) => some (replace key (table .header inner) entries)
  | some _ => none

/-- Opens one more of several tables. -/
def openNext (key : String) (_ : TableOrigin) (entries : Entries) : Option Entries :=
  match find? key entries with
  | none => some (entries ++ [(key, tables [[]])])
  | some (tables items) => some (replace key (tables (items ++ [[]])) entries)
  | some _ => none

def openPath (f : String → TableOrigin → Entries → Option Entries) (path : List String)
    (root : Entries) : Option Entries :=
  match path.getLast? with
  | none => none
  | some key => extend false (f key) path.dropLast .header root

/-! ## Keys -/

def isBareChar (c : Char) : Bool := c.isAlphanum || c = '_' || c = '-'

def keyPart? (cs : List Char) : Option (String × List Char) :=
  match cs with
  | '"' :: rest => (basic? rest).map fun (text, rest) => (String.ofList text, rest)
  | '\'' :: rest => (literal? rest).map fun (text, rest) => (String.ofList text, rest)
  | cs =>
    let bare := cs.takeWhile isBareChar
    if bare = [] then none else some (String.ofList bare, cs.dropWhile isBareChar)

/-- The parts of a key between points, with blanks around each of them. -/
def keyParts? : Nat → List Char → Option (List String × List Char)
  | 0, _ => none
  | fuel + 1, cs => do
    let (part, rest) ← keyPart? (skipBlanks cs)
    match skipBlanks rest with
    | '.' :: rest =>
      let (parts, rest) ← keyParts? fuel rest
      return (part :: parts, rest)
    | rest => return ([part], rest)

/-- A key has fewer parts than the limit. -/
def key? (cs : List Char) : Option (List String × List Char) := keyParts? (depthLimit - 1) cs

/-! ## Values -/

/-- Blanks, comments and line ends, as between the items of an array. -/
def skipLines : Nat → List Char → List Char
  | 0, cs => cs
  | fuel + 1, cs =>
    match skipComment (skipBlanks cs) with
    | '\n' :: rest => skipLines fuel rest
    | '\r' :: '\n' :: rest => skipLines fuel rest
    | rest => rest

mutual

/-- A value inside so many arrays and tables. -/
def value? : Nat → Nat → List Char → Option (Toml × List Char)
  | 0, _, _ => none
  | fuel + 1, depth, cs =>
    match cs with
    | '[' :: rest =>
      if depth + 1 < depthLimit then
        (items? fuel (depth + 1) rest).map fun (items, rest) => (array items, rest)
      else none
    | '\x7b' :: rest =>
      if depth + 1 < depthLimit then
        match skipBlanks rest with
        | '\x7d' :: rest => some (table .inline [], rest)
        | rest => pairs? fuel (depth + 1) [] rest
      else none
    | '"' :: _ | '\'' :: _ => (string? cs).map fun (text, rest) => (string text, rest)
    | cs => word? cs

def items? : Nat → Nat → List Char → Option (List Toml × List Char)
  | 0, _, _ => none
  | fuel + 1, depth, cs =>
    match skipLines fuel cs with
    | ']' :: rest => some ([], rest)
    | rest => do
      let (item, rest) ← value? fuel depth rest
      match skipLines fuel rest with
      | ']' :: rest => return ([item], rest)
      | ',' :: rest =>
        let (items, rest) ← items? fuel depth rest
        return (item :: items, rest)
      | _ => none

/-- The rest of a table between braces, from a key on. -/
def pairs? : Nat → Nat → Entries → List Char → Option (Toml × List Char)
  | 0, _, _, _ => none
  | fuel + 1, depth, entries, cs => do
    let (path, rest) ← key? cs
    match rest with
    | '=' :: rest =>
      let (value, rest) ← value? fuel depth (skipBlanks rest)
      let entries ← put path value .inline entries
      match skipBlanks rest with
      | '\x7d' :: rest => return (table .inline entries, rest)
      | ',' :: rest => pairs? fuel depth entries rest
      | _ => none
    | _ => none

end

/-! ## Documents -/

def keyValue? (cs : List Char) : Option (List String × Toml × List Char) := do
  let (path, rest) ← key? cs
  match rest with
  | '=' :: rest =>
    let (value, rest) ← value? (2 * rest.length + 2) 0 (skipBlanks rest)
    return (path, value, ← endLine? rest)
  | _ => none

/-- The entries after the lines that are left; keys are added to the table at the end of `current`.
-/
def lines? : Nat → List String → Entries → List Char → Option Entries
  | 0, _, _, _ => none
  | fuel + 1, current, root, cs =>
    match skipBlanks cs with
    | [] => some root
    | '\n' :: rest => lines? fuel current root rest
    | '\r' :: rest => do lines? fuel current root (← newline? ('\r' :: rest))
    | '#' :: rest => do lines? fuel current root (← endLine? ('#' :: rest))
    | '[' :: '[' :: rest => do
      let (path, rest) ← key? rest
      match rest with
      | ']' :: ']' :: rest => lines? fuel path (← openPath openNext path root) (← endLine? rest)
      | _ => none
    | '[' :: rest => do
      let (path, rest) ← key? rest
      match rest with
      | ']' :: rest => lines? fuel path (← openPath openTable path root) (← endLine? rest)
      | _ => none
    | rest => do
      let (path, value, rest) ← keyValue? rest
      lines? fuel current (← extend false (put path value) current .header root) rest

/-- The entries of a document, which may begin with a byte-order mark. -/
def document? (s : String) : Option Entries :=
  let cs := match s.toList with
    | '\ufeff' :: cs => cs
    | cs => cs
  lines? (cs.length + 1) [] [] cs

end CounterStream.Toml
