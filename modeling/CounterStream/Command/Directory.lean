import CounterStream.Text.Basic

/-!
# Directories

The files that commands read and write. A directory holds files by name, and the rules of its paths
say which name a path leads to, so nothing else of a system of files is fixed here.
-/

namespace CounterStream

inductive FileError
  | missing
  | notDirectory
  | isDirectory
  | nameTooLong
  | nameWithNul
  | notText
  /-- Any other refusal, in the words of the system. -/
  | system (reason : String)
deriving DecidableEq

def FileError.message : FileError → String
  | missing => "IO error: No such file or directory (os error 2)"
  | notDirectory => "IO error: Not a directory (os error 20)"
  | isDirectory => "IO error: Is a directory (os error 21)"
  | nameTooLong => "IO error: File name too long (os error 36)"
  | nameWithNul => "IO error: file name contained an unexpected NUL byte"
  | notText => "IO error: stream did not contain valid UTF-8"
  | system reason => "IO error: " ++ reason

def decodeText (bytes : List UInt8) : Except FileError String :=
  match String.fromUTF8? ⟨bytes.toArray⟩ with
  | some s => .ok s
  | none => .error .notText

/-! ## Paths -/

/-- Where paths lead to: the name of a file, for reading or for writing. What files there are may
decide how a path fails, and no more: one that leads to a file for writing leads to it always. -/
structure PathRules where
  resolve (isFile : String → Bool) (writing : Bool) (path : String) : Except FileError String
  resolve_of_writing : ∀ {isFile path name}, resolve isFile true path = .ok name →
    ∀ isFile' writing, resolve isFile' writing path = .ok name

namespace PathRules

/-- Every path is the name of a file. -/
def literal : PathRules where
  resolve _ _ path := .ok path
  resolve_of_writing h _ _ := h

/-- A part of a path has at most this many bytes. -/
def partLimit : Nat := 255

/-- A path has fewer bytes than this. -/
def pathLimit : Nat := 4096

/-- Parts of a path that stay where they are. -/
def stays (part : List Char) : Bool := part = [] || part = ['.']

/-- The name that the parts of a path lead to, from `inside` a directory without directories or from
some directory outside it. A name with a slash after it can be no file, and it is not made as one.
Outside there are directories upwards, and nothing else is known of it. -/
def follow (isFile : String → Bool) (writing : Bool) :
    Bool → List (List Char) → Except FileError String
  | _, [] => .error .isDirectory
  | inside, part :: rest =>
    if stays part then follow isFile writing inside rest
    else if part = ['.', '.'] then follow isFile writing false rest
    else if writing ∧ rest ≠ [] ∧ rest.all (· = []) then .error .isDirectory
    else if partLimit < (String.ofList part).utf8ByteSize then .error .nameTooLong
    else if !inside then .error .missing
    else if rest = [] then .ok (String.ofList part)
    else .error (if isFile (String.ofList part) then .notDirectory else .missing)

theorem follow_of_writing {isFile : String → Bool} {inside : Bool} {parts : List (List Char)}
    {name : String} (h : follow isFile true inside parts = .ok name) (isFile' : String → Bool)
    (writing : Bool) : follow isFile' writing inside parts = .ok name := by
  induction parts generalizing inside with
  | nil => cases h
  | cons part rest ih =>
    rw [follow] at h ⊢
    by_cases hstays : stays part
    · rw [if_pos hstays] at h ⊢
      exact ih h
    by_cases hup : part = ['.', '.']
    · rw [if_neg hstays, if_pos hup] at h ⊢
      exact ih h
    rw [if_neg hstays, if_neg hup] at h ⊢
    by_cases hslash : rest ≠ [] ∧ rest.all (· = [])
    · rw [if_pos ⟨rfl, hslash⟩] at h
      cases h
    rw [if_neg (fun hw => hslash hw.2)] at h ⊢
    by_cases hlong : partLimit < (String.ofList part).utf8ByteSize
    · rw [if_pos hlong] at h
      cases h
    rw [if_neg hlong] at h ⊢
    cases inside with
    | false => cases h
    | true =>
      by_cases hlast : rest = []
      · rw [if_pos hlast] at h ⊢
        exact h
      · rw [if_neg hlast] at h
        cases h

/-- The rules of a directory with no directory inside it. A path that begins with a slash leads
outside. -/
def flat : PathRules where
  resolve isFile writing path :=
    let cs := path.toList
    if '\x00' ∈ cs then .error .nameWithNul
    else if cs = [] then .error .missing
    else if pathLimit ≤ path.utf8ByteSize then .error .nameTooLong
    else follow isFile writing (cs.head? ≠ some '/') (Text.split '/' cs)
  resolve_of_writing := by
    intro isFile path name h isFile' writing
    dsimp only at h ⊢
    split
    · rwa [if_pos ‹_›] at h
    rw [if_neg ‹_›] at h
    split
    · rwa [if_pos ‹_›] at h
    rw [if_neg ‹_›] at h
    split
    · rwa [if_pos ‹_›] at h
    rw [if_neg ‹_›] at h
    exact follow_of_writing h isFile' writing

end PathRules

/-! ## Files -/

/-- Files by name, and where paths to them lead. -/
structure Directory where
  files : List (String × List UInt8)
  paths : PathRules := .flat

namespace Directory

def empty : Directory := { files := [] }

def find? (d : Directory) (name : String) : Option (List UInt8) :=
  (d.files.find? (·.1 = name)).map (·.2)

def isFile (d : Directory) (name : String) : Bool := (d.find? name).isSome

def resolve (d : Directory) (writing : Bool) (path : String) : Except FileError String :=
  d.paths.resolve d.isFile writing path

def read (d : Directory) (path : String) : Except FileError (List UInt8) := do
  match d.find? (← d.resolve false path) with
  | some bytes => return bytes
  | none => throw .missing

def put (d : Directory) (name : String) (bytes : List UInt8) : Directory :=
  { d with files := (name, bytes) :: d.files.filter (·.1 ≠ name) }

def write (d : Directory) (path : String) (bytes : List UInt8) : Except FileError Directory := do
  return d.put (← d.resolve true path) bytes

end Directory

end CounterStream
