import Lox.Console

/-! Files in memory. -/
namespace Lox

/-- The names on the way from the root to a file or folder. -/
abbrev Path := List Text

inductive Entry where
  | folder
  | file (content : Text)
  deriving DecidableEq, Repr

/-- A tree of files and folders, kept as the list of what stands where. -/
structure Files where
  entries : List (Path × Entry)
  deriving DecidableEq, Repr

namespace Files

def empty : Files := ⟨[]⟩

/-- What stands at a path. The root is always a folder. -/
def find? (files : Files) (path : Path) : Option Entry :=
  if path = [] then some .folder else files.entries.lookup path

def set (files : Files) (path : Path) (entry : Entry) : Files :=
  ⟨(path, entry) :: files.entries.filter fun other => other.1 != path⟩

/-- Puts an entry at a path, with the folders that lead to it from `place`. -/
def put (files : Files) (place : Path) (entry : Entry) : Path → Files
  | [] => files.set place entry
  | name :: rest =>
    let files := if (files.find? place).isSome then files else files.set place .folder
    files.put (place ++ [name]) entry rest

/-- The names between the slashes of a path as it is written. -/
def names (written : Text) : List Text := written.splitOn 47

/-- Follows names from a place. What the last name stands for need not exist. -/
def follow (files : Files) (place : Path) : List Text → Except FileError Path
  | [] => .ok place
  | name :: rest =>
    match files.find? place with
    | none => .error .missing
    | some (.file _) => .error .notFolder
    | some .folder =>
      if name = [] ∨ name = "." then files.follow place rest
      else if name = ".." then files.follow place.dropLast rest
      else files.follow (place ++ [name]) rest

/-- The place of a written path, which starts at the root or else in `directory`. -/
def resolve (files : Files) (directory : Path) (written : Text) : Except FileError Path :=
  if written = [] then .error .missing
  else files.follow (if written.head? = some 47 then [] else directory) (names written)

def read (files : Files) (directory : Path) (written : Text) : Except FileError Text :=
  match files.resolve directory written with
  | .error e => .error e
  | .ok path =>
    match files.find? path with
    | none => .error .missing
    | some .folder => .error .folder
    | some (.file content) => .ok content

/-- The files after a write to the file at a written path. -/
def write (files : Files) (directory : Path) (written content : Text) : Except FileError Files :=
  match files.resolve directory written with
  | .error e => .error e
  | .ok path =>
    if files.find? path = some .folder then .error .folder
    else .ok (files.set path (.file content))

/-- The files below a folder with their paths from there, in the byte order of the paths. -/
def below (files : Files) (folder : Path) : List (Text × Text) :=
  let found := files.entries.filterMap fun (path, entry) =>
    match entry with
    | .file content =>
      if folder.isPrefixOf path then some (Text.join "/" (path.drop folder.length), content)
      else none
    | .folder => none
  found.mergeSort fun a b => a.1.le b.1

end Files
end Lox
