import Reckoner.Text.Quoted

/-!
# Folders

The files that a command may read. A path is followed from the working folder name by name; what
lies outside of the working folder is not there.
-/

namespace Reckoner.Command

/-- Why a file cannot be read. -/
inductive FileError
  | missing
  | notFolder
  | isFolder
  | nameTooLong
  /-- Any other error of the system, with its number and wording. -/
  | other (code : Nat) (details : String)
  deriving DecidableEq, Repr

namespace FileError

/-- The number of an error. -/
def number : FileError → Nat
  | .missing => 2
  | .notFolder => 20
  | .isFolder => 21
  | .nameTooLong => 36
  | .other code _ => code

/-- The wording of an error. -/
def text : FileError → String
  | .missing => "No such file or directory"
  | .notFolder => "Not a directory"
  | .isFolder => "Is a directory"
  | .nameTooLong => "File name too long"
  | .other _ details => details

/-- The wording of an error for a path. -/
def message (e : FileError) (path : String) : String :=
  "[Errno " ++ toString e.number ++ "] " ++ e.text ++ ": " ++ Text.quoted path

end FileError

/-- What stands at a place in a folder. -/
inductive Entry
  | file (bytes : List UInt8)
  | folder
  | nothing
  deriving DecidableEq, Repr

/-- Files and folders with their places below the working folder. -/
structure Folder where
  files : List (List String × List UInt8)
  folders : List (List String)

namespace Folder

/-- The folder without entries. -/
def empty : Folder := ⟨[], []⟩

/-- What stands at a place. Everything above a file or a folder is a folder. -/
def entry (folder : Folder) (place : List String) : Entry :=
  match folder.files.lookup place with
  | some bytes => .file bytes
  | none =>
    let places := folder.files.map Prod.fst ++ folder.folders
    if place.isEmpty || places.any place.isPrefixOf then .folder else .nothing

/-- The place that a name leads to from a place. -/
def enter (place : List String) (name : String) : List String :=
  if name == "" || name == "." then place
  else if name == ".." then place.dropLast
  else place ++ [name]

/-- The places that names lead through from the working folder, the last one first. -/
def route (names : List String) : List (List String) :=
  names.foldl (fun places name => enter (places.headD []) name :: places) []

/-- Puts a folder at a path, and folders at all places on the way. -/
def addFolder (folder : Folder) (path : String) : Folder :=
  { folder with folders := route (path.splitOn "/") ++ folder.folders }

/-- Puts a file at a path, and folders at all places on the way. -/
def addFile (folder : Folder) (path : String) (bytes : List UInt8) : Folder :=
  match route (path.splitOn "/") with
  | [] => folder
  | place :: passed =>
    { files := (place, bytes) :: folder.files, folders := passed ++ folder.folders }

/-- The greatest number of bytes of a name. -/
def nameLimit : Nat := 255

/-- The greatest number of bytes of a path. -/
def pathLimit : Nat := 4095

/-- Follows names from a place; outside of the working folder there is no place. -/
def follow (folder : Folder) : Option (List String) → List String → Except FileError (List UInt8)
  | _, [] => .error .isFolder
  | place?, name :: names =>
    if name == "" || name == "." then folder.follow place? names
    else if name == ".." then
      match place? with
      | some (first :: rest) => folder.follow (some (first :: rest).dropLast) names
      | _ => folder.follow none names
    else if nameLimit < name.utf8ByteSize then .error .nameTooLong
    else
      match place? with
      | none => .error .missing
      | some place =>
        match folder.entry (place ++ [name]) with
        | .nothing => .error .missing
        | .folder => folder.follow (some (place ++ [name])) names
        | .file bytes => if names.isEmpty then .ok bytes else .error .notFolder

/-- The bytes of the file at a path. -/
def read (folder : Folder) (path : String) : Except FileError (List UInt8) :=
  if pathLimit < path.utf8ByteSize then .error .nameTooLong
  else folder.follow (if path.front == '/' then none else some []) (path.splitOn "/")

end Folder

end Reckoner.Command
