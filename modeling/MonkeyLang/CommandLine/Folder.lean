import MonkeyLang.Text.Quoted

/-!
# Files

A script is read from a folder, in which its path is followed name by name.  A name of the path that
is not the last has to be a folder; a single dot stays where it is, two dots go up, and a slash at
the end asks for a folder.  Above the folder that paths start from, nothing is known but that there
are folders.

* `Folder` is a folder with all files below it.
* `Folder.read` follows a path, and `ReadFault` is why that may fail.
-/

set_option autoImplicit false

namespace MonkeyLang

/-! ## Failing to read -/

/-- Why a file cannot be read. -/
inductive ReadFault where
  /-- There is nothing at the path. -/
  | missing
  /-- There is a folder at the path. -/
  | folder
  /-- A name on the way is the name of a file. -/
  | notFolder
  /-- The path, or a name in it, is longer than the system allows. -/
  | tooLong
  deriving DecidableEq, Repr, Inhabited

/-- The wording of a fault, with the path. -/
def ReadFault.message (path : String) (fault : ReadFault) : String :=
  let words := match fault with
    | missing => "FileNotFoundError: [Errno 2] No such file or directory: "
    | folder => "IsADirectoryError: [Errno 21] Is a directory: "
    | notFolder => "NotADirectoryError: [Errno 20] Not a directory: "
    | tooLong => "OSError: [Errno 36] File name too long: "
  words ++ Text.quote path

/-! ## Folders -/

/-- The files of a folder and of the folders in it: for each the names on the way to it, and its
bytes. -/
structure Folder where
  files : List (List String × ByteArray) := []
  deriving Inhabited

namespace Folder

/-- The names of a path. -/
def names (path : String) : List String :=
  path.splitOn "/"

/-- The file at the end of some names. -/
def file? (folder : Folder) (place : List String) : Option ByteArray :=
  (folder.files.find? fun file => file.1 = place).map (·.2)

/-- Whether there is a folder at the end of some names. -/
def isFolder (folder : Folder) (place : List String) : Bool :=
  folder.files.any fun file => place.isPrefixOf file.1 && file.1 ≠ place

/-- The longest name, and the longest path, in bytes. -/
def longestName : Nat := 255

@[inherit_doc longestName]
def longestPath : Nat := 4095

/-- Follows names from a place, which is a list of names, or unknown above the folder. -/
def follow (folder : Folder) : Option (List String) → List String → Except ReadFault ByteArray
  | _, [] => .error .folder
  | place?, name :: rest =>
    if name = "" || name = "." then folder.follow place? rest
    else if name = ".." then
      folder.follow (place?.bind fun place => if place.isEmpty then none else some place.dropLast)
        rest
    else if longestName < name.utf8ByteSize then .error .tooLong
    else match place? with
      | none => .error .missing
      | some place =>
        let next := place ++ [name]
        match folder.file? next with
        | some bytes => if rest.isEmpty then .ok bytes else .error .notFolder
        | none =>
          if folder.isFolder next then folder.follow (some next) rest else .error .missing

/-- The bytes of the file at a path.  A path that starts with a slash starts above the folder. -/
def read (folder : Folder) (path : String) : Except ReadFault ByteArray :=
  if path = "" then .error .missing
  else if longestPath < path.utf8ByteSize then .error .tooLong
  else folder.follow (if path.toList.head? = some '/' then none else some []) (names path)

end Folder

end MonkeyLang
