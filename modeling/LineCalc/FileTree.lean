/-
File trees, and reading a file of one by its path. A path is followed name by name, and the first
name that cannot be followed says why.
-/

namespace LineCalc

/-! ## Failures -/

/-- Why a file cannot be read. -/
inductive ReadFailure where
  | notFound
  | permissionDenied
  | notDirectory
  | isDirectory
  | nameTooLong
  | notText
  | other (message : String)
deriving DecidableEq

def ReadFailure.message : ReadFailure → String
  | notFound => "No such file or directory (os error 2)"
  | permissionDenied => "Permission denied (os error 13)"
  | notDirectory => "Not a directory (os error 20)"
  | isDirectory => "Is a directory (os error 21)"
  | nameTooLong => "File name too long (os error 36)"
  | notText => "stream did not contain valid UTF-8"
  | other message => message

/-! ## Trees -/

inductive FileTree where
  | file (content : ByteArray)
  | folder (entries : List (String × FileTree))

namespace FileTree

/-- The bytes that one name of a path may have. -/
def maxNameBytes : Nat := 255

/-- The bytes that a whole path may have. -/
def maxPathBytes : Nat := 4095

/-- Follows names from a tree, whose folders above it are `above`, the nearest first. The topmost
folder is above itself. A name has to be looked up in a folder, whatever the name is. -/
def follow (above : List FileTree) (here : FileTree) : List String → Except ReadFailure FileTree
  | [] => .ok here
  | name :: names =>
    match here with
    | file _ => .error .notDirectory
    | folder entries =>
      if name = "" || name = "." then follow above here names
      else if name = ".." then
        match above with
        | [] => follow [] here names
        | parent :: higher => follow higher parent names
      else if maxNameBytes < name.utf8ByteSize then .error .nameTooLong
      else
        match entries.lookup name with
        | some entry => follow (here :: above) entry names
        | none => .error .notFound

/-- The names of a path, from the topmost folder on. A path without a leading slash starts in the
working directory. -/
def pathNames (workingDirectory : List String) (path : String) : List String :=
  let names := (path.toList.splitOn '/').map String.ofList
  if path.toList.head? = some '/' then names else workingDirectory ++ names

/-- The content of the file at a path. -/
def read (root : FileTree) (workingDirectory : List String) (path : String) :
    Except ReadFailure ByteArray :=
  if path = "" then .error .notFound
  else if maxPathBytes < path.utf8ByteSize then .error .nameTooLong
  else
    match follow [] root (pathNames workingDirectory path) with
    | .error failure => .error failure
    | .ok (file content) => .ok content
    | .ok (folder _) => .error .isDirectory

end FileTree

end LineCalc
