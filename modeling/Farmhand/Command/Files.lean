/-!
# Files of a Command

What a command sees of the files it is told to read: the text at each path, or why there is none.
A path is read part by part from the directory in which the command runs, or from the root if it
begins with a slash. Empty parts and single dots stay where they are, two dots go back by one, and
only the last part may name a file.

## Main definitions

* `FileError`: Why a path has no text.
* `Files`: The text at each path.
* `FileTree`: The files below a root, and the directory in which a command runs.
* `FileTree.read`: The text that a tree has at a path.
-/

namespace Farmhand

namespace Command

/-- Why a path has no text. -/
inductive FileError where
  | notFound
  | isDirectory
  /-- A part of the path before its end is no directory. -/
  | notDirectory
  /-- The path, or one of its parts, is longer than any that can be there. -/
  | nameTooLong
  /-- The bytes of the file are no text. -/
  | notText
  | other (message : String)
deriving DecidableEq, Inhabited

namespace FileError

/-- The text of an error of the operating system. -/
def system (text : String) (number : Nat) : String :=
  s!"{text} (os error {number})"

/-- The text of an error. -/
def message : FileError → String
  | notFound => system "No such file or directory" 2
  | isDirectory => system "Is a directory" 21
  | notDirectory => system "Not a directory" 20
  | nameTooLong => system "File name too long" 36
  | notText => "stream did not contain valid UTF-8"
  | other message => message

/-- Whether the error says that there is nothing at the path. -/
def isAbsence : FileError → Bool
  | notFound => true
  | notDirectory => true
  | nameTooLong => true
  | _ => false

end FileError

/-- The text at each path, or why there is none. -/
abbrev Files := String → Except FileError String

/-- The files below a root. A directory is there when it lies on the way to a file or to the
    directory in which a command runs. -/
structure FileTree where
  /-- The text of each file, by the names on the way from the root to it. -/
  files : List (List String × String)
  /-- The names on the way from the root to the directory in which a command runs. -/
  here : List String

namespace FileTree

/-- The most bytes of a name. -/
def maxName : Nat := 255

/-- The most bytes of a path. -/
def maxPath : Nat := 4095

/-- Whether a way from the root leads to a directory. -/
def isDirectory (t : FileTree) (way : List String) : Bool :=
  way.isPrefixOf t.here || t.files.any fun (file, _) => way.isPrefixOf file && way != file

/-- The text at the end of a path, from a directory on. -/
def follow (t : FileTree) (way : List String) : List String → Except FileError String
  | [] => .error .isDirectory
  | part :: rest =>
    if part = "" || part = "." then t.follow way rest
    else if part = ".." then t.follow way.dropLast rest
    else if maxName < part.utf8ByteSize then .error .nameTooLong
    else
      let next := way ++ [part]
      if t.isDirectory next then t.follow next rest
      else
        match t.files.lookup next with
        | some text => if rest.isEmpty then .ok text else .error .notDirectory
        | none => .error .notFound

/-- The text at a path. -/
def read (t : FileTree) : Files := fun path =>
  if path.isEmpty then .error .notFound
  else if maxPath < path.utf8ByteSize then .error .nameTooLong
  else t.follow (if path.startsWith "/" then [] else t.here) (path.splitOn "/")

end FileTree

end Command

end Farmhand
