/-
# Files

A path is a list of names with slashes between; a single dot stands for the directory itself and two
dots for the one above. It leads to a directory, to a file with its octets, or nowhere. A name has
at most 255 octets and a path at most 4095; longer ones lead nowhere.

A directory is known by the files in and below it. It stands somewhere below the root. Of the rest
of the file system only that is known which every system has: the directories on the way to the
root, the usual directories in the root, and the empty device.
-/

import EventRules.Text.Quoted
import EventRules.Text.Utf8

namespace EventRules

/-- What a path leads to. -/
inductive Node
  | directory
  | file (octets : List UInt8)
  deriving DecidableEq

/-- Why a path leads nowhere. -/
inductive PathFault
  | missing
  | notADirectory
  | nameTooLong
  deriving DecidableEq, Repr

/-- Why a program cannot be read from a file. -/
inductive ReadFault
  | missing (path : Text)
  | isADirectory (path : Text)
  | nameTooLong (path : Text)
  | notText (refusal : Utf8.Refusal)
  deriving DecidableEq, Repr

/-- The message on a file that cannot be read. -/
def ReadFault.message : ReadFault → Text
  | missing path => "Source file not found: " ++ path
  | isADirectory path => "[Errno 21] Is a directory: " ++ path.quoted
  | nameTooLong path => "[Errno 36] File name too long: " ++ path.quoted
  | notText refusal => refusal.message

/-- Why a file cannot be written. -/
inductive WriteFault
  | noSuchDirectory
  | notADirectory
  | isADirectory
  | nameTooLong
  | denied
  deriving DecidableEq, Repr

/-- The message on a file that cannot be written. -/
def WriteFault.message (f : WriteFault) (path : Text) : Text :=
  let reason : Text :=
    match f with
    | noSuchDirectory => "[Errno 2] No such file or directory: "
    | notADirectory => "[Errno 20] Not a directory: "
    | isADirectory => "[Errno 21] Is a directory: "
    | nameTooLong => "[Errno 36] File name too long: "
    | denied => "[Errno 13] Permission denied: "
  reason ++ path.quoted

namespace Path

/-- The names on a path, without those that lead nowhere. -/
def segments (path : Text) : List Text :=
  (path.splitWhere (· = '/')).filter fun name => !name.isEmpty && name ≠ "."

/-- A path in its plain form: without empty names, dots and a slash at its end. Exactly two slashes
at its start are kept. -/
def plain (path : Text) : Text :=
  let root : Text :=
    match path with
    | '/' :: '/' :: '/' :: _ => "/"
    | '/' :: '/' :: _ => "//"
    | '/' :: _ => "/"
    | _ => ""
  let names := Text.join "/" (segments path)
  if root.isEmpty && names.isEmpty then "." else root ++ names

/-- The path starts at the root. -/
def isAbsolute (path : Text) : Bool :=
  path.head? = some '/'

/-- The path ends in a slash or a dot, so that only a directory can be found under it. -/
def namesDirectory (path : Text) : Bool :=
  match (path.splitWhere (· = '/')).getLast? with
  | some name => name.isEmpty || name = "."
  | none => false

/-- The greatest number of octets in a name. -/
def nameLimit : Nat := 255

/-- The greatest number of octets in a path. -/
def lengthLimit : Nat := 4095

end Path

/-- A place seen from a directory: in or below it or below the root, given by the names that lead
there; on the way to the root; or under a name in a directory on that way. -/
inductive Place
  | inside (names : List Text)
  | absolute (names : List Text)
  | above
  | elsewhere
  deriving DecidableEq, Repr

namespace Place

/-- The directory of a place. That of the root is the root. -/
def parent : Place → Place
  | inside [] => above
  | inside (name :: names) => inside (name :: names).dropLast
  | absolute names => absolute names.dropLast
  | above | elsewhere => above

/-- The place under a name. -/
def child (name : Text) : Place → Place
  | inside names => inside (names ++ [name])
  | absolute names => absolute (names ++ [name])
  | above | elsewhere => elsewhere

/-- The directories that every system has in its root. -/
def rootDirectories : List Text :=
  ["bin", "boot", "dev", "etc", "home", "lib", "media", "mnt", "opt", "proc", "root", "run", "sbin",
    "srv", "sys", "tmp", "usr", "var"]

/-- The names that lead from the root to the device that is always empty. -/
def emptyDevice : List Text :=
  ["dev", "null"]

/-- What every system has under names from its root. -/
def standard? (names : List Text) : Option Node :=
  if names = emptyDevice then some (.file [])
  else if names.isEmpty || rootDirectories.any (names = [·]) then some .directory
  else none

end Place

/-- The files in and below a directory, by the names that lead to them. -/
structure Directory where
  files : List (List Text × List UInt8)

namespace Directory

/-- The directory that holds the given files. -/
def ofFiles (files : List (Text × List UInt8)) : Directory where
  files := files.map fun (path, octets) => (Path.segments path, octets)

/-- What stands at a place. -/
def node? (d : Directory) : Place → Option Node
  | .above => some .directory
  | .elsewhere => none
  | .absolute names => Place.standard? names
  | .inside names =>
    match d.files.find? (·.1 = names) with
    | some (_, octets) => some (.file octets)
    | none =>
      if names.isEmpty || d.files.any fun (path, _) => names.isPrefixOf path then some .directory
      else none

/-- Follows one name from a place, where a directory has to stand. Whether something stands under
the name is not looked at. -/
def step (d : Directory) (p : Place) (name : Text) : Except PathFault Place :=
  match d.node? p with
  | none => .error .missing
  | some (.file _) => .error .notADirectory
  | some .directory =>
    if name = ".." then .ok p.parent
    else if Path.nameLimit < name.octetCount then .error .nameTooLong
    else .ok (p.child name)

/-- The place under a path. Every name on it but the last has to lead to a directory. -/
def place (d : Directory) (path : Text) : Except PathFault Place := do
  if path.isEmpty then throw .missing
  if Path.lengthLimit < path.octetCount then throw .nameTooLong
  let start : Place := if Path.isAbsolute path then .absolute [] else .inside []
  (Path.segments path).foldlM d.step start

/-- What a path leads to. -/
def lookup (d : Directory) (path : Text) : Except PathFault Node := do
  match d.node? (← d.place path) with
  | none => throw .missing
  | some (.file octets) =>
    if Path.namesDirectory path then throw .notADirectory else return .file octets
  | some .directory => return .directory

/-- The place of a file that is written under a path. -/
def target (d : Directory) (path : Text) : Except WriteFault Place :=
  match d.place path with
  | .error .missing => .error .noSuchDirectory
  | .error .notADirectory => .error .notADirectory
  | .error .nameTooLong => .error .nameTooLong
  | .ok place => if d.node? place = some .directory then .error .isADirectory else .ok place

/-- The path from the directory to a place in or below it at which nothing stands. -/
def newName? (d : Directory) (place : Place) : Option Text :=
  match place, d.node? place with
  | .inside names, none => some (Text.join "/" names)
  | _, _ => none

end Directory

end EventRules
