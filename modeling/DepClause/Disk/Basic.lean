import DepClause.Disk.Path
import DepClause.Json.Printer
import DepClause.Json.Reader
import DepClause.Text.Plain
import DepClause.Text.Quoted

/-!
# The disk

Files and directories. A file holds a text, or a document that was written as such; a document is
read back as the value that was written.
-/

namespace DepClause

inductive Contents where
  | text (s : String)
  | document (v : Json)
  deriving Repr

namespace Contents

/-- The contents that writing a value as a document leaves. -/
def ofDocument (v : Json) : Contents := .document v.stored

def toText : Contents → String
  | .text s => s
  | .document v => v.pretty ++ "\n"

/-- A text without a byte order mark at its start. -/
def withoutMark (s : String) : String :=
  match s.toList with
  | '\uFEFF' :: cs => String.ofList cs
  | _ => s

/-- The value that a file holds. -/
def toJson : Contents → Except Json.SyntaxError Json
  | .text s => Json.parse (withoutMark s)
  | .document v => .ok v

end Contents

/-- Why the disk refuses an operation on a path. -/
inductive DiskFault where
  | missing (operation path : String)
  | notDirectory (operation path : String)
  | nameTooLong (operation path : String)
  | isDirectory (operation : String)
  | isFile (path : String)
  | nullInPath (path : String)
  deriving DecidableEq, Repr

namespace DiskFault

def message : DiskFault → String
  | .missing operation path =>
    "ENOENT: no such file or directory, " ++ operation ++ " '" ++ path ++ "'"
  | .notDirectory operation path =>
    "ENOTDIR: not a directory, " ++ operation ++ " '" ++ path ++ "'"
  | .nameTooLong operation path =>
    "ENAMETOOLONG: name too long, " ++ operation ++ " '" ++ path ++ "'"
  | .isDirectory operation => "EISDIR: illegal operation on a directory, " ++ operation
  | .isFile path => "EEXIST: file already exists, mkdir '" ++ path ++ "'"
  | .nullInPath path =>
    "The argument 'path' must be a string, Uint8Array, or URL without null bytes. Received " ++
      Text.shortened 128 (Text.inQuotes path)

/-- The same fault of another path. -/
def on (path : String) : DiskFault → DiskFault
  | .missing operation _ => .missing operation path
  | .notDirectory operation _ => .notDirectory operation path
  | .nameTooLong operation _ => .nameTooLong operation path
  | .isDirectory operation => .isDirectory operation
  | .isFile _ => .isFile path
  | .nullInPath _ => .nullInPath path

end DiskFault

/-- Files by their locations, the locations of the directories, and that of the working directory.
A location is a plain path from the root in normal form; that of the root itself is empty. -/
structure Disk where
  files : Table Contents := []
  directories : List String := [""]
  here : String := ""
  deriving Repr

/-- The disk after a change, and what stopped the change if anything did. What was done before that
stays. -/
structure Changed (ε : Type) where
  disk : Disk
  result : Except ε Unit

namespace Changed

variable {ε δ : Type}

def done (d : Disk) : Changed ε := ⟨d, .ok ()⟩

def failed (d : Disk) (e : ε) : Changed ε := ⟨d, .error e⟩

/-- A second change behind a first one that was done. -/
def andThen (c : Changed ε) (next : Disk → Changed ε) : Changed ε :=
  match c.result with
  | .ok _ => next c.disk
  | .error e => failed c.disk e

def mapError (f : ε → δ) (c : Changed ε) : Changed δ := ⟨c.disk, c.result.mapError f⟩

end Changed

namespace Disk

/-- What a path leads to. -/
inductive Place where
  | file (location : String)
  | directory (location : String)
  | vacant (location : String)
  | missing
  | notDirectory
  | nameTooLong
  | nullInPath
  deriving DecidableEq, Repr

/-- The number of bytes of the longest name. -/
def longestName : Nat := 255

/-- The number of bytes of the longest path. -/
def longestPath : Nat := 4095

/-- The location of a name in a directory. -/
def child (directory name : String) : String := directory ++ "/" ++ name

/-- The directory that holds a location; the root holds itself. -/
def parent (location : String) : String :=
  String.ofList ((location.toList.reverse.dropWhile (· != '/')).drop 1).reverse

def placeOf (d : Disk) (location : String) : Place :=
  if d.directories.contains location then .directory location
  else if d.files.contains location then .file location
  else .vacant location

/-- What lies at the end of a path that starts at a place. -/
def follow (d : Disk) (place : Place) : List String → Place
  | [] => place
  | p :: ps =>
    match place with
    | .directory location =>
      if p == "" || p == "." then d.follow place ps
      else if p == ".." then d.follow (.directory (parent location)) ps
      else if longestName < p.utf8ByteSize then .nameTooLong
      else d.follow (d.placeOf (child location p)) ps
    | .vacant _ => if p == "" then d.follow place ps else .missing
    | .file _ => .notDirectory
    | fault => fault

/-- The directory in which a path starts. -/
def startOf (d : Disk) (path : String) : String := if path.startsWith "/" then "" else d.here

/-- What lies at a path. -/
def locate (d : Disk) (path : String) : Place :=
  let path := Text.toPlain path
  if path.contains '\x00' then .nullInPath
  else if path.isEmpty then .missing
  else if longestPath < path.utf8ByteSize then .nameTooLong
  else d.follow (.directory (d.startOf path)) (Path.parts path)

def pathExists (d : Disk) (path : String) : Bool :=
  match d.locate path with
  | .file _ | .directory _ => true
  | _ => false

def read (d : Disk) (path : String) : Except DiskFault Contents :=
  match d.locate path with
  | .file location =>
    match d.files.get? location with
    | some contents => .ok contents
    | none => .error (.missing "open" path)
  | .directory _ => .error (.isDirectory "read")
  | .notDirectory => .error (.notDirectory "open" path)
  | .nameTooLong => .error (.nameTooLong "open" path)
  | .nullInPath => .error (.nullInPath path)
  | .vacant _ | .missing => .error (.missing "open" path)

/-- The disk with a file at a path whose directory is there. -/
def write (d : Disk) (path : String) (contents : Contents) : Changed DiskFault :=
  match d.locate path with
  | .file location | .vacant location =>
    .done { d with files := d.files.set location contents }
  | .directory _ => .failed d (.isDirectory ("open '" ++ path ++ "'"))
  | .notDirectory => .failed d (.notDirectory "open" path)
  | .nameTooLong => .failed d (.nameTooLong "open" path)
  | .nullInPath => .failed d (.nullInPath path)
  | .missing => .failed d (.missing "open" path)

/-- The disk with a directory at a path whose other directories are there. A file at its place is
in the way of the directories below it if the path is not the whole one. -/
def makeDirectory (d : Disk) (isWhole : Bool) (path : String) : Changed DiskFault :=
  match d.locate path with
  | .directory _ => .done d
  | .vacant location => .done { d with directories := d.directories ++ [location] }
  | .file _ => .failed d (if isWhole then .isFile path else .notDirectory "mkdir" path)
  | .notDirectory => .failed d (.notDirectory "mkdir" path)
  | .nameTooLong => .failed d (.nameTooLong "mkdir" path)
  | .nullInPath => .failed d (.nullInPath path)
  | .missing => .failed d (.missing "mkdir" path)

/-- The disk with all directories of a path whose parts are given, the last one first. Where a
directory above it is missing, the path without its last part is made first. -/
def makeAlong (d : Disk) (isWhole : Bool) : List String → Changed DiskFault
  | p :: q :: ps =>
    let path := "/".intercalate (p :: q :: ps).reverse
    if d.locate path = .missing then
      (d.makeAlong false (q :: ps)).andThen fun d => d.makeDirectory isWhole path
    else d.makeDirectory isWhole path
  | [p] => d.makeDirectory isWhole p
  | [] => .done d

/-- The disk with a directory and all directories above it. A fault names the path at which it
stopped. -/
def makeDirectories (d : Disk) (path : String) : Changed DiskFault :=
  d.makeAlong true (Path.parts path).reverse

/-- A disk without files, with the working directory and those above it. -/
def empty (here : String) : Disk := (({ here } : Disk).makeDirectories here).disk

/-- The disk with a text at a path and all directories above it. A file holds the text as it is
shown. -/
def place (d : Disk) (path text : String) : Changed DiskFault :=
  let path := Path.join "" path
  (d.makeDirectories (Path.join path "..")).andThen fun d =>
    d.write path (.text (Text.mended text))

end Disk

end DepClause
