import Stencil.Error
import Stencil.FileSystem.Path

/-!
# File systems

A file system is a finite table of directories and files under absolute names, with a working
directory. Paths are followed name by name as a POSIX system does it: every name but the last must
lead to a directory, and so must a last one that a slash follows.
-/

namespace Stencil

/-- What a name leads to. -/
inductive Entry where
  | directory
  | file (content : ByteArray)

/-- The number of bytes that an entry holds. -/
def Entry.size : Entry → Nat
  | .directory => 0
  | .file content => content.size

/-- Directories and files under absolute names; the root directory needs no entry. -/
structure FileSystem where
  workingDirectory : List String
  entries : List (List String × Entry)

namespace FileSystem

/-- The absolute names of the directories that lead to a place, and of the place itself. -/
def ancestors (names : List String) : List (List String) :=
  (List.range (names.length + 1)).map names.take

/-- A file system that holds nothing but the directories down to its working directory. -/
def empty (workingDirectory : List String) : FileSystem :=
  { workingDirectory
    entries := (ancestors workingDirectory).map fun names => (names, .directory) }

/-- What stands under an absolute name. -/
def find? (fs : FileSystem) (names : List String) : Option Entry :=
  if names = [] then some .directory else fs.entries.lookup names

/-- The longest path, in bytes, that the system accepts. -/
def maxPath : Nat := 4095

/-- The longest name, in bytes, that the system accepts. -/
def maxName : Nat := 255

/-- Take one step from a place, given as an absolute name, along a segment of a path. -/
def follow (fs : FileSystem) (place : List String) (segment : String) :
    Except FileError (List String) :=
  match fs.find? place with
  | none => .error .missing
  | some (.file _) => .error .notDirectory
  | some .directory =>
    if segment = "" ∨ segment = "." then .ok place
    else if segment = ".." then .ok place.dropLast
    else if maxName < segment.utf8ByteSize then .error .nameTooLong
    else
      let next := place ++ [segment]
      if (fs.find? next).isSome then .ok next else .error .missing

/-- Where the segments of a path start. -/
def origin (fs : FileSystem) (path : Path) : List String :=
  if path.isAbsolute then [] else fs.workingDirectory

/-- The absolute name that a path leads to. -/
def locate (fs : FileSystem) (path : Path) : Except FileError (List String) :=
  if path.text.toList.contains '\x00' then
    .error (.other "file name contained an unexpected NUL byte")
  else if path.text = "" then .error .missing
  else if maxPath < path.text.utf8ByteSize then .error .nameTooLong
  else
    path.segments.foldlM fs.follow (fs.origin path)

/-- What a path leads to. -/
def entry (fs : FileSystem) (path : Path) : Except FileError Entry := do
  match fs.find? (← fs.locate path) with
  | some entry => .ok entry
  | none => .error .missing

/-- Whether a path leads to a file. -/
def isFile (fs : FileSystem) (path : Path) : Bool :=
  match fs.entry path with
  | .ok (.file _) => true
  | _ => false

/-- The text of the file that a path leads to. -/
def readText (fs : FileSystem) (path : Path) : Except FileError String := do
  match ← fs.entry path with
  | .directory => .error (.system 21)
  | .file content =>
    match String.fromUTF8? content with
    | some text => .ok text
    | none => .error (.other "stream did not contain valid UTF-8")

/-- The number of bytes in all files. -/
def size (fs : FileSystem) : Nat :=
  fs.entries.foldr (fun e total => e.2.size + total) 0

/-- Put an entry under an absolute name, in place of an earlier one. -/
def put (fs : FileSystem) (names : List String) (entry : Entry) : FileSystem :=
  { fs with entries := (names, entry) :: fs.entries.filter fun e => e.1 ≠ names }

/-- Whether a directory stands under an absolute name. -/
def isDirectory (fs : FileSystem) (names : List String) : Bool :=
  match fs.find? names with
  | some .directory => true
  | _ => false

/-- Put a directory under an absolute name, if nothing is there and the place for it is one. -/
def makeDirectory (fs : FileSystem) (names : List String) : FileSystem :=
  if (fs.find? names).isNone && fs.isDirectory names.dropLast then fs.put names .directory else fs

/-- Put a file under an absolute name, if no directory is there and the place for it is one. -/
def makeFile (fs : FileSystem) (names : List String) (content : ByteArray) : FileSystem :=
  if !fs.isDirectory names && fs.isDirectory names.dropLast then fs.put names (.file content) else fs

/-- The absolute name one segment further, without regard to what is there. -/
def step (place : List String) (segment : String) : List String :=
  if segment = "" ∨ segment = "." then place
  else if segment = ".." then place.dropLast
  else place ++ [segment]

/-- The absolute name that a path is meant to create, without regard to what is there. -/
def target (fs : FileSystem) (path : Path) : List String :=
  path.segments.foldl step (fs.origin path)

/-- Make the directories along some segments that are not there. -/
def makeAlong (fs : FileSystem) (place : List String) : List String → FileSystem
  | [] => fs
  | segment :: rest =>
    let next := step place segment
    makeAlong (fs.makeDirectory next) next rest

/-- Write an entry at a path, with the directories that lead to it. Nothing that is there becomes a
thing of the other kind. -/
def write (fs : FileSystem) (path : Path) : Entry → FileSystem
  | .directory => fs.makeAlong (fs.origin path) path.segments
  | .file content =>
    (fs.makeAlong (fs.origin path) path.segments.dropLast).makeFile (fs.target path) content

/-- Remove what stands at a path, and everything below it. -/
def remove (fs : FileSystem) (path : Path) : FileSystem :=
  let names := fs.target path
  { fs with entries := fs.entries.filter fun e => !names.isPrefixOf e.1 }

/-- Look for the file of an identifier under every root in turn, where `look` tells what a path leads
to. Each root is tried once, and the last failure is the one reported. -/
def resolveFrom (look : Path → Except FileError Entry) (identifier : String) (last : FileError)
    (attempts : Nat) : List Path → Except Error Path
  | [] => .error (.notFound identifier attempts last)
  | root :: rest =>
    let candidate := root.join ⟨identifier⟩
    match look candidate with
    | .ok (.file _) => .ok candidate
    | .ok .directory => resolveFrom look identifier .notFile attempts rest
    | .error e => resolveFrom look identifier e attempts rest

/-- Find the file for an identifier among some roots, where `look` tells what a path leads to. An
absolute identifier is a path by itself. -/
def resolveBy (look : Path → Except FileError Entry) (identifier : String) (roots : List Path) :
    Except Error Path :=
  if (Path.mk identifier).isAbsolute then
    match look ⟨identifier⟩ with
    | .ok (.file _) => .ok ⟨identifier⟩
    | .ok .directory => .error (.notFound identifier 1 .notFile)
    | .error e => .error (.notFound identifier 1 e)
  else resolveFrom look identifier (.other "entity not found") roots.length roots

/-- Find the file for an identifier among some roots. -/
def resolve (fs : FileSystem) (identifier : String) (roots : List Path) : Except Error Path :=
  resolveBy fs.entry identifier roots

end FileSystem

end Stencil
