/-
Paths, and the files and directories they lead to.

A `Disk` holds items by their location, which is the list of names on the way down from the
working directory.  Every directory on the way to an item is an item itself.  A `Path` is what
people write; it may go up again, and `Disk.follow` walks it step by step, because a step through
something that is no directory fails even if the next step leads back up.

An item is a directory, a file with its bytes, or an archive with its entries.  There are no links
from one location to another and no special files, nothing is unreadable, and no one else changes a
disk: whatever is said of every disk is said of those that are trees of plain files.

Of what lies outside the working directory a disk knows only that it is there: the directories above
it, and the root of the file system.
-/
import ClassFormat.Text.Basic

namespace ClassFormat

/-- A path as it is written, without its empty and idle parts. -/
structure Path where
  root : Text
  parts : List Text
  deriving DecidableEq

namespace Path

/-- The parts of a text between slashes. -/
def split : Text → List Text
  | [] => [[]]
  | p :: rest =>
    match split rest with
    | [] => [[p]]
    | part :: parts => if p = .scalar '/' then [] :: part :: parts else (p :: part) :: parts

/--
What marks a path as one that does not start at the working directory: a slash in front, or
exactly two, which are kept apart.
-/
def rootOf : Text → Text
  | .scalar '/' :: .scalar '/' :: .scalar '/' :: _ => "/"
  | .scalar '/' :: .scalar '/' :: _ => "//"
  | .scalar '/' :: _ => "/"
  | _ => ""

/-- The path that a text describes. -/
def ofText (t : Text) : Path :=
  ⟨rootOf t, (split t).filter fun part => !part.isEmpty && part != ("." : Text)⟩

/-- The path in writing. -/
def toText (path : Path) : Text :=
  if path.root.isEmpty && path.parts.isEmpty then "." else path.root ++ .join "/" path.parts

/-- Whether the path starts at the working directory. -/
def isRelative (path : Path) : Bool :=
  path.root.isEmpty

/-- Whether the last part is a name with a given extension after a period. -/
def hasExtension (extension : Text) (path : Path) : Bool :=
  match path.parts.getLast? with
  | some name =>
    let ending := .scalar '.' :: extension
    name.endsIn ending && ending.length < name.length
  | none => false

/-- The code point that no name on a disk can hold. -/
def nul : CodePoint := .scalar '\x00'

/-- Whether the path has a part that can be no name. -/
def holdsNul (path : Path) : Bool :=
  path.parts.any (nul ∈ ·)

end Path

/-- The names on the way from the working directory to an item. -/
abbrev Location := List Text

/-- A file of an archive under its full name. -/
structure ArchiveEntry where
  name : Text
  bytes : List UInt8
  deriving DecidableEq

/-- The entry for a file that is put under a name.  The full name ends before the first NUL. -/
def ArchiveEntry.ofFile (name : Text) (bytes : List UInt8) : ArchiveEntry :=
  ⟨name.takeWhile (· != Path.nul), bytes⟩

/-- What can stand at a location. -/
inductive Item where
  | directory
  | file (bytes : List UInt8)
  | archive (entries : List ArchiveEntry)
  deriving DecidableEq

/-- Why a path leads nowhere. -/
inductive PathFault where
  /-- There is nothing of that name. -/
  | absent
  /-- The path goes on after something that is no directory. -/
  | notADirectory
  deriving DecidableEq, Repr

/-- What is stored, by location. -/
structure Disk where
  items : List (Location × Item)

namespace Disk

/-- The part of a path that leads up. -/
def up : Text := ".."

/-- The root of the file system, about which nothing is known but that it is there. -/
def rootLocation : Location := ["/"]

/-- The disk that holds nothing. -/
def empty : Disk := ⟨[]⟩

/-- The item at a location; the working directory is always there. -/
def item? (disk : Disk) (location : Location) : Option Item :=
  if location = [] then some .directory else disk.items.lookup location

/-- The disk with an item at a location, in place of what was there. -/
def put (disk : Disk) (location : Location) (item : Item) : Disk :=
  ⟨(location, item) :: disk.items.filter fun (l, _) => l != location⟩

/-- The disk with a directory at a location, unless something is there already. -/
def putDirectory (disk : Disk) (location : Location) : Disk :=
  if (disk.item? location).isSome then disk else disk.put location .directory

/-- The disk with directories on the whole way down to a location. -/
def putDirectories (disk : Disk) (location : Location) : Disk :=
  (List.range location.length).foldl (fun d n => d.putDirectory (location.take (n + 1))) disk

/-- The disk with an item at a location, and directories on the way to it. -/
def add (disk : Disk) (location : Location) (item : Item) : Disk :=
  match item with
  | .directory => disk.putDirectories location
  | item => (disk.putDirectories location.dropLast).put location item

/--
The directory around a directory.  What lies above the working directory has no names here but
the steps that lead up to it, and the root of the file system is its own parent.
-/
def parent (location : Location) : Location :=
  if location = rootLocation then location
  else if location.all (· = up) then location ++ [up]
  else location.dropLast

/-- Where a path leads from a directory. -/
def follow (disk : Disk) (here : Location) : List Text → Except PathFault (Location × Item)
  | [] => .ok (here, .directory)
  | part :: rest =>
    if part = up then disk.follow (parent here) rest
    else
      let location := here ++ [part]
      match disk.item? location with
      | none => .error .absent
      | some .directory => disk.follow location rest
      | some item => if rest = [] then .ok (location, item) else .error .notADirectory

/-- Where a path leads from a given directory.  A path with a root starts there instead. -/
def resolve (disk : Disk) (here : Location) (path : Path) : Except PathFault (Location × Item) :=
  disk.follow (if path.isRelative then here else rootLocation) path.parts

/-- The locations below a directory, relative to it. -/
def below (disk : Disk) (here : Location) : List Location :=
  disk.items.filterMap fun (location, _) =>
    if here.isPrefixOf location && here != location then some (location.drop here.length) else none

end Disk

end ClassFormat
