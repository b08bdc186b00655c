/-
Class paths.

A class path is a list of directories and archives in which classes are looked up by name.  The
first source that holds the file of a class decides, and a class that was read once stays loaded:
it is found again under the same name without another look at the sources, even when its source
has been closed meanwhile.  A class that cannot be read is not loaded and fails again.

Operations come one after the other, so nothing is said of callers that share a class path, and
nothing is logged.
-/
import ClassFormat.ClassFile.Query
import ClassFormat.ClassPath.Disk

namespace ClassFormat

/-- A place where class files are looked up. -/
inductive Source where
  | directory (location : Location)
  | archive (entries : List ArchiveEntry)

/-- A class that was read, and the name under which it was looked up. -/
structure LoadedClass where
  name : Text
  content : ClassFile

/-- The sources in order, and the classes loaded from them in the order of loading. -/
structure ClassPath where
  policy : ReadPolicy
  sources : List Source
  loaded : List LoadedClass

/-- Why a source cannot be added. -/
inductive SourceFault where
  /-- The path of an archive holds a NUL. -/
  | holdsNul
  /-- The path of an archive leads nowhere. -/
  | unreachable (fault : PathFault)
  /-- The path of an archive leads to a directory. -/
  | isDirectory
  /-- The file is no archive. -/
  | notAnArchive
  /-- The path of a directory leads to none. -/
  | invalid (path : Path)
  deriving DecidableEq

/-- The fault in words, if it comes with any. -/
def SourceFault.message? : SourceFault → Option Text
  | holdsNul => some "embedded null byte"
  | invalid path => some ("Invalid classpath entry: " ++ path.toText)
  | _ => none

/-- The ending of the files that hold classes. -/
def classSuffix : Text := ".class"

namespace Source

/-- Whether the source is a directory. -/
def isDirectory : Source → Bool
  | directory _ => true
  | archive _ => false

/-- The source that a path describes.  The extension says whether an archive is expected. -/
def ofPath (disk : Disk) (path : Path) : Except SourceFault Source :=
  if path.hasExtension "jar" || path.hasExtension "zip" then
    if path.holdsNul then .error .holdsNul
    else
      match disk.resolve [] path with
      | .ok (_, .archive entries) => .ok (.archive entries)
      | .ok (_, .directory) => .error .isDirectory
      | .ok (_, .file _) => .error .notAnArchive
      | .error fault => .error (.unreachable fault)
  else
    match disk.resolve [] path with
    | .ok (location, .directory) => .ok (.directory location)
    | _ => .error (.invalid path)

/-- The first bytes of an archive, which no class file has. -/
def archiveSignature (entries : List ArchiveEntry) : List UInt8 :=
  if entries.isEmpty then [0x50, 0x4B, 0x05, 0x06] else [0x50, 0x4B, 0x03, 0x04]

/--
The file of a name.  An archive holds files by their full names, and the last of several with
the same name counts; in a directory the name is a path.
-/
def file? (disk : Disk) (name : Text) : Source → Option (List UInt8)
  | archive entries => (entries.reverse.find? fun e => e.name = name).map (·.bytes)
  | directory location =>
    match disk.resolve location (.ofText name) with
    | .ok (_, .file bytes) => some bytes
    | .ok (_, .archive entries) => some (archiveSignature entries)
    | _ => none

/-- The names of all files and directories that end like a class file. -/
def fileNames (disk : Disk) : Source → List Text
  | archive entries => (entries.map (·.name)).filter (Text.endsIn · classSuffix)
  | directory location =>
    ((disk.below location).filter fun l => (l.getLastD []).endsIn classSuffix).map (.join "/")

/-- The names of the classes that the source may hold. -/
def classNames (disk : Disk) (source : Source) : List Text :=
  (source.fileNames disk).map (Text.dropEnd classSuffix.length)

end Source

namespace ClassPath

/-- The class path without any source. -/
def empty (policy : ReadPolicy) : ClassPath :=
  ⟨policy, [], []⟩

/-- The class path with one more source at its end. -/
def addPath (disk : Disk) (path : Path) (cp : ClassPath) : Except SourceFault ClassPath := do
  return { cp with sources := cp.sources ++ [← Source.ofPath disk path] }

/-- The class that is loaded under a name, and its position among the loaded classes. -/
def loaded? (cp : ClassPath) (name : Text) : Option (Nat × ClassFile) := do
  let position ← cp.loaded.findIdx? fun l => l.name = name
  return (position, (← cp.loaded[position]?).content)

/-- The file of a class in the first source that holds it. -/
def file? (disk : Disk) (name : Text) (cp : ClassPath) : Option (List UInt8) :=
  cp.sources.findSome? (Source.file? disk (name ++ classSuffix))

/--
The class of a name, if some source holds it, and the class path on which it is loaded from
then on.
-/
def find (disk : Disk) (name : Text) (cp : ClassPath) :
    Except Fault (Option (Nat × ClassFile) × ClassPath) :=
  match cp.loaded? name with
  | some found => .ok (some found, cp)
  | none =>
    match cp.file? disk name with
    | none => .ok (none, cp)
    | some bytes => do
      let c ← ClassFile.ofBytes cp.policy bytes
      return (some (cp.loaded.length, c), { cp with loaded := cp.loaded ++ [⟨name, c⟩] })

/-- The package of a class name: what stands before the last slash. -/
def packageOf (name : Text) : Text :=
  (name.splitLast '/').1

/--
The names of all classes, or of those in one package, source by source.  A name that several
sources have is listed once, at its first place.
-/
def classNames (disk : Disk) (package : Option Text) (cp : ClassPath) : List Text :=
  ((cp.sources.flatMap (Source.classNames disk)).filter fun n =>
    package.all (packageOf n = ·)).eraseDups

/--
The names of all classes, or of those in one package, in an order that the sources determine.
A directory has no order of its own, so the names are sorted as soon as one of the sources is a
directory.
-/
def names (disk : Disk) (package : Option Text) (cp : ClassPath) : List Text :=
  let found := cp.classNames disk package
  if cp.sources.any Source.isDirectory then found.mergeSort Text.le else found

/-- The class path without its archives. -/
def close (cp : ClassPath) : ClassPath :=
  { cp with sources := cp.sources.filter Source.isDirectory }

end ClassPath

end ClassFormat
