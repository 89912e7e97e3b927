import DesignCompiler.Dictionary
import DesignCompiler.FileSystem.Path

/-!
# The file system

A file system is a value: what stands at each place, a directory or a file with its content. The
operations answer with a value or the kind of their failure and, where they change something, with
the file system afterwards.
-/

namespace DesignCompiler

/-- The kinds of failure. -/
inductive FileSystem.Failure where
  | notFound
  | isADirectory
  | notADirectory
  | alreadyExists
  | invalidInput
  | invalidData
  | invalidFilename
  deriving DecidableEq

/-- The name of a kind of failure. -/
def FileSystem.Failure.name : FileSystem.Failure → String
  | .notFound => "NotFound"
  | .isADirectory => "IsADirectory"
  | .notADirectory => "NotADirectory"
  | .alreadyExists => "AlreadyExists"
  | .invalidInput => "InvalidInput"
  | .invalidData => "InvalidData"
  | .invalidFilename => "InvalidFilename"

/-- The content of a file: a text, or bytes that are the UTF-8 form of no text. -/
inductive FileSystem.Content where
  | text (content : String)
  | binary (bytes : ByteArray)

/-- The content with the given bytes. -/
def FileSystem.Content.ofBytes (bytes : ByteArray) : FileSystem.Content :=
  match String.fromUTF8? bytes with
  | some content => .text content
  | none => .binary bytes

/-- What stands at a place. -/
inductive FileSystem.Entry where
  | directory
  | file (content : FileSystem.Content)

/-- What stands at each place but the root, which is a directory. -/
structure FileSystem where
  entries : List (FileSystem.Path × FileSystem.Entry)

namespace FileSystem

/-- The file system with nothing but the root. -/
def empty : FileSystem := ⟨[]⟩

/-- What stands at a place. -/
def entry? (fs : FileSystem) (place : Path) : Option Entry :=
  if place.isEmpty then some .directory else Dictionary.lookup place fs.entries

/-- The file system with an entry put at a place. -/
def put (fs : FileSystem) (place : Path) (entry : Entry) : FileSystem :=
  ⟨Dictionary.put place entry fs.entries⟩

/-- The file system without the file at a place. A directory stays. -/
def removeFile (fs : FileSystem) (place : Path) : FileSystem :=
  match fs.entry? place with
  | some (.file _) => ⟨fs.entries.filter (·.1 != place)⟩
  | _ => fs

/-- Whether a directory stands at a place. -/
def isDirectory (fs : FileSystem) (place : Path) : Bool :=
  match fs.entry? place with
  | some .directory => true
  | _ => false

/-- The place that names lead to from a place, each step being taken from an existing directory. -/
def follow (fs : FileSystem) (place : Path) : List String → Except Failure Path
  | [] => .ok place
  | name :: rest =>
    if !fs.isDirectory place then .error .notADirectory
    else if isLongName name then .error .invalidFilename
    else
      let next := step place name
      match fs.entry? next with
      | some _ => fs.follow next rest
      | none => .error .notFound

/-- The place that a path leads to, if something stands there. The names are followed one by one, so
    the path itself may be of any length. -/
def locate (fs : FileSystem) (path : String) : Except Failure Path :=
  if path.toList.contains (Char.ofNat 0) then .error .invalidInput
  else if path == "" then .error .notFound
  else match fs.follow [] (names path) with
    | .error failure => .error failure
    | .ok place =>
      if requiresDirectory path && !fs.isDirectory place then .error .notADirectory else .ok place

/-- The place of what is opened by a path, which must not be too long. -/
def openPlace (fs : FileSystem) (path : String) : Except Failure Path :=
  if isLongPath path then .error .invalidFilename else fs.locate path

/-- The text of the file that a path leads to. -/
def readText (fs : FileSystem) (path : String) : Except Failure String :=
  match fs.openPlace path with
  | .error failure => .error failure
  | .ok place =>
    match fs.entry? place with
    | some (.file (.text content)) => .ok content
    | some (.file (.binary _)) => .error .invalidData
    | some .directory => .error .isADirectory
    | none => .error .notFound

/-- Replace the content of the file that a path leads to. -/
def overwrite (fs : FileSystem) (path content : String) : Except Failure FileSystem :=
  match fs.openPlace path with
  | .error failure => .error failure
  | .ok place =>
    if fs.isDirectory place then .error .isADirectory
    else .ok (fs.put place (.file (.text content)))

/-- Make the directories that names lead through from a place, where they do not exist, and answer
    with the last one. -/
def makeDirectories (fs : FileSystem) (place : Path) :
    List String → FileSystem × Except Failure Path
  | [] => (fs, .ok place)
  | name :: rest =>
    let next := step place name
    match fs.entry? next with
    | some .directory => fs.makeDirectories next rest
    | some (.file _) => (fs, .error .alreadyExists)
    | none =>
      if isLongName name then (fs, .error .invalidFilename)
      else (fs.put next .directory).makeDirectories next rest

/-- What a file holds after the content of `source` was copied into it: it is emptied first, so a
    file copied onto itself ends up empty. -/
def copiedContent (source target : Path) (content : Content) : Content :=
  if source = target then .text "" else content

/-- Copy the file at a place to a path, making the directories that lead to it. They stay where only
    the path to the file is too long. -/
def copy (fs : FileSystem) (source : Path) (path : String) : FileSystem × Except Failure Path :=
  if path.toList.contains (Char.ofNat 0) then (fs, .error .invalidInput)
  else if isLongPath (parentPath path) then (fs, .error .invalidFilename)
  else match fs.makeDirectories [] (names path).dropLast with
    | (fs, .error failure) => (fs, .error failure)
    | (fs, .ok directory) =>
      let name := ((names path).getLast?).toList
      let target := directory ++ name
      match fs.entry? source, fs.entry? target with
      | none, _ => (fs, .error .notFound)
      | some .directory, _ => (fs, .error .invalidInput)
      | some (.file _), some .directory => (fs, .error .isADirectory)
      | some (.file content), _ =>
        if isLongPath path || name.any isLongName then (fs, .error .invalidFilename)
        else (fs.put target (.file (copiedContent source target content)), .ok target)

/-- The texts of the files below a place, each with its place. -/
def textsBelow (fs : FileSystem) (place : Path) : List (Path × String) :=
  fs.entries.filterMap fun (path, entry) =>
    match entry with
    | .file (.text content) => if place.isPrefixOf path then some (path, content) else none
    | _ => none

end FileSystem

end DesignCompiler
