import DesignCompiler.Text.Search

/-!
# Paths

A path in a text is a sequence of names between slashes. A place in the file system is the list of
names that leads to it from the root, without the names `.` and `..`.
-/

namespace DesignCompiler.FileSystem

open Text

/-- A place, by the names that lead to it from the root. -/
abbrev Path := List String

/-- The place one name further on: the name `..` leads back, and the root stays where it is. -/
def step (place : Path) (name : String) : Path :=
  if name == ".." then place.dropLast else place ++ [name]

/-- Whether a path starts at the root. -/
def isAbsolute (path : String) : Bool := path.toList.head? == some '/'

/-- A path continued by another. One that starts at the root takes its place. -/
def joinPath (path further : String) : String :=
  if isAbsolute further then further
  else if path.toList.getLast?.any (· != '/') then path ++ "/" ++ further
  else path ++ further

/-- The names in a path, empty ones and `.` left out. -/
def names (path : String) : List String :=
  ((splitOn (· == '/') path.toList).map String.ofList).filter fun name => name ≠ "" && name ≠ "."

/-- The path to the directory that the last name of a path stands in, without the slashes and the
    names `.` at its end. -/
def parentPath (path : String) : String :=
  let isVoid (name : List Char) : Bool := name.isEmpty || name == ['.']
  let above := ((splitOn (· == '/') path.toList).reverse.dropWhile isVoid).drop 1
  String.ofList (['/'].intercalate (above.dropWhile isVoid).reverse)

/-- Whether a name is longer than the 255 bytes that a name in a directory may have. -/
def isLongName (name : String) : Bool := 255 < name.utf8ByteSize

/-- Whether a path is longer than the 4095 bytes that something can be opened by. -/
def isLongPath (path : String) : Bool := 4095 < path.utf8ByteSize

/-- Whether a path can only lead to a directory, because it ends in a slash or in the name `.`. -/
def requiresDirectory (path : String) : Bool :=
  match (splitOn (· == '/') path.toList).getLast? with
  | some last => last.isEmpty || last == ['.']
  | none => false

/-- A file name cut at its last dot, where that has something before it: the stem, and what follows
    the dot. -/
def splitExtension (name : String) : String × Option String :=
  match cutLast? ['.'] name.toList with
  | some (c :: stem, extension) => (String.ofList (c :: stem), some (String.ofList extension))
  | _ => (name, none)

/-- The stem and the extension of the last name of a place; the root has an empty stem. -/
def Path.splitExtension (path : Path) : String × Option String :=
  FileSystem.splitExtension (path.getLast?.getD "")

/-- Whether one place comes before another, or is the same: name by name, each by its characters. -/
def Path.le : Path → Path → Bool
  | [], _ => true
  | _ :: _, [] => false
  | a :: as, b :: bs => a < b || (a == b && Path.le as bs)

end DesignCompiler.FileSystem
