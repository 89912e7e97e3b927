import DesignCompiler.Asset.Token
import DesignCompiler.Dictionary
import DesignCompiler.FileSystem.Basic

/-!
# The asset catalog

The catalog is a source file with a line `static const String name = 'path';` for each asset. It
only grows: identifiers in it are never given to another path, and new ones are pending until they
are written before the last closing brace.
-/

namespace DesignCompiler.Asset

open Text

/-- An entry of the catalog: the identifier of an asset path. -/
structure CatalogEntry where
  name : String
  path : String
  deriving DecidableEq

namespace CatalogEntry

/-- What an entry begins with. -/
def opening : List Char := "static const String ".toList

/-- The entry at this place of a catalog file. -/
def at? (_previous : Option Char) (text : List Char) : Option (CatalogEntry × Nat) :=
  match dropStart? opening text with
  | none => none
  | some afterOpening =>
    let name := afterOpening.takeWhile isWord
    match trimStart (afterOpening.dropWhile isWord) with
    | '=' :: afterEquals =>
      match trimStart afterEquals with
      | '\'' :: inside =>
        let path := inside.takeWhile (· != '\'')
        match inside.dropWhile (· != '\'') with
        | '\'' :: ';' :: rest =>
          if name.isEmpty || path.isEmpty then none
          else
            some (⟨String.ofList name, String.ofList (forwardSlashes path)⟩,
              text.length - rest.length)
        | _ => none
      | _ => none
    | _ => none

/-- The line of an entry. -/
def line (entry : CatalogEntry) : String :=
  "  static const String " ++ entry.name ++ " = '" ++ entry.path ++ "';"

end CatalogEntry

/-- The identifiers of asset paths, all identifiers in use, and the entries not yet written. -/
structure Catalog where
  identifiers : Dictionary String String
  names : List String
  pending : Dictionary String String

namespace Catalog

/-- The catalog without entries. -/
def empty : Catalog := ⟨.empty, [], .empty⟩

/-- The catalog with an entry that was read. A path keeps the identifier of its first entry. -/
def read (catalog : Catalog) (entry : CatalogEntry) : Catalog :=
  { catalog with
    identifiers := if catalog.identifiers.contains entry.path then catalog.identifiers
      else catalog.identifiers.insert entry.path entry.name
    names := entry.name :: catalog.names }

/-- The catalog of a source text. -/
def ofSource (source : String) : Catalog :=
  (allMatches CatalogEntry.at? source.toList).foldl read empty

/-- The catalog in a file, if it can be read. -/
def load? (fs : FileSystem) (path : String) : Option Catalog :=
  (fs.readText path).toOption.map ofSource

/-- The first identifier among `base` followed by `index`, `index + 1`, … that is not in use, with
    at most `fuel` steps. -/
def numberedName (names : List String) (base : String) : Nat → Nat → String
  | 0, index => base ++ toString index
  | fuel + 1, index =>
    let candidate := base ++ toString index
    if names.contains candidate then numberedName names base fuel (index + 1) else candidate

/-- An identifier that is not in use: `base`, else `base` with the first free number from two on.
    Among one more numbers than there are identifiers one is free. -/
def freshName (names : List String) (base : String) : String :=
  if names.contains base then numberedName names base names.length 2 else base

/-- The identifier of an asset path; a new path gets a new identifier, which is pending. -/
def resolve (catalog : Catalog) (path : String) : String × Catalog :=
  let path := onChars forwardSlashes path
  match catalog.identifiers.get? path with
  | some name => (name, catalog)
  | none =>
    let name := freshName catalog.names (constantName path)
    (name, {
      identifiers := catalog.identifiers.insert path name
      names := name :: catalog.names
      pending := catalog.pending.insert path name })

/-- The pending entries sorted by path. -/
def pendingByPath (catalog : Catalog) : List (String × String) :=
  catalog.pending.entries.mergeSort fun a b => a.1 ≤ b.1

/-- The pending entries sorted by identifier. -/
def pendingByName (catalog : Catalog) : List CatalogEntry :=
  (catalog.pending.entries.map fun (path, name) => ⟨name, path⟩).mergeSort
    fun a b => a.name ≤ b.name

/-- The catalog file with lines put in before the last line break that precedes a closing brace. -/
def insertLines? (source : String) (entries : List CatalogEntry) : Option String :=
  (cutLast? ['\n', '\x7d'] source.toList).map fun (before, after) =>
    String.ofList before ++ "\n" ++ "\n".intercalate (entries.map CatalogEntry.line) ++
      String.ofList ('\n' :: '\x7d' :: after)

/-- Write the pending entries to the catalog file, if it has a closing brace, and answer with their
    number. -/
def flush (catalog : Catalog) (fs : FileSystem) (path : String) :
    Except FileSystem.Failure Nat × Catalog × FileSystem :=
  if catalog.pending.isEmpty then (.ok 0, catalog, fs)
  else match fs.readText path with
    | .error failure => (.error failure, catalog, fs)
    | .ok source =>
      let entries := catalog.pendingByName
      match insertLines? source entries with
      | none => (.ok 0, catalog, fs)
      | some updated =>
        match fs.overwrite path updated with
        | .error failure => (.error failure, catalog, fs)
        | .ok fs => (.ok entries.length, { catalog with pending := .empty }, fs)

end Catalog

end DesignCompiler.Asset
