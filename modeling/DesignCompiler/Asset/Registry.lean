import DesignCompiler.Asset.Catalog
import DesignCompiler.Dart.Expr
import DesignCompiler.Markup.Node
import DesignCompiler.Options

/-!
# Assets of a compilation

Local files that the markup refers to get names in the asset directory of the project, are
registered for copying and are referred to by identifiers of the catalog, or by their paths where
there is no catalog. A file keeps the first name it was given, and no two files share one.
-/

namespace DesignCompiler.Asset

open Text FileSystem

/-- A local file as generated code refers to it. -/
structure LocalAsset where
  relativePath : String
  isVector : Bool
  reference : Dart.Expr

/-- How the assets of a compilation are found and named. -/
structure AssetSettings where
  markupDirectory : String
  assetDirectory : String
  label : String
  rename : Bool
  copy : Bool
  projectRoot : String
  catalogFile : String

/-- The assets of a compilation so far: registered files with their relative paths, file names given
    out, naming hints, and the catalog. -/
structure AssetRegistry where
  settings : AssetSettings
  registrations : Dictionary FileSystem.Path String
  fileNames : Dictionary FileSystem.Path String
  usedNames : List String
  hints : Dictionary FileSystem.Path String
  catalog : Option Catalog

namespace AssetRegistry

/-- The settings that options make for markup in a directory. -/
def settingsOf (options : CompileOptions) (markupDirectory : String) : AssetSettings :=
  let label := onChars sanitize options.assetLabel
  { markupDirectory := markupDirectory
    assetDirectory := onChars (fun directory => dropEnd (· == '/') (forwardSlashes directory))
      options.assetDirectory
    label := label
    rename := options.renameAssets.getD (label != "")
    copy := options.copyAssets
    projectRoot := options.projectRoot
    catalogFile := options.catalogFile }

/-- The registry before any asset is resolved, with the catalog in the project if there is one. -/
def start (fs : FileSystem) (options : CompileOptions) (markupDirectory : String) : AssetRegistry :=
  { settings := settingsOf options markupDirectory
    registrations := .empty
    fileNames := .empty
    usedNames := []
    hints := .empty
    catalog := Catalog.load? fs options.catalogFile }

/-- Whether a reference names a remote resource or holds its data itself. -/
def isRemote (reference : List Char) : Bool :=
  ["http://", "https://", "data:"].any fun scheme =>
    startsWith scheme.toList (lowerAscii reference)

/-- The file that a reference in the markup leads to. -/
def localPath? (registry : AssetRegistry) (fs : FileSystem) (source : String) :
    Option FileSystem.Path :=
  let reference := trim (source.toList.takeWhile fun c => c != '?' && c != '#')
  if reference.isEmpty || isRemote reference then none
  else
    (fs.locate (joinPath registry.settings.markupDirectory (String.ofList reference))).toOption

/-- The file and the hint that an image gives: its class names the file it shows. -/
def hintOf? (registry : AssetRegistry) (fs : FileSystem) (element : Markup.Element) :
    Option (FileSystem.Path × String) := do
  let path ← (element.attribute? "src").bind (registry.localPath? fs)
  let hint ← element.classAttribute?.bind tokenOfClass?
  return (path, hint)

/-- Keep a hint for a file if there is none or it is better. -/
def addHint (registry : AssetRegistry) (path : FileSystem.Path) (hint : String) : AssetRegistry :=
  if (registry.hints.get? path).all (isBetter hint) then
    { registry with hints := registry.hints.insert path hint }
  else registry

/-- Collect the hints of all images in a tree, in document order. -/
def collectHints (registry : AssetRegistry) (fs : FileSystem) (root : Markup.Node) :
    AssetRegistry :=
  let images := (root.subtrees.filterMap Markup.Node.head?).filter (·.tag == "img")
  images.foldl (fun registry image =>
    match registry.hintOf? fs image with
    | some (path, hint) => registry.addHint path hint
    | none => registry) registry

/-- The token that names a file: the first of the direct hint, the collected hint and the stem that
    is not generic. -/
def semanticToken? (registry : AssetRegistry) (path : FileSystem.Path) (hint stem : List Char) :
    Option (List Char) :=
  let collected := ((registry.hints.get? path).getD "").toList
  ([hint, collected, stem].map normalize).find? fun token => !token.isEmpty && !isGeneric token

/-- The canonical name of a file without its number: the kind, the label and the token joined by
    underscores, and the extension in lower case. -/
def canonicalName (registry : AssetRegistry) (path : FileSystem.Path) (hint : String) :
    List Char × List Char :=
  let (stem, extension) := path.splitExtension
  let ending := match extension with
    | some extension => '.' :: lowerAscii extension.toList
    | none => ".bin".toList
  let isVector := ending == ".svg".toList
  let word := sanitize stem.toList
  let token := (registry.semanticToken? path hint.toList
    (if word.isEmpty then "asset".toList else word)).getD
      (if isVector then "icon".toList else "image".toList)
  let kind := if isVector then "ic".toList else "img".toList
  let parts := [kind, registry.settings.label.toList, token]
  (['_'].intercalate (parts.filter (!·.isEmpty)), ending)

/-- The name of a file as it is, in the same two parts. -/
def ownName (path : FileSystem.Path) : List Char × List Char :=
  let (stem, extension) := path.splitExtension
  (stem.toList, match extension with | some extension => '.' :: extension.toList | none => [])

/-- The first name among `base_index.ending`, `base_(index + 1).ending`, … that is not in use, with
    at most `fuel` steps. -/
def numberedFileName (used : List String) (base ending : String) : Nat → Nat → String
  | 0, index => base ++ "_" ++ toString index ++ ending
  | fuel + 1, index =>
    let candidate := base ++ "_" ++ toString index ++ ending
    if used.contains candidate then numberedFileName used base ending fuel (index + 1)
    else candidate

/-- A file name that is not in use. -/
def freshFileName (used : List String) (base ending : String) : String :=
  if used.contains (base ++ ending) then numberedFileName used base ending used.length 2
  else base ++ ending

/-- The name of a file in the asset directory. -/
def outputName (registry : AssetRegistry) (path : FileSystem.Path) (hint : String) :
    String × AssetRegistry :=
  match registry.fileNames.get? path with
  | some name => (name, registry)
  | none =>
    let (base, ending) :=
      if registry.settings.rename then registry.canonicalName path hint else ownName path
    let name := freshFileName registry.usedNames (String.ofList base) (String.ofList ending)
    (name, { registry with
      usedNames := name :: registry.usedNames
      fileNames := registry.fileNames.insert path name })

/-- The expression that refers to a relative path: an identifier of the catalog, else the path. -/
def reference (registry : AssetRegistry) (relativePath : String) : Dart.Expr × AssetRegistry :=
  match registry.catalog with
  | some catalog =>
    let (name, catalog) := catalog.resolve relativePath
    (.ident ("AppAssets." ++ name), { registry with catalog := some catalog })
  | none => (.str relativePath, registry)

/-- Resolve a reference in the markup: name its file, register it and refer to it. -/
def resolve (registry : AssetRegistry) (fs : FileSystem) (source : String) (hint : Option String) :
    Option LocalAsset × AssetRegistry :=
  match registry.localPath? fs source with
  | none => (none, registry)
  | some path =>
    let (name, registry) := registry.outputName path (hint.getD "")
    let directory := registry.settings.assetDirectory
    let relativePath := if directory == "" then name else directory ++ "/" ++ name
    let (reference, registry) := registry.reference relativePath
    (some {
      relativePath := relativePath
      isVector := endsWith ".svg".toList (lowerAscii name.toList)
      reference := reference },
      { registry with registrations := registry.registrations.insert path relativePath })

/-- The registered files with their relative paths, in the order of their places. -/
def registered (registry : AssetRegistry) : List (FileSystem.Path × String) :=
  registry.registrations.entries.mergeSort fun a b => a.1.le b.1

/-- Copy one registered file below the project root; a failure changes nothing that counts. -/
def copyOne (registry : AssetRegistry) (state : FileSystem × Nat)
    (registration : FileSystem.Path × String) : FileSystem × Nat :=
  match state.1.copy registration.1 (joinPath registry.settings.projectRoot registration.2) with
  | (fs, .ok _) => (fs, state.2 + 1)
  | (fs, .error _) => (fs, state.2)

/-- Copy the registered files below the project root, one after another, and count those that were
    copied. -/
def copyAssets (registry : AssetRegistry) (fs : FileSystem) : FileSystem × Nat :=
  if registry.settings.copy then registry.registered.foldl registry.copyOne (fs, 0) else (fs, 0)

/-- Write the pending entries of the catalog; without a catalog there are none. -/
def flushCatalog (registry : AssetRegistry) (fs : FileSystem) :
    Except FileSystem.Failure Nat × AssetRegistry × FileSystem :=
  match registry.catalog with
  | none => (.ok 0, registry, fs)
  | some catalog =>
    let (written, catalog, fs) := catalog.flush fs registry.settings.catalogFile
    (written, { registry with catalog := some catalog }, fs)

end AssetRegistry

end DesignCompiler.Asset
