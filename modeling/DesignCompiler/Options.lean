import DesignCompiler.FileSystem.Path
import DesignCompiler.Geometry
import DesignCompiler.Text.Blank
import DesignCompiler.Style.Vocabulary

/-!
# Options

Everything that steers one compilation, with its defaults and the environment variables that
override them.
-/

namespace DesignCompiler

open Text

/-- How the root widget is wrapped: not at all, in a scaffold, or in a box that fits the width. -/
inductive GenerationMode where
  | raw
  | scaffold
  | fit
  deriving DecidableEq

/-- The mode with a name, in any letter case. -/
def GenerationMode.ofName? (name : String) : Option GenerationMode :=
  match String.ofList (lowerAscii (trim name.toList)) with
  | "raw" | "classic" => some .raw
  | "scaffold" => some .scaffold
  | "fit" => some .fit
  | _ => none

/-- The name of a mode. -/
def GenerationMode.name : GenerationMode → String
  | .raw => "Raw"
  | .scaffold => "Scaffold"
  | .fit => "Fit"

/-- The largest extent of an icon, and the largest height that is not taken for an artifact of the
    design canvas. -/
structure Thresholds where
  iconMaxExtent : Float := 128.0
  maxPlausibleHeight : Float := 1200.0

/-- Whether all known dimensions are those of an icon. -/
def Thresholds.isIconSized (t : Thresholds) (size : Size) : Bool := size.fitsWithin t.iconMaxExtent

/-- The size without an implausible height, unless it is that of an icon. -/
def Thresholds.normalize (t : Thresholds) (size : Size) : Size :=
  if t.isIconSized size then size
  else if size.height.any (· > t.maxPlausibleHeight) then size.withoutHeight
  else size

/-- The icons of images without a usable source: by class, else by a keyword in the class. -/
structure ClassIcons where
  exact : Dictionary String String
  keywords : List (String × String)

namespace ClassIcons

/-- No icons. -/
def empty : ClassIcons := ⟨.empty, []⟩

/-- The icon of a class: its own, else that of the first keyword in its lower-case form. -/
def lookup? (icons : ClassIcons) (className : String) : Option String :=
  let lowered := lower className.toList
  icons.exact.get? className <|>
    (icons.keywords.find? fun entry => occursIn entry.1.toList lowered).map Prod.snd

/-- Give a class an icon of its own. -/
def withExact (icons : ClassIcons) (className asset : String) : ClassIcons :=
  { icons with exact := icons.exact.insert className asset }

/-- The icons of the default catalog. -/
def standard : ClassIcons where
  exact := .empty
  keywords := [
    ("calendar", "AppAssets.iconsCalendarSvg"),
    ("search", "AppAssets.iconsSearchSvg"),
    ("user", "AppAssets.iconsUserSvg"),
    ("key", "AppAssets.iconsUserKeySvg"),
    ("family", "AppAssets.iconsFamilySvg"),
    ("phone", "AppAssets.iconsPhoneSvg"),
    ("location", "AppAssets.iconsLocationSvg"),
    ("battery", "AppAssets.iconsBatterySvg"),
    ("solar", "AppAssets.iconsSolarSvg"),
    ("water", "AppAssets.iconsWaterSystemSvg"),
    ("home", "AppAssets.iconsHomeSvg"),
    ("notification", "AppAssets.iconsNotificationSvg"),
    ("percent", "AppAssets.iconsPercentSvg"),
    ("plus", "AppAssets.iconsPlusSvg")]

end ClassIcons

/-- The options of a compilation. Assets are renamed by default when their names have a common
    first part, `assetLabel`. Relative paths of the project start at `projectRoot`. -/
structure CompileOptions where
  mode : GenerationMode := .fit
  assetLabel : String := ""
  assetDirectory : String := "assets/figma"
  copyAssets : Bool := true
  renameAssets : Option Bool := none
  overflowBox : Bool := false
  projectRoot : String := "."
  catalogPath : String := "lib/src/utils/app_assets.dart"
  packageName : String := "app"
  thresholds : Thresholds := {}
  vocabulary : Vocabulary := .standard
  classIcons : ClassIcons := .standard

namespace CompileOptions

/-- The path of the asset catalog. -/
def catalogFile (options : CompileOptions) : String :=
  FileSystem.joinPath options.projectRoot options.catalogPath

/-- The defaults, overridden by the environment variables that are set and can be read. -/
def ofEnvironment (lookup : String → Option String) : CompileOptions :=
  let trimmed (name : String) : Option (List Char) := (lookup name).map fun v => trim v.toList
  let notBlank (name : String) : Option String :=
    (lookup name).filter fun v => !allBlank v.toList
  let defaults : CompileOptions := {}
  { defaults with
    mode := ((lookup "JSX2FLUTTER_MODE").bind GenerationMode.ofName?).getD defaults.mode
    assetLabel := (lookup "JSX2FLUTTER_ASSET_PREFIX").getD defaults.assetLabel
    assetDirectory := (notBlank "JSX2FLUTTER_ASSET_DIR").getD defaults.assetDirectory
    copyAssets := ((trimmed "JSX2FLUTTER_COPY_ASSETS").map (· != ['0'])).getD defaults.copyAssets
    renameAssets := (trimmed "JSX2FLUTTER_RENAME_ASSETS").map (· != ['0'])
    overflowBox :=
      ((trimmed "JSX2FLUTTER_ENABLE_OVERFLOW").map (· == ['1'])).getD defaults.overflowBox
    packageName := (notBlank "JSX2FLUTTER_PACKAGE").getD defaults.packageName }

end CompileOptions

end DesignCompiler
