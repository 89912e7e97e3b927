import DesignCompiler.Page.Source
import DesignCompiler.Page.Shell
import DesignCompiler.Markup.Document
import DesignCompiler.Synthesis.Scene

/-!
# Compilation

One run reads the markup and the stylesheet of a component, synthesizes and assembles its document,
and then copies the assets it refers to and writes new entries to the asset catalog. What the run
does to the files is part of its answer.
-/

namespace DesignCompiler

open Markup Asset Synthesis

/-- Why a compilation fails. -/
inductive CompileError where
  | missingSource (path : String) (failure : FileSystem.Failure)
  | markup (error : Markup.Error)
  | catalog (path : String) (failure : FileSystem.Failure)

/-- The sentence that reports faulty markup. -/
def CompileError.markupMessage (error : Markup.Error) : String :=
  "invalid markup: " ++ error.message

/-- What is compiled: the paths of the markup and the stylesheet, and the name of the component. -/
structure Component where
  markupPath : String
  markupDirectory : String
  stylePath : String
  name : String

/-- The result of a compilation: the document, the name of the component and the relative paths of
    the assets it refers to. -/
structure CompileOutput where
  source : String
  componentName : String
  assets : List String

/-- The text of a source file. -/
def readSource (fs : FileSystem) (path : String) : Except CompileError String :=
  (fs.readText path).mapError (CompileError.missingSource path)

/-- What a component consists of once it is read: its style table and its markup. -/
def readComponent (fs : FileSystem) (preprocessor : Option Preprocessor) (component : Component) :
    Except CompileError (StyleTable × Document) := do
  let markup ← readSource fs component.markupPath
  let style ← readSource fs component.stylePath
  let document ← (parse markup).mapError CompileError.markup
  return (StyleTable.compile style preprocessor, document)

/-- The document of a component that was read, and the assets it refers to. -/
def generate (scene : Scene) (component : Component) (document : Document) :
    String × AssetRegistry :=
  let assets := AssetRegistry.start scene.files scene.options component.markupDirectory
  let hinted := assets.collectHints scene.files document.root
  let (root, assets) := scene.synthesize document.root hinted
  let rootStyle := match document.root.head? with
    | some element => scene.resolve element
    | none => {}
  let widget := Page.wrapRoot root.widget rootStyle scene.options.mode
  (Page.render component.name widget scene.options.packageName, assets)

/-- Compile a component: the result, and the files after the run. -/
def compile (options : CompileOptions) (preprocessor : Option Preprocessor) (fs : FileSystem)
    (component : Component) : Except CompileError CompileOutput × FileSystem :=
  match readComponent fs preprocessor component with
  | .error error => (.error error, fs)
  | .ok (styles, document) =>
    let (source, assets) := generate ⟨styles, options, fs⟩ component document
    let (fs, _) := assets.copyAssets fs
    match assets.flushCatalog fs with
    | (.error failure, _, fs) => (.error (.catalog options.catalogFile failure), fs)
    | (.ok _, assets, fs) =>
      (.ok ⟨source, component.name, assets.registered.map Prod.snd⟩, fs)

end DesignCompiler
