import DesignCompiler.Text.Blank
import DesignCompiler.Text.Class
import DesignCompiler.Text.Lowercase
import DesignCompiler.Text.Search

/-!
# Names of assets

A token is made of lower-case letters, digits and single underscores between them. A semantic token
says what an asset depicts: the kind in front and the numbers at the end are stripped, and tokens
that say nothing are generic.
-/

namespace DesignCompiler.Asset

open Text

/-- A character that may stand in a token beside the underscore. -/
def isTokenChar (c : Char) : Bool := ('a' ≤ c && c ≤ 'z') || isAsciiDigit c

/-- The text with each run of other characters replaced by one underscore; `inRun` says whether the
    text continues such a run. -/
def underscored (inRun : Bool) : List Char → List Char
  | [] => []
  | c :: rest =>
    if isTokenChar c then c :: underscored false rest
    else if inRun then underscored true rest else '_' :: underscored true rest

/-- The text without underscores at either end. -/
def dropUnderscores (text : List Char) : List Char := dropEnds (· == '_') text

/-- A text as a token. -/
def sanitize (text : List Char) : List Char :=
  dropUnderscores (underscored false (lower (trim text)))

/-- The kinds that a token may begin with. -/
def kinds : List String := ["icon", "image", "img", "ic"]

/-- A token without the kind it begins with and the underscores after that. -/
def dropKind (token : List Char) : List Char :=
  match kinds.findSome? fun kind => dropStart? (kind.toList ++ ['_']) token with
  | some rest => rest.dropWhile (· == '_')
  | none => token

/-- Whether a text consists of runs of digits, each after one underscore at most. -/
def isNumbers : List Char → Bool
  | [] => false
  | [c] => isAsciiDigit c
  | c :: d :: rest =>
    (isAsciiDigit c || (c == '_' && isAsciiDigit d)) && isNumbers (d :: rest)

/-- A token without the longest run of numbers at its end. -/
def dropNumbers : List Char → List Char
  | [] => []
  | c :: rest => if isNumbers (c :: rest) then [] else c :: dropNumbers rest

/-- A text as a semantic token. What stripping would leave empty is stripped less. -/
def normalize (text : List Char) : List Char :=
  let base := sanitize text
  let named := dropKind base
  let bare := dropUnderscores (dropNumbers named)
  if !bare.isEmpty then bare else if !named.isEmpty then named else base

/-- Tokens that say nothing about what an asset depicts. -/
def genericTokens : List String := [
  "asset", "auto", "div", "ellipse", "frame", "group", "icon", "image", "img", "line", "path",
  "rect", "shape", "svg", "vector", "wrapper"]

/-- Words that with a number are placeholders. -/
def placeholderWords : List String := [
  "frame", "group", "rect", "ellipse", "vector", "path", "shape", "line", "icon", "img", "image"]

/-- Whether a token is a placeholder such as `frame12`. -/
def isPlaceholder (token : List Char) : Bool :=
  placeholderWords.any fun word => (dropStart? word.toList token).any (·.all isAsciiDigit)

/-- Whether a token looks like an identifier made by a machine: long parts and a digit among
    them. -/
def isHashed (token : List Char) : Bool :=
  match splitOn (· == '_') token with
  | first :: second :: rest =>
    6 ≤ first.length && (second :: rest).all (5 ≤ ·.length) &&
      (first :: second :: rest).all (·.all isTokenChar) && token.any isAsciiDigit
  | _ => false

/-- Whether a token is too generic to name an asset. -/
def isGeneric (token : List Char) : Bool :=
  let name := normalize token
  name.isEmpty || genericTokens.contains (String.ofList name) || isPlaceholder name ||
    isHashed name || name.all isAsciiDigit

/-- The semantic token of a class, unless it is generic. -/
def tokenOfClass? (className : String) : Option String :=
  let token := normalize className.toList
  if isGeneric token then none else some (String.ofList token)

/-- Whether a token names an asset better than the current one: any is better than none, then one
    that is not generic, then the shorter, then the smaller. -/
def isBetter (next current : String) : Bool :=
  if current == "" then true
  else
    let currentGeneric := isGeneric current.toList
    let nextGeneric := isGeneric next.toList
    if currentGeneric != nextGeneric then !nextGeneric
    else if next.utf8ByteSize != current.utf8ByteSize then next.utf8ByteSize < current.utf8ByteSize
    else next < current

/-- A word with its first letter as a capital. -/
def capitalize : List Char → List Char
  | [] => []
  | c :: rest => c.toUpper :: rest

/-- The words of a text as a token, capitalized and joined. -/
def pascal (text : List Char) : List Char :=
  (splitOn (· == '_') (sanitize text)).flatMap capitalize

/-- The text with slashes for backslashes. -/
def forwardSlashes (text : List Char) : List Char := replaceChar '\\' ['/'] text

/-- The tokens of an asset path between slashes, dots, underscores and hyphens, the leading
    `assets/` left out. -/
def pathTokens (path : List Char) : List (List Char) :=
  let normal := forwardSlashes path
  let inside := (dropStart? "assets/".toList normal).getD normal
  ((splitOn (['/', '.', '_', '-'].contains ·) inside).map sanitize).filter (!·.isEmpty)

/-- The identifier of an asset path in camel case, beginning with a letter. -/
def constantName (path : String) : String :=
  match pathTokens path.toList with
  | [] => "assetGenerated"
  | first :: rest =>
    let start := if first.head?.any fun c => 'a' ≤ c && c ≤ 'z' then first
      else "asset".toList ++ pascal first
    String.ofList (start ++ rest.flatMap pascal)

end DesignCompiler.Asset
