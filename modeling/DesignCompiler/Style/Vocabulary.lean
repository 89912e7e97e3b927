import DesignCompiler.Dictionary
import DesignCompiler.Text.Lowercase
import DesignCompiler.Text.Search

/-!
# Vocabulary

How the words of a design map onto the theme of the target app: color tokens onto palette
expressions, font families onto the families of the app.
-/

namespace DesignCompiler

/-- Color tokens, and font families in lower case. A family mapped to nothing leaves the platform's
    default font. -/
structure Vocabulary where
  colorTokens : Dictionary String String
  fontFamilies : Dictionary String (Option String)

namespace Vocabulary

/-- The palette expression of a color token. -/
def colorToken? (vocabulary : Vocabulary) (token : String) : Option String :=
  vocabulary.colorTokens.get? token

/-- Register a color token, its ASCII capitals in lower case. -/
def withColorToken (vocabulary : Vocabulary) (token expression : String) : Vocabulary :=
  { vocabulary with
    colorTokens := vocabulary.colorTokens.insert (Text.onChars Text.lowerAscii token) expression }

/-- Register a font family, in lower case. -/
def withFontFamily (vocabulary : Vocabulary) (family : String) (mapped : Option String) :
    Vocabulary :=
  { vocabulary with
    fontFamilies := vocabulary.fontFamilies.insert (Text.onChars Text.lower family) mapped }

/-- The vocabulary of the default theme. -/
def standard : Vocabulary where
  colorTokens := .ofList [
    ("primary", "AppColors.primary"),
    ("buttondarkbtndarkcolor", "AppColors.white"),
    ("text2", "AppColors.colorB8BCC6"),
    ("tabdisabletext", "AppColors.colorB7B7B7"),
    ("neutrals200", "AppColors.colorEAECF0"),
    ("titletext", "AppColors.color667394"),
    ("bg", "AppColors.background")]
  fontFamilies := .ofList [
    ("zen maru gothic", some "ZenMaruGothic"),
    ("noto sans jp", some "ZenMaruGothic"),
    ("sf pro text", none),
    ("inter", none)]

end Vocabulary

end DesignCompiler
