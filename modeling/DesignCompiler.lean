import DesignCompiler.Compiler
import DesignCompiler.Markup.Dom
import DesignCompiler.Proofs.Asset.Confinement
import DesignCompiler.Proofs.Asset.Naming
import DesignCompiler.Proofs.Compilation.Idempotence
import DesignCompiler.Proofs.Dart.Layout
import DesignCompiler.Proofs.Markup.Script
import DesignCompiler.Proofs.Page.Requirements
import DesignCompiler.Proofs.Stylesheet.Closing
import DesignCompiler.Proofs.Stylesheet.Interpolation
import DesignCompiler.Proofs.Stylesheet.Invariants
import DesignCompiler.Proofs.Stylesheet.LineBreaks
import DesignCompiler.Proofs.Stylesheet.Precedence
import DesignCompiler.Proofs.Stylesheet.Transparency
import DesignCompiler.Proofs.Synthesis.Arrangement
import DesignCompiler.Proofs.Synthesis.RichText
import DesignCompiler.Proofs.Synthesis.ShownText
import DesignCompiler.Proofs.Stylesheet.SelectorKeys
import DesignCompiler.Proofs.Markup.Truncation
import DesignCompiler.Proofs.Markup.Links
import DesignCompiler.Proofs.Markup.StaticString
import DesignCompiler.Proofs.Markup.Forest
import DesignCompiler.Proofs.Control.DateSeed
import DesignCompiler.Proofs.Control.ButtonLabel
import DesignCompiler.Proofs.Style.ColorToken
import DesignCompiler.Proofs.Style.HexNotation
import DesignCompiler.Proofs.Synthesis.IconSize
import DesignCompiler.Proofs.Asset.Delivery
import DesignCompiler.Proofs.Asset.Hints
import DesignCompiler.Proofs.Style.GradientText
import DesignCompiler.Proofs.Page.ComponentName
import DesignCompiler.Proofs.Markup.Braces
import DesignCompiler.Proofs.Markup.Traversal
import DesignCompiler.Proofs.Style.LeadingNumber
import DesignCompiler.Proofs.Asset.SecondKind
