import Userscript.Action
import Userscript.Build
import Userscript.Bundle.Assembly
import Userscript.Bundle.Size
import Userscript.ChangeCache
import Userscript.Checker
import Userscript.CommandLine.Arguments
import Userscript.CommandLine.Command
import Userscript.CommandLine.Report
import Userscript.CommandLine.Screen
import Userscript.Failure
import Userscript.Header.Block
import Userscript.Header.Source
import Userscript.Host
import Userscript.Json.Basic
import Userscript.Json.Conversion
import Userscript.Json.Given
import Userscript.Json.Printer
import Userscript.Json.Reader
import Userscript.Limit
import Userscript.Log
import Userscript.Main
import Userscript.Module.Discovery
import Userscript.Module.Location
import Userscript.Module.Manifest
import Userscript.Module.Order
import Userscript.Module.Rule
import Userscript.Number.Binary64
import Userscript.Number.Decimal
import Userscript.Path
import Userscript.Proofs.Build.Assembling
import Userscript.Proofs.Build.CacheFile
import Userscript.Proofs.Build.Conservation
import Userscript.Proofs.Build.Failing
import Userscript.Proofs.Build.Feedback
import Userscript.Proofs.Build.Gate
import Userscript.Proofs.Build.History
import Userscript.Proofs.Build.Leftovers
import Userscript.Proofs.Build.Lockstep
import Userscript.Proofs.Build.Products
import Userscript.Proofs.Build.Rebuilding
import Userscript.Proofs.Build.Stages
import Userscript.Proofs.Build.Steps
import Userscript.Proofs.Build.ToolFaults
import Userscript.Proofs.Build.Written
import Userscript.Proofs.Bundle.Merging
import Userscript.Proofs.Bundle.Optimizing
import Userscript.Proofs.Bundle.Sections
import Userscript.Proofs.ChangeCache.Loading
import Userscript.Proofs.ChangeCache.Noting
import Userscript.Proofs.ChangeCache.Persistence
import Userscript.Proofs.ChangeCache.Refreshing
import Userscript.Proofs.ChangeCache.Saving
import Userscript.Proofs.Header.BlockComments
import Userscript.Proofs.Header.LineStyle
import Userscript.Proofs.Header.Stripping
import Userscript.Proofs.Json.Nesting
import Userscript.Proofs.Json.Numbers
import Userscript.Proofs.Json.RoundTrip
import Userscript.Proofs.Json.Strings
import Userscript.Proofs.Lockstep
import Userscript.Proofs.Module.Alike
import Userscript.Proofs.Module.Listing
import Userscript.Proofs.Module.Manifests
import Userscript.Proofs.Module.Ordering
import Userscript.Proofs.Module.Placement
import Userscript.Proofs.Module.Preorder
import Userscript.Proofs.Module.Reporting
import Userscript.Proofs.Module.Unique
import Userscript.Proofs.Module.Walk
import Userscript.Proofs.Module.Watching
import Userscript.Proofs.Number.Decimals
import Userscript.Proofs.Number.Rounding
import Userscript.Proofs.Path.Names
import Userscript.Proofs.Path.Texts
import Userscript.Proofs.Reading
import Userscript.Proofs.Review.Metadata
import Userscript.Proofs.Review.Modules
import Userscript.Proofs.Scope
import Userscript.Proofs.Script.Agreement
import Userscript.Proofs.Script.Automaton
import Userscript.Proofs.Script.BlankLines
import Userscript.Proofs.Script.Lexing
import Userscript.Proofs.Script.LineSpacing
import Userscript.Proofs.Script.LiteralLines
import Userscript.Proofs.Script.Marks
import Userscript.Proofs.Script.Normalizing
import Userscript.Proofs.Script.OpenedLiterals
import Userscript.Proofs.Script.OptimizedLiterals
import Userscript.Proofs.Script.Optimizing
import Userscript.Proofs.Script.RegularLines
import Userscript.Proofs.Script.Respacing
import Userscript.Proofs.Script.SpacedLines
import Userscript.Proofs.Script.StrayMarks
import Userscript.Proofs.Script.Stripping
import Userscript.Proofs.Table
import Userscript.Proofs.Text.Digits
import Userscript.Proofs.Text.Forms
import Userscript.Proofs.Text.Remnants
import Userscript.Proofs.Text.Utf8
import Userscript.Proofs.Text.Words
import Userscript.Proofs.Tool.Breaking
import Userscript.Proofs.Tool.Renaming
import Userscript.Proofs.Tree.Alike
import Userscript.Proofs.Tree.Faces
import Userscript.Proofs.Tree.Keeping
import Userscript.Proofs.Tree.Names
import Userscript.Proofs.Tree.Relocated
import Userscript.Proofs.Tree.Writable
import Userscript.Proofs.Tree.Writes
import Userscript.Review
import Userscript.Script.Comments
import Userscript.Script.Indent
import Userscript.Script.Literal
import Userscript.Script.Optimize
import Userscript.Script.Spacing
import Userscript.Script.Token
import Userscript.Settings.Basic
import Userscript.Settings.Given
import Userscript.Settings.Loading
import Userscript.Table
import Userscript.Text.Blank
import Userscript.Text.Digit
import Userscript.Text.Form
import Userscript.Text.Lines
import Userscript.Text.Printable
import Userscript.Text.Quoted
import Userscript.Text.Search
import Userscript.Text.Utf8
import Userscript.Text.Wide
import Userscript.Tool.Eslint
import Userscript.Tool.Minify
import Userscript.Tool.Program
import Userscript.Tool.Terser
import Userscript.Tree
import Userscript.Tree.Reading
import Userscript.Verdict
import Userscript.Warning
import Userscript.Watch
import Userscript.WatchFilter
