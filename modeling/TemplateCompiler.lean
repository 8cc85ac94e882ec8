import TemplateCompiler.Analysis
import TemplateCompiler.Companion
import TemplateCompiler.Compilation
import TemplateCompiler.Decimal.Binary64
import TemplateCompiler.Decimal.Numeral
import TemplateCompiler.Decimal.Shortest
import TemplateCompiler.Digest.Sha256
import TemplateCompiler.Error
import TemplateCompiler.Json.Reader
import TemplateCompiler.Json.Record
import TemplateCompiler.Json.Value
import TemplateCompiler.Metadata.Basic
import TemplateCompiler.Metadata.Encoding
import TemplateCompiler.Names
import TemplateCompiler.Options
import TemplateCompiler.Path.Basic
import TemplateCompiler.Path.Request
import TemplateCompiler.Registry.Basic
import TemplateCompiler.Registry.Directory
import TemplateCompiler.Registry.Elements
import TemplateCompiler.Render.Assembly
import TemplateCompiler.Render.Import
import TemplateCompiler.Render.Lowering
import TemplateCompiler.Render.Markup
import TemplateCompiler.Render.Module
import TemplateCompiler.Render.Op
import TemplateCompiler.Render.State
import TemplateCompiler.Render.Statement
import TemplateCompiler.Script.Grammar.Definition
import TemplateCompiler.Script.Grammar.Expression
import TemplateCompiler.Script.Grammar.Reader
import TemplateCompiler.Script.Grammar.Statement
import TemplateCompiler.Script.Grammar.Target
import TemplateCompiler.Script.Literal
import TemplateCompiler.Script.Names
import TemplateCompiler.Script.Parser
import TemplateCompiler.Script.Printer
import TemplateCompiler.Script.Token
import TemplateCompiler.Script.Tree
import TemplateCompiler.Session
import TemplateCompiler.Storage
import TemplateCompiler.Template.Constant
import TemplateCompiler.Template.Encoding
import TemplateCompiler.Template.Macro
import TemplateCompiler.Template.Node
import TemplateCompiler.Template.Program
import TemplateCompiler.Template.TagImport
import TemplateCompiler.Template.Walk
import TemplateCompiler.Text.Blank
import TemplateCompiler.Text.Category
import TemplateCompiler.Text.Digits
import TemplateCompiler.Text.Distinct
import TemplateCompiler.Text.Identifier
import TemplateCompiler.Text.Layout
import TemplateCompiler.Text.Markup
import TemplateCompiler.Proofs.Render.Batching
import TemplateCompiler.Proofs.Lowering.Content
import TemplateCompiler.Proofs.Lowering.Folding
import TemplateCompiler.Proofs.Lowering.Expressions
import TemplateCompiler.Proofs.Lowering.Frames
import TemplateCompiler.Proofs.Path.Spelling
import TemplateCompiler.Proofs.Path.Place
import TemplateCompiler.Proofs.Path.Requests
import TemplateCompiler.Proofs.Registry.Entries
import TemplateCompiler.Proofs.Session.Analysis
import TemplateCompiler.Proofs.Session.History
import TemplateCompiler.Proofs.Session.Asking
import TemplateCompiler.Proofs.Session.Loading
import TemplateCompiler.Proofs.Session.Cycles
import TemplateCompiler.Proofs.Lowering.Accounts
import TemplateCompiler.Proofs.Lowering.Macros
import TemplateCompiler.Proofs.Render.Assembly
import TemplateCompiler.Proofs.Session.Output
import TemplateCompiler.Proofs.Session.MacroUses
import TemplateCompiler.Proofs.Template.Order
import TemplateCompiler.Proofs.Session.ComponentClasses
import TemplateCompiler.Proofs.Template.Scopes
import TemplateCompiler.Proofs.Lowering.Effects
import TemplateCompiler.Proofs.Lowering.Modes
import TemplateCompiler.Proofs.Lowering.Texts
import TemplateCompiler.Proofs.Render.Recording
import TemplateCompiler.Proofs.Session.Settings
import TemplateCompiler.Proofs.Session.Texts
import TemplateCompiler.Proofs.Session.Modes
import TemplateCompiler.Proofs.Session.Failure
import TemplateCompiler.Proofs.Lowering.Logic
import TemplateCompiler.Proofs.Render.Identifiers
import TemplateCompiler.Proofs.Render.NameOrder
import TemplateCompiler.Proofs.Session.GeneratedNames
import TemplateCompiler.Proofs.Session.Interleaving
import TemplateCompiler.Proofs.Decimal.Rounding
import TemplateCompiler.Proofs.Decimal.Shortest
import TemplateCompiler.Proofs.Json.Depth
import TemplateCompiler.Proofs.Json.Numbers
import TemplateCompiler.Proofs.Json.Reading
import TemplateCompiler.Proofs.Template.Encoding
import TemplateCompiler.Proofs.Render.MetaLiteral
import TemplateCompiler.Proofs.Render.TagRecords
import TemplateCompiler.Proofs.Session.Views
import TemplateCompiler.Proofs.Session.Requests
import TemplateCompiler.Proofs.Render.NameHistory
import TemplateCompiler.Proofs.Template.Comments
import TemplateCompiler.Proofs.Render.Casing
import TemplateCompiler.Proofs.Lowering.Comments
import TemplateCompiler.Proofs.Session.Comments
import TemplateCompiler.Proofs.Lowering.Checks
import TemplateCompiler.Proofs.Script.DeclaredNames
import TemplateCompiler.Proofs.Session.Readings
import TemplateCompiler.Proofs.Template.Scriptlets
import TemplateCompiler.Proofs.Lowering.Scriptlets
import TemplateCompiler.Proofs.Session.Scriptlets
import TemplateCompiler.Proofs.Template.Constancy
import TemplateCompiler.Proofs.Analysis.Verdicts
import TemplateCompiler.Proofs.Analysis.Flag
import TemplateCompiler.Proofs.Analysis.Owners
import TemplateCompiler.Proofs.Path.WorkingDirectory
import TemplateCompiler.Proofs.Decimal.Arithmetic
import TemplateCompiler.Proofs.Script.Tests
import TemplateCompiler.Proofs.Lowering.Ranges
import TemplateCompiler.Proofs.Render.Attachment
import TemplateCompiler.Proofs.Lowering.Chains
import TemplateCompiler.Proofs.Template.Ownership
import TemplateCompiler.Proofs.Lowering.Inputs
import TemplateCompiler.Proofs.Lowering.DeclaredInputs
import TemplateCompiler.Proofs.Script.Operands
import TemplateCompiler.Proofs.Script.Alongside
import TemplateCompiler.Proofs.Script.Rules
import TemplateCompiler.Proofs.Script.Scanning
import TemplateCompiler.Proofs.Script.Splices
import TemplateCompiler.Proofs.Script.Calls
import TemplateCompiler.Proofs.Render.Operands
import TemplateCompiler.Proofs.Lowering.Outlines
import TemplateCompiler.Proofs.Lowering.Keys
import TemplateCompiler.Proofs.Lowering.MacroScopes
import TemplateCompiler.Proofs.Session.MacroScopes
import TemplateCompiler.Proofs.Decimal.Integers
import TemplateCompiler.Proofs.Lowering.Integers
import TemplateCompiler.Proofs.Text.Layout
import TemplateCompiler.Proofs.Render.Printing
import TemplateCompiler.Proofs.Session.Literals
import TemplateCompiler.Proofs.Render.Nesting
import TemplateCompiler.Proofs.Lowering.Nesting
import TemplateCompiler.Proofs.Lowering.Extension
import TemplateCompiler.Proofs.Text.ByteOrder
import TemplateCompiler.Proofs.Text.LastDot
import TemplateCompiler.Proofs.Companions
import TemplateCompiler.Proofs.Path.Ancestors
import TemplateCompiler.Proofs.Registry.Trees
import TemplateCompiler.Proofs.Registry.Templates
import TemplateCompiler.Proofs.Registry.Nearest
import TemplateCompiler.Proofs.Text.Entities
import TemplateCompiler.Proofs.Render.AttributeMarkup
import TemplateCompiler.Proofs.Text.Distinct
import TemplateCompiler.Proofs.Template.TagImports
import TemplateCompiler.Proofs.Render.Settling
import TemplateCompiler.Proofs.Render.HoistedImports
import TemplateCompiler.Proofs.Template.Places
