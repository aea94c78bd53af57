import SsisCompiler.CSharp.Identifier
import SsisCompiler.CSharp.Line
import SsisCompiler.CSharp.Method
import SsisCompiler.CSharp.ValueType
import SsisCompiler.CSharp.Variable
import SsisCompiler.Command.Arguments
import SsisCompiler.Command.Run
import SsisCompiler.Compile.Connection
import SsisCompiler.Compile.Executable
import SsisCompiler.Compile.Fragment
import SsisCompiler.Compile.Method
import SsisCompiler.Compile.Names
import SsisCompiler.Compile.Options
import SsisCompiler.Compile.Program
import SsisCompiler.Compile.Session
import SsisCompiler.Compile.Setting
import SsisCompiler.Compile.Task.Basic
import SsisCompiler.Compile.Task.Mail
import SsisCompiler.Compile.Task.Markers
import SsisCompiler.Compile.Task.Script
import SsisCompiler.Compile.Task.Sql
import SsisCompiler.Compile.Variable
import SsisCompiler.Expression.Cause
import SsisCompiler.Expression.Code
import SsisCompiler.Expression.Function
import SsisCompiler.Expression.Lexer
import SsisCompiler.Expression.Token
import SsisCompiler.Files.Disk
import SsisCompiler.Files.Folder
import SsisCompiler.Files.Path
import SsisCompiler.Files.Store
import SsisCompiler.Generate
import SsisCompiler.Json
import SsisCompiler.Main
import SsisCompiler.Markup.CharacterData
import SsisCompiler.Markup.Cursor
import SsisCompiler.Markup.Document
import SsisCompiler.Markup.Name
import SsisCompiler.Markup.Token
import SsisCompiler.Package.Dump
import SsisCompiler.Package.Fields
import SsisCompiler.Package.Layout
import SsisCompiler.Package.Reading
import SsisCompiler.Package.Tree
import SsisCompiler.Proofs.CSharp.InitialValues
import SsisCompiler.Proofs.CSharp.Placeholders
import SsisCompiler.Proofs.CSharp.Spellings
import SsisCompiler.Proofs.CSharp.Unmarked
import SsisCompiler.Proofs.Command.DefaultFolder
import SsisCompiler.Proofs.Compile.Calls
import SsisCompiler.Proofs.Compile.ConnectionStrings
import SsisCompiler.Proofs.Compile.Container
import SsisCompiler.Proofs.Compile.Coverage
import SsisCompiler.Proofs.Compile.Identifiers
import SsisCompiler.Proofs.Compile.Listing
import SsisCompiler.Proofs.Compile.Locals
import SsisCompiler.Proofs.Compile.Markers
import SsisCompiler.Proofs.Compile.Members
import SsisCompiler.Proofs.Compile.MethodGaps
import SsisCompiler.Proofs.Compile.Methods
import SsisCompiler.Proofs.Compile.OptionEffects
import SsisCompiler.Proofs.Compile.References
import SsisCompiler.Proofs.Compile.RunTimeText
import SsisCompiler.Proofs.Compile.ScriptClass
import SsisCompiler.Proofs.Compile.Scripts
import SsisCompiler.Proofs.Compile.SourceText
import SsisCompiler.Proofs.Compile.SqlContexts
import SsisCompiler.Proofs.Compile.TaskGaps
import SsisCompiler.Proofs.Compile.Unmarked
import SsisCompiler.Proofs.Expression.Composition
import SsisCompiler.Proofs.Expression.DateParts
import SsisCompiler.Proofs.Expression.Forms
import SsisCompiler.Proofs.Expression.Grammar
import SsisCompiler.Proofs.Expression.Literals
import SsisCompiler.Proofs.Expression.Nesting
import SsisCompiler.Proofs.Expression.Signs
import SsisCompiler.Proofs.Expression.Surroundings
import SsisCompiler.Proofs.Expression.Tokens
import SsisCompiler.Proofs.Expression.Unmarked
import SsisCompiler.Proofs.Files.Changes
import SsisCompiler.Proofs.Files.Contents
import SsisCompiler.Proofs.Files.Extensions
import SsisCompiler.Proofs.Files.PathEnds
import SsisCompiler.Proofs.Files.ReadBack
import SsisCompiler.Proofs.Files.Resolution
import SsisCompiler.Proofs.Generate.Confinement
import SsisCompiler.Proofs.Generate.ScriptFiles
import SsisCompiler.Proofs.Markup.Places
import SsisCompiler.Proofs.Names.First
import SsisCompiler.Proofs.Names.Fresh
import SsisCompiler.Proofs.Names.Registry
import SsisCompiler.Proofs.Names.Search
import SsisCompiler.Proofs.Package.Addresses
import SsisCompiler.Proofs.Package.DocumentOrder
import SsisCompiler.Proofs.Package.Dump
import SsisCompiler.Proofs.Package.Growth
import SsisCompiler.Proofs.Package.Markers
import SsisCompiler.Proofs.Package.Mirror
import SsisCompiler.Proofs.Package.Precedence
import SsisCompiler.Proofs.Package.Selection
import SsisCompiler.Proofs.Package.Subtree
import SsisCompiler.Proofs.Package.Warnings
import SsisCompiler.Proofs.Text.Integers
import SsisCompiler.Proofs.Text.Pieces
import SsisCompiler.Sha256
import SsisCompiler.Template
import SsisCompiler.Text.Alphanumeric
import SsisCompiler.Text.Basic
import SsisCompiler.Text.Decimal
import SsisCompiler.Text.Quoted
