import SwaggerClient.Api.Basic
import SwaggerClient.Api.Names
import SwaggerClient.Api.OfDocument
import SwaggerClient.Client.Endpoint
import SwaggerClient.Client.Module
import SwaggerClient.Client.Options
import SwaggerClient.Code.Buffer
import SwaggerClient.Code.Declaration
import SwaggerClient.Code.Fragment
import SwaggerClient.Code.Module
import SwaggerClient.Code.ObjectLiteral
import SwaggerClient.CommandLine.Arguments
import SwaggerClient.CommandLine.Request
import SwaggerClient.CommandLine.Run
import SwaggerClient.Compilation
import SwaggerClient.Decimal.Binary64
import SwaggerClient.Decimal.Shortest
import SwaggerClient.Diagnostic
import SwaggerClient.Dictionary
import SwaggerClient.Document.Basic
import SwaggerClient.Document.Decode
import SwaggerClient.Document.Source
import SwaggerClient.FileTree.Basic
import SwaggerClient.FileTree.Path
import SwaggerClient.HttpMethod
import SwaggerClient.Json.Basic
import SwaggerClient.Json.Decode
import SwaggerClient.Json.Fault
import SwaggerClient.Json.Number
import SwaggerClient.Json.Position
import SwaggerClient.Json.Reader
import SwaggerClient.Json.Tree
import SwaggerClient.Lint.Basic
import SwaggerClient.Lint.DuplicateFunction
import SwaggerClient.Lint.SeveralBodies
import SwaggerClient.Lint.UndefinedReference
import SwaggerClient.Main
import SwaggerClient.Name.Identifier
import SwaggerClient.Proofs.Api.Capture
import SwaggerClient.Proofs.Api.Consulted
import SwaggerClient.Proofs.Api.Groups
import SwaggerClient.Proofs.Api.Guarded
import SwaggerClient.Proofs.Api.Identifiers
import SwaggerClient.Proofs.Api.Independence
import SwaggerClient.Proofs.Api.Locality
import SwaggerClient.Proofs.Api.Lowered
import SwaggerClient.Proofs.Api.Meaning
import SwaggerClient.Proofs.Api.Named
import SwaggerClient.Proofs.Api.Names
import SwaggerClient.Proofs.Api.Readable
import SwaggerClient.Proofs.Api.References
import SwaggerClient.Proofs.Api.Renaming
import SwaggerClient.Proofs.Api.Requirement
import SwaggerClient.Proofs.Client.Aliases
import SwaggerClient.Proofs.Client.Layout
import SwaggerClient.Proofs.Client.PathParameters
import SwaggerClient.Proofs.Client.RequestUrl
import SwaggerClient.Proofs.Client.Scope
import SwaggerClient.Proofs.Client.SelfContained
import SwaggerClient.Proofs.Client.SharedNames
import SwaggerClient.Proofs.Client.Signature
import SwaggerClient.Proofs.Client.StringLiteral
import SwaggerClient.Proofs.Client.TemplateLiteral
import SwaggerClient.Proofs.Client.TypeNames
import SwaggerClient.Proofs.Code.DocComment
import SwaggerClient.Proofs.Code.Fragment
import SwaggerClient.Proofs.Code.Indentation
import SwaggerClient.Proofs.Compilation
import SwaggerClient.Proofs.Compilation.Log
import SwaggerClient.Proofs.Decimal.Shortest
import SwaggerClient.Proofs.Dictionary
import SwaggerClient.Proofs.Document.PathItem
import SwaggerClient.Proofs.Document.Position
import SwaggerClient.Proofs.FileTree.Location
import SwaggerClient.Proofs.FileTree.Writing
import SwaggerClient.Proofs.Json.Number
import SwaggerClient.Proofs.Json.Unplaced
import SwaggerClient.Proofs.Json.Yields
import SwaggerClient.Proofs.Lint.DuplicateFunction
import SwaggerClient.Proofs.Lint.UndefinedReference
import SwaggerClient.Proofs.Name.Binding
import SwaggerClient.Proofs.Name.Identifier
import SwaggerClient.Proofs.Report.Agreement
import SwaggerClient.Proofs.Report.Alignment
import SwaggerClient.Proofs.Report.Grouping
import SwaggerClient.Proofs.Report.Written
import SwaggerClient.Proofs.Schema.Bare
import SwaggerClient.Proofs.Schema.Consulted
import SwaggerClient.Proofs.Schema.Declarations
import SwaggerClient.Proofs.Schema.Discipline
import SwaggerClient.Proofs.Schema.Distinct
import SwaggerClient.Proofs.Schema.Expansion
import SwaggerClient.Proofs.Schema.Form
import SwaggerClient.Proofs.Schema.Lowering
import SwaggerClient.Proofs.Schema.Normal
import SwaggerClient.Proofs.Schema.Observation
import SwaggerClient.Proofs.Schema.Recursion
import SwaggerClient.Proofs.Schema.Stability
import SwaggerClient.Proofs.Schema.Transparency
import SwaggerClient.Proofs.Schema.TypeNames
import SwaggerClient.Proofs.Text.Comment
import SwaggerClient.Proofs.Text.Lines
import SwaggerClient.Proofs.Text.Reading
import SwaggerClient.Proofs.Text.Split
import SwaggerClient.Proofs.Text.Uppercase
import SwaggerClient.Proofs.TypeExpr.Basic
import SwaggerClient.Proofs.TypeExpr.Normal
import SwaggerClient.Proofs.TypeExpr.Operand
import SwaggerClient.Proofs.TypeExpr.Proper
import SwaggerClient.Proofs.TypeExpr.Reader
import SwaggerClient.Proofs.TypeExpr.RoundTrip
import SwaggerClient.Proofs.TypeExpr.Text
import SwaggerClient.Proofs.TypeExpr.Token
import SwaggerClient.Proofs.UrlTemplate
import SwaggerClient.Report.Check
import SwaggerClient.Report.Generation
import SwaggerClient.Report.Listing
import SwaggerClient.Report.Output
import SwaggerClient.Schema.Basic
import SwaggerClient.Schema.Decode
import SwaggerClient.Schema.Kind
import SwaggerClient.Schema.Lowering
import SwaggerClient.Schema.Text
import SwaggerClient.Settings
import SwaggerClient.Text.Case
import SwaggerClient.Text.Comment
import SwaggerClient.Text.Escaped
import SwaggerClient.Text.Quoted
import SwaggerClient.Text.Split
import SwaggerClient.Text.Uppercase
import SwaggerClient.Toml.Quoted
import SwaggerClient.Toml.Reader
import SwaggerClient.Toml.Scalar
import SwaggerClient.Toml.Value
import SwaggerClient.TypeExpr.Basic
import SwaggerClient.TypeExpr.Render
import SwaggerClient.UrlTemplate
