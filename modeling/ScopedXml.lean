import ScopedXml.Content.Model
import ScopedXml.Content.Progress
import ScopedXml.Diagnostic
import ScopedXml.Document.Cursor
import ScopedXml.Document.Element
import ScopedXml.File.Location
import ScopedXml.File.Path
import ScopedXml.File.Tree
import ScopedXml.Input
import ScopedXml.Markup.AttributeList
import ScopedXml.Markup.Lexer
import ScopedXml.Markup.Reference
import ScopedXml.Markup.Supply
import ScopedXml.Markup.Token
import ScopedXml.Name
import ScopedXml.Namespace
import ScopedXml.Policy
import ScopedXml.Proofs.Content.Attribution
import ScopedXml.Proofs.Content.Bounds
import ScopedXml.Proofs.Content.Exactness
import ScopedXml.Proofs.Content.Frontier
import ScopedXml.Proofs.Content.InPlace
import ScopedXml.Proofs.Content.Language
import ScopedXml.Proofs.Content.Occurrence
import ScopedXml.Proofs.Content.Reached
import ScopedXml.Proofs.Content.Residual
import ScopedXml.Proofs.Content.Shape
import ScopedXml.Proofs.Content.Shortages
import ScopedXml.Proofs.Content.Splitting
import ScopedXml.Proofs.Content.Steadiness
import ScopedXml.Proofs.Content.Stranding
import ScopedXml.Proofs.Content.Unsettled
import ScopedXml.Proofs.File.Walking
import ScopedXml.Proofs.Markup.Declaring
import ScopedXml.Proofs.Markup.Fills
import ScopedXml.Proofs.Markup.Reference
import ScopedXml.Proofs.Markup.Refilling
import ScopedXml.Proofs.Markup.Refining
import ScopedXml.Proofs.Markup.Running
import ScopedXml.Proofs.Markup.Taking
import ScopedXml.Proofs.Namespace.Malformed
import ScopedXml.Proofs.Namespace.Resolution
import ScopedXml.Proofs.Nodes
import ScopedXml.Proofs.Outcome
import ScopedXml.Proofs.Reader.Accepting
import ScopedXml.Proofs.Reader.Agreement
import ScopedXml.Proofs.Reader.AttributeNames
import ScopedXml.Proofs.Reader.CutOff
import ScopedXml.Proofs.Reader.Delivery
import ScopedXml.Proofs.Reader.Driving
import ScopedXml.Proofs.Reader.Ending
import ScopedXml.Proofs.Reader.Failures
import ScopedXml.Proofs.Reader.InsideTag
import ScopedXml.Proofs.Reader.MalformedNames
import ScopedXml.Proofs.Reader.MarkedInput
import ScopedXml.Proofs.Reader.Nesting
import ScopedXml.Proofs.Reader.Opening
import ScopedXml.Proofs.Reader.ShortReads
import ScopedXml.Proofs.Schema.Caching
import ScopedXml.Proofs.Schema.Contents
import ScopedXml.Proofs.Schema.Cycles
import ScopedXml.Proofs.Schema.Decision
import ScopedXml.Proofs.Schema.Declared
import ScopedXml.Proofs.Schema.Detours
import ScopedXml.Proofs.Schema.Loading
import ScopedXml.Proofs.Schema.Pulling
import ScopedXml.Proofs.Schema.ReadingOrder
import ScopedXml.Proofs.Schema.Restriction
import ScopedXml.Proofs.Schema.Traversal
import ScopedXml.Proofs.Schema.TypeNames
import ScopedXml.Proofs.Schema.Unchecked
import ScopedXml.Proofs.Schema.Validity
import ScopedXml.Proofs.Scope.Answers
import ScopedXml.Proofs.Scope.Buffers
import ScopedXml.Proofs.Scope.Custody
import ScopedXml.Proofs.Scope.Depth
import ScopedXml.Proofs.Scope.Descent
import ScopedXml.Proofs.Scope.Fragments
import ScopedXml.Proofs.Scope.Records
import ScopedXml.Proofs.Scope.Simulation
import ScopedXml.Proofs.Scope.Trace
import ScopedXml.Proofs.Session.Hearing
import ScopedXml.Proofs.Session.History
import ScopedXml.Proofs.Session.Steps
import ScopedXml.Proofs.Text.Decoding
import ScopedXml.Proofs.Text.Labels
import ScopedXml.Proofs.Text.Surrogates
import ScopedXml.Proofs.Text.Utf16
import ScopedXml.Proofs.Text.Utf8
import ScopedXml.Proofs.Value.DateParts
import ScopedXml.Proofs.Value.Dates
import ScopedXml.Proofs.Value.Fields
import ScopedXml.Proofs.Value.Hierarchy
import ScopedXml.Proofs.Value.Numerals
import ScopedXml.Proofs.Value.Times
import ScopedXml.Reader.Drive
import ScopedXml.Reader.Parse
import ScopedXml.Reader.Reading
import ScopedXml.Reader.Transcript
import ScopedXml.Schema.Cache
import ScopedXml.Schema.Compile
import ScopedXml.Schema.Declaration
import ScopedXml.Schema.Fault
import ScopedXml.Schema.Finding
import ScopedXml.Schema.Model
import ScopedXml.Schema.Reference
import ScopedXml.Schema.Source
import ScopedXml.Schema.Validator
import ScopedXml.Scope.Chain
import ScopedXml.Scope.Family
import ScopedXml.Scope.Handler
import ScopedXml.Scope.MediaCatalog
import ScopedXml.Scope.Recording
import ScopedXml.Scope.Scripted
import ScopedXml.Session
import ScopedXml.Text.Charset
import ScopedXml.Text.Iso2022Jp
import ScopedXml.Text.Jis0208
import ScopedXml.Text.Printable
import ScopedXml.Text.Quoted
import ScopedXml.Text.Utf16
import ScopedXml.Text.Utf8
import ScopedXml.Text.WhiteSpace
import ScopedXml.Text.Windows1252
import ScopedXml.Value.Builtin
import ScopedXml.Value.Calendar
import ScopedXml.Value.Names
import ScopedXml.Value.Numbers
