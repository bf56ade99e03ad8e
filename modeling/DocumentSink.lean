import DocumentSink.Advice
import DocumentSink.Builder
import DocumentSink.Builder.Call
import DocumentSink.Definition
import DocumentSink.Definition.Shape
import DocumentSink.Definition.Validation
import DocumentSink.Definition.Wide
import DocumentSink.Document.Draft
import DocumentSink.Document.Fragment
import DocumentSink.Document.Insert
import DocumentSink.Document.Query
import DocumentSink.Index
import DocumentSink.Mapping
import DocumentSink.Mapping.Operator
import DocumentSink.Message.Fault
import DocumentSink.Message.Layout
import DocumentSink.Message.Objects
import DocumentSink.Message.Template
import DocumentSink.Message.Values
import DocumentSink.Numeral.Integer
import DocumentSink.Numeral.Double
import DocumentSink.Numeral.Layout
import DocumentSink.Password
import DocumentSink.Path
import DocumentSink.Path.Call
import DocumentSink.Plan
import DocumentSink.Plan.Call
import DocumentSink.Plan.Heap
import DocumentSink.Plan.Pool
import DocumentSink.Record
import DocumentSink.Step
import DocumentSink.Step.Encode
import DocumentSink.Step.Markup
import DocumentSink.Store.Attributes
import DocumentSink.Store.Call
import DocumentSink.Store.Config
import DocumentSink.Store.Files
import DocumentSink.Text.Blank
import DocumentSink.Text.Utf8
import DocumentSink.Text.Printable
import DocumentSink.Text.Quoted
import DocumentSink.Text.Split
import DocumentSink.Text.Wide
import DocumentSink.Value
import DocumentSink.Value.Json
import DocumentSink.Variables
import DocumentSink.Write.Concern
import DocumentSink.Write.Host
import DocumentSink.Write.Number
import DocumentSink.Write.Options
import DocumentSink.Write.ReadPreference
import DocumentSink.Xml.Char
import DocumentSink.Xml.Doctype
import DocumentSink.Xml.Encoding
import DocumentSink.Xml.Entity
import DocumentSink.Xml.Reader
import DocumentSink.Xml.Token
import DocumentSink.Xml.Tree
import DocumentSink.Xml.Writer
import DocumentSink.Proofs.Numeral
import DocumentSink.Proofs.Password
import DocumentSink.Proofs.Except
import DocumentSink.Proofs.Step
import DocumentSink.Proofs.Decoding
import DocumentSink.Proofs.Stored
import DocumentSink.Proofs.Looks
import DocumentSink.Proofs.Wide
import DocumentSink.Proofs.Xml.RoundTrip
import DocumentSink.Proofs.Markup
import DocumentSink.Proofs.Agreement
import DocumentSink.Proofs.Attributes
import DocumentSink.Proofs.Tree
import DocumentSink.Proofs.Insert
import DocumentSink.Proofs.Failure
import DocumentSink.Proofs.History
import DocumentSink.Proofs.Backends
import DocumentSink.Proofs.Held
import DocumentSink.Proofs.Compile
import DocumentSink.Proofs.Heap
import DocumentSink.Proofs.Isolation
import DocumentSink.Proofs.Branches
import DocumentSink.Proofs.Substitution
import DocumentSink.Proofs.Index
import DocumentSink.Proofs.Bodies
import DocumentSink.Proofs.Dotted
import DocumentSink.Proofs.Files
import DocumentSink.Proofs.Selection
import DocumentSink.Proofs.Xml.Characters
import DocumentSink.Proofs.Resave
import DocumentSink.Proofs.Refusal
import DocumentSink.Proofs.Segmentation
import DocumentSink.Proofs.Faults
import DocumentSink.Proofs.Walks
import DocumentSink.Proofs.Xml.Scanning
import DocumentSink.Proofs.Relevance
import DocumentSink.Proofs.Spacing
import DocumentSink.Proofs.Detection
import DocumentSink.Proofs.Decimal
import DocumentSink.Proofs.Terms
import DocumentSink.Proofs.Hosts
import DocumentSink.Proofs.Canonical
import DocumentSink.Proofs.Cursors
import DocumentSink.Proofs.Shape
import DocumentSink.Proofs.Building
import DocumentSink.Proofs.Templates
import DocumentSink.Proofs.Advice
import DocumentSink.Proofs.Segments
import DocumentSink.Proofs.Unshared
import DocumentSink.Proofs.Lawful
import DocumentSink.Proofs.Resolution
