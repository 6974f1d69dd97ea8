import Provision.Document
import Provision.Entries
import Provision.Gather.BootLine
import Provision.Gather.Chain
import Provision.Gather.Error
import Provision.Gather.Fetcher
import Provision.Gather.FileSystem
import Provision.Gather.FileTree
import Provision.Gather.Notice
import Provision.Gather.Options
import Provision.Gather.Resolver
import Provision.Gather.Run
import Provision.Gather.Sieve
import Provision.Gather.Source
import Provision.Heading
import Provision.Number
import Provision.Numeral.Binary64
import Provision.Numeral.Digits
import Provision.Numeral.Shortest
import Provision.Proofs.BootLines.ReadBack
import Provision.Proofs.Documents.DottedPaths
import Provision.Proofs.Documents.EntryOrder
import Provision.Proofs.FileTrees.Agreement
import Provision.Proofs.FileTrees.Noninterference
import Provision.Proofs.FileTrees.Places
import Provision.Proofs.Headings.Above
import Provision.Proofs.Headings.LeadingRun
import Provision.Proofs.Headings.Lines
import Provision.Proofs.Headings.Written
import Provision.Proofs.Json.Marks
import Provision.Proofs.Json.Numbers
import Provision.Proofs.Json.Places
import Provision.Proofs.Json.Reading
import Provision.Proofs.Json.Scalars
import Provision.Proofs.Json.Strings
import Provision.Proofs.Json.Subset
import Provision.Proofs.Json.Words
import Provision.Proofs.Links.Bounds
import Provision.Proofs.Links.ChainFold
import Provision.Proofs.Merging.Conflicts
import Provision.Proofs.Merging.Keywise
import Provision.Proofs.Merging.Layers
import Provision.Proofs.Merging.Order
import Provision.Proofs.Merging.Paths
import Provision.Proofs.Merging.Restriction
import Provision.Proofs.Numerals.Decimals
import Provision.Proofs.Numerals.DigitRows
import Provision.Proofs.Numerals.FloatForms
import Provision.Proofs.Numerals.Rounding
import Provision.Proofs.Runs.Precedence
import Provision.Proofs.Runs.Silence
import Provision.Proofs.Sieves.AllowKeys
import Provision.Proofs.Values.Alike
import Provision.Proofs.Values.Distinct
import Provision.Proofs.Values.Everywhere
import Provision.Proofs.Values.Sorted
import Provision.Proofs.Yaml.Assembling
import Provision.Proofs.Yaml.DecodedValues
import Provision.Proofs.Yaml.DecidedTokens
import Provision.Proofs.Yaml.EmptyCollections
import Provision.Proofs.Yaml.FirstDocument
import Provision.Proofs.Yaml.Gaps
import Provision.Proofs.Yaml.Lexemes
import Provision.Proofs.Yaml.Margins
import Provision.Proofs.Yaml.NumberTexts
import Provision.Proofs.Yaml.Parsing
import Provision.Proofs.Yaml.PlainForms
import Provision.Proofs.Yaml.PlainTexts
import Provision.Proofs.Yaml.QuotedTexts
import Provision.Proofs.Yaml.RoundTrip
import Provision.Proofs.Yaml.Scalars
import Provision.Proofs.Yaml.Standing
import Provision.Proofs.Yaml.Steps
import Provision.Proofs.Yaml.Surveys
import Provision.Proofs.Yaml.Unambiguity
import Provision.Proofs.Yaml.WrittenDocuments
import Provision.Proofs.Yaml.WrittenForm
import Provision.Proofs.Yaml.WrittenLines
import Provision.Proofs.Yaml.WrittenTokens
import Provision.Text.Bytes
import Provision.Text.Classes
import Provision.Text.Pieces
import Provision.Text.Quoted
import Provision.Text.Unshown
import Provision.Value
import Provision.Value.Merge
import Provision.Value.Path
import Provision.Yaml.Assembly
import Provision.Yaml.CoreSchema
import Provision.Yaml.Cursor
import Provision.Yaml.Event
import Provision.Yaml.Grammar
import Provision.Yaml.Margin
import Provision.Yaml.Node
import Provision.Yaml.Reading
import Provision.Yaml.Scalar.Block
import Provision.Yaml.Scalar.Plain
import Provision.Yaml.Scalar.Quoted
import Provision.Yaml.Tag
import Provision.Yaml.Text
import Provision.Yaml.Token
import Provision.Yaml.TokenReader
import Provision.Yaml.Writing
import Provision.Proofs.Merging.Keys
import Provision.Proofs.Merging.Regrouping
import Provision.Proofs.Merging.Independence
import Provision.Proofs.Merging.Repetition
import Provision.Proofs.Sieves.Exactness
import Provision.Proofs.BootLines.Survivors
import Provision.Proofs.BootLines.Words
import Provision.Proofs.FileTrees.Listing
import Provision.Proofs.Runs.Collecting
