import CestWriter.ClassFile.Basic
import CestWriter.ClassFile.Body
import CestWriter.ClassFile.Class
import CestWriter.ClassFile.Error
import CestWriter.Cli.Arguments
import CestWriter.Cli.Program
import CestWriter.Cli.World
import CestWriter.Emission.Action
import CestWriter.Emission.Compose
import CestWriter.Emission.Error
import CestWriter.Emission.Form
import CestWriter.Emission.Locator
import CestWriter.Emission.Registry
import CestWriter.Emission.Window
import CestWriter.Exchange.Conversion
import CestWriter.Exchange.Manifest
import CestWriter.Exchange.Reply
import CestWriter.Exchange.Request
import CestWriter.Exchange.Wire
import CestWriter.Files.Disk
import CestWriter.Files.Node
import CestWriter.Files.Path
import CestWriter.Files.Refusal
import CestWriter.Hook
import CestWriter.Identifier
import CestWriter.Json.Basic
import CestWriter.Json.Draft
import CestWriter.Json.Misfit
import CestWriter.Json.Numeral
import CestWriter.Json.Record
import CestWriter.Json.Render
import CestWriter.Json.Text
import CestWriter.Layout.Fragment
import CestWriter.Layout.Indent
import CestWriter.Layout.Level
import CestWriter.Main
import CestWriter.Number.Decimal
import CestWriter.Number.Double
import CestWriter.Number.Shortest
import CestWriter.Number.Whole
import CestWriter.Php.Piece
import CestWriter.Php.Quoted
import CestWriter.Php.Slot
import CestWriter.Proofs.ClassFile.Alignment
import CestWriter.Proofs.Emission.Composition
import CestWriter.Proofs.Emission.Confinement
import CestWriter.Proofs.Emission.Follows
import CestWriter.Proofs.Emission.Loops
import CestWriter.Proofs.Emission.Registry
import CestWriter.Proofs.Emission.Role
import CestWriter.Proofs.Emission.Template
import CestWriter.Proofs.Emission.Turns
import CestWriter.Proofs.Layout.Blocks
import CestWriter.Proofs.Layout.Nesting
import CestWriter.Proofs.Number.Exact
import CestWriter.Proofs.Number.Numeral
import CestWriter.Proofs.Php.Expression
import CestWriter.Proofs.Php.Loop
import CestWriter.Proofs.Php.Outline
import CestWriter.Proofs.Php.Turns
import CestWriter.Proofs.Recording.Interpolation
import CestWriter.Proofs.Recording.Loops
import CestWriter.Proofs.Recording.Names
import CestWriter.Proofs.Recording.Prepared
import CestWriter.Proofs.Recording.Program
import CestWriter.Proofs.Recording.Token
import CestWriter.Recorder.Duration
import CestWriter.Recorder.Registration
import CestWriter.Recording.Argument
import CestWriter.Recording.Basic
import CestWriter.Recording.Segment
import CestWriter.Recording.Shape
import CestWriter.Settings
import CestWriter.Table
import CestWriter.Text.Blank
import CestWriter.Text.Case
import CestWriter.Text.Cut
import CestWriter.Text.NameChar
import CestWriter.Text.Printable
import CestWriter.Proofs.Recording.Discovery
import CestWriter.Proofs.Recording.Runs
import CestWriter.Proofs.ClassFile.Assembly
import CestWriter.Proofs.ClassFile.Helpers
import CestWriter.Proofs.ClassFile.Union
import CestWriter.Proofs.ClassFile.MethodNames
import CestWriter.Proofs.ClassFile.Comments
import CestWriter.Proofs.ClassFile.CommentLines
import CestWriter.Proofs.ClassFile.Disabled
import CestWriter.Proofs.Emission.Selectors
import CestWriter.Proofs.Emission.Scripts
import CestWriter.Proofs.Exchange.RoundTrip
import CestWriter.Proofs.Exchange.Session
import CestWriter.Proofs.Exchange.Routes
import CestWriter.Proofs.Cli.AllTests
import CestWriter.Proofs.ClassFile.Windows
import CestWriter.Proofs.Layout.Walk
import CestWriter.Proofs.Recorder.Polling
import CestWriter.Proofs.Emission.Keys
import CestWriter.Proofs.Emission.Slots
import CestWriter.Proofs.ClassFile.Identifiers
import CestWriter.Proofs.Emission.Addresses
import CestWriter.Proofs.Emission.Counts
import CestWriter.Proofs.Emission.Numbers
import CestWriter.Proofs.Cli.Export
import CestWriter.Proofs.Emission.Dispatch
import CestWriter.Proofs.Recording.Occurrences
import CestWriter.Proofs.Emission.Outcomes
import CestWriter.Proofs.ClassFile.HookLines
