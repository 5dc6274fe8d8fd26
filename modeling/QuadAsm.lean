import QuadAsm.Asm.Line
import QuadAsm.Asm.Write
import QuadAsm.Cli.Build
import QuadAsm.Cli.Check
import QuadAsm.Cli.Command
import QuadAsm.Cli.Compile
import QuadAsm.Cli.FileTree
import QuadAsm.Cli.Flag
import QuadAsm.Cli.Host
import QuadAsm.Cli.Load
import QuadAsm.Cli.Log
import QuadAsm.Cli.Path
import QuadAsm.Cli.Suggest
import QuadAsm.Cli.Task
import QuadAsm.Crash
import QuadAsm.Distinct
import QuadAsm.Emit.Access
import QuadAsm.Emit.Group
import QuadAsm.Emit.Program
import QuadAsm.Emit.Step
import QuadAsm.Emit.Target
import QuadAsm.Ir.Draft
import QuadAsm.Ir.Kind
import QuadAsm.Ir.Label
import QuadAsm.Ir.Operand
import QuadAsm.Ir.Program
import QuadAsm.Ir.Quad
import QuadAsm.Layout.Align
import QuadAsm.Layout.Frame
import QuadAsm.Layout.Globals
import QuadAsm.Layout.Location
import QuadAsm.Layout.Report
import QuadAsm.Machine.Instruction
import QuadAsm.Machine.Register
import QuadAsm.Main
import QuadAsm.Proofs.Alignment
import QuadAsm.Proofs.ArgumentRegisters
import QuadAsm.Proofs.Arguments
import QuadAsm.Proofs.Arguments.Pass
import QuadAsm.Proofs.Asm.Reading
import QuadAsm.Proofs.Asm.Token
import QuadAsm.Proofs.Asm.Write
import QuadAsm.Proofs.Cli.Expectations
import QuadAsm.Proofs.Cli.FileTree
import QuadAsm.Proofs.Cli.InputKept
import QuadAsm.Proofs.Cli.Path
import QuadAsm.Proofs.DataSection
import QuadAsm.Proofs.Dependence
import QuadAsm.Proofs.Emit.Access
import QuadAsm.Proofs.Emit.Assembly
import QuadAsm.Proofs.Emit.Calls
import QuadAsm.Proofs.Emit.Code
import QuadAsm.Proofs.Emit.Destinations
import QuadAsm.Proofs.Emit.Enter
import QuadAsm.Proofs.Emit.Footprint
import QuadAsm.Proofs.Emit.Lines
import QuadAsm.Proofs.Emit.Link
import QuadAsm.Proofs.Emit.Program
import QuadAsm.Proofs.Emit.Refusal
import QuadAsm.Proofs.Emit.Repertoire
import QuadAsm.Proofs.Emit.Step
import QuadAsm.Proofs.Frame
import QuadAsm.Proofs.FrameBounds
import QuadAsm.Proofs.Ir.Label
import QuadAsm.Proofs.Jumps
import QuadAsm.Proofs.Layout
import QuadAsm.Proofs.Lossless
import QuadAsm.Proofs.Machine.Cpu
import QuadAsm.Proofs.Machine.Process
import QuadAsm.Proofs.Machine.Ram
import QuadAsm.Proofs.Meaning
import QuadAsm.Proofs.Operators
import QuadAsm.Proofs.Outcome
import QuadAsm.Proofs.Output
import QuadAsm.Proofs.Parallel
import QuadAsm.Proofs.Preservation
import QuadAsm.Proofs.Preservation.Memory
import QuadAsm.Proofs.Quicksort
import QuadAsm.Proofs.ReceivedArguments
import QuadAsm.Proofs.Refusal
import QuadAsm.Proofs.ReturnValues
import QuadAsm.Proofs.Rounding
import QuadAsm.Proofs.Source.Accept
import QuadAsm.Proofs.Source.Build
import QuadAsm.Proofs.Source.Declared
import QuadAsm.Proofs.Source.Faithful
import QuadAsm.Proofs.Stack
import QuadAsm.Proofs.Stack.Activation
import QuadAsm.Proofs.Stack.Chain
import QuadAsm.Proofs.Stack.Code
import QuadAsm.Proofs.Stack.Run
import QuadAsm.Proofs.Stack.Stage
import QuadAsm.Proofs.Storage
import QuadAsm.Proofs.Symbols
import QuadAsm.Proofs.Text.Escape
import QuadAsm.Proofs.Text.Word
import QuadAsm.Proofs.WellFormed
import QuadAsm.Quicksort
import QuadAsm.Rejection
import QuadAsm.Source.Build
import QuadAsm.Source.File
import QuadAsm.Source.Load
import QuadAsm.Source.Read
import QuadAsm.Text.Base64
import QuadAsm.Text.Bytes
import QuadAsm.Text.Directive
import QuadAsm.Text.Escape
import QuadAsm.Text.Printable
import QuadAsm.Text.Quote
import QuadAsm.Text.Split
import QuadAsm.Text.Style
import QuadAsm.Text.Table
import QuadAsm.Text.Utf8
import QuadAsm.Text.Width
import QuadAsm.Text.Words
import QuadAsm.Yaml.Cursor
import QuadAsm.Yaml.Decode
import QuadAsm.Yaml.Error
import QuadAsm.Yaml.Node
import QuadAsm.Yaml.Node.Parse
import QuadAsm.Yaml.Record
import QuadAsm.Yaml.Scalar
import QuadAsm.Yaml.Shape
import QuadAsm.Yaml.Stream
import QuadAsm.Yaml.Token
import QuadAsm.Yaml.Token.Property
import QuadAsm.Yaml.Token.Scalar
import QuadAsm.Yaml.Token.Scan
import QuadAsm.Yaml.Untyped
