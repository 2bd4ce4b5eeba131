import StagedSandbox.Bytes
import StagedSandbox.Cli.Arguments
import StagedSandbox.Cli.Command
import StagedSandbox.Cli.Session
import StagedSandbox.Failure
import StagedSandbox.Fs.Basic
import StagedSandbox.Fs.Change
import StagedSandbox.Fs.Walk
import StagedSandbox.Guest.Basic
import StagedSandbox.Guest.Calls
import StagedSandbox.Guest.Errno
import StagedSandbox.Guest.Reply
import StagedSandbox.Host.OsError
import StagedSandbox.Host.PathText
import StagedSandbox.Host.Tree
import StagedSandbox.Host.Walk
import StagedSandbox.Json.Token
import StagedSandbox.Json.Value
import StagedSandbox.Main
import StagedSandbox.Memory
import StagedSandbox.Object.Basic
import StagedSandbox.Object.Text
import StagedSandbox.Path
import StagedSandbox.Playground.Basic
import StagedSandbox.Playground.Options
import StagedSandbox.Playground.OptionsText
import StagedSandbox.Proofs.Action
import StagedSandbox.Proofs.Bytes
import StagedSandbox.Proofs.Cli.Snapshot
import StagedSandbox.Proofs.Fs.Change
import StagedSandbox.Proofs.Fs.Enumeration
import StagedSandbox.Proofs.Fs.FlatChange
import StagedSandbox.Proofs.Fs.FlatMap
import StagedSandbox.Proofs.Fs.Force
import StagedSandbox.Proofs.Fs.Frame
import StagedSandbox.Proofs.Fs.Move
import StagedSandbox.Proofs.Fs.Operation
import StagedSandbox.Proofs.Fs.Reachable
import StagedSandbox.Proofs.Fs.Size
import StagedSandbox.Proofs.Fs.Subtree
import StagedSandbox.Proofs.Fs.View
import StagedSandbox.Proofs.Guest.Bond
import StagedSandbox.Proofs.Guest.Capacity
import StagedSandbox.Proofs.Guest.Descriptors
import StagedSandbox.Proofs.Guest.Failure
import StagedSandbox.Proofs.Guest.Files
import StagedSandbox.Proofs.Guest.Journal
import StagedSandbox.Proofs.Guest.Listing
import StagedSandbox.Proofs.Guest.Opening
import StagedSandbox.Proofs.Guest.Output
import StagedSandbox.Proofs.Guest.Resolve
import StagedSandbox.Proofs.Guest.Sandbox
import StagedSandbox.Proofs.Guest.Seeking
import StagedSandbox.Proofs.Guest.Sequential
import StagedSandbox.Proofs.Guest.Steps
import StagedSandbox.Proofs.Guest.Streams
import StagedSandbox.Proofs.Host.Tree
import StagedSandbox.Proofs.Host.Walk
import StagedSandbox.Proofs.Json.Token
import StagedSandbox.Proofs.Memory
import StagedSandbox.Proofs.Object.Header
import StagedSandbox.Proofs.Object.Meaning
import StagedSandbox.Proofs.Object.Merge
import StagedSandbox.Proofs.Object.Text
import StagedSandbox.Proofs.Path
import StagedSandbox.Proofs.Path.Normal
import StagedSandbox.Proofs.Playground.Build
import StagedSandbox.Proofs.Playground.Export
import StagedSandbox.Proofs.Playground.Run
import StagedSandbox.Proofs.Playground.Seed
import StagedSandbox.Proofs.Playground.Sources
import StagedSandbox.Proofs.Snapshot.Alias
import StagedSandbox.Proofs.Snapshot.Builder
import StagedSandbox.Proofs.Snapshot.Index
import StagedSandbox.Proofs.Snapshot.IndexText
import StagedSandbox.Proofs.Snapshot.Load
import StagedSandbox.Proofs.Snapshot.Mount
import StagedSandbox.Proofs.Snapshot.Overlap
import StagedSandbox.Proofs.Snapshot.Tree
import StagedSandbox.Proofs.Snapshot.Valid
import StagedSandbox.Proofs.Source.Format
import StagedSandbox.Proofs.Source.Line
import StagedSandbox.Proofs.Stage.Run
import StagedSandbox.Proofs.Stage.Sequence
import StagedSandbox.Proofs.Stage.Transcript
import StagedSandbox.Proofs.Table
import StagedSandbox.Proofs.Text.FirstMistake
import StagedSandbox.Proofs.Text.Form
import StagedSandbox.Proofs.Text.Lossy
import StagedSandbox.Proofs.Text.Numeral
import StagedSandbox.Proofs.Text.Order
import StagedSandbox.Proofs.Text.Split
import StagedSandbox.Proofs.Text.Utf8
import StagedSandbox.Proofs.Tool.Clean
import StagedSandbox.Proofs.Tool.Closing
import StagedSandbox.Proofs.Tool.Compiler
import StagedSandbox.Proofs.Tool.Files
import StagedSandbox.Proofs.Tool.Format
import StagedSandbox.Proofs.Tool.Journal
import StagedSandbox.Proofs.Tool.Linker
import StagedSandbox.Proofs.Tool.Outcome
import StagedSandbox.Proofs.Tool.Placement
import StagedSandbox.Proofs.Tool.Written
import StagedSandbox.Proofs.Wasi.Fault
import StagedSandbox.Proofs.Wasi.Frame
import StagedSandbox.Proofs.Wasi.Journal
import StagedSandbox.Proofs.Wasi.Listing
import StagedSandbox.Proofs.Wasi.Paging
import StagedSandbox.Proofs.Wasi.Step
import StagedSandbox.Proofs.Wasi.Texts
import StagedSandbox.Proofs.Wasi.Vectored
import StagedSandbox.Proofs.Wasm.Engine
import StagedSandbox.Proofs.Wasm.Layout
import StagedSandbox.Proofs.Wasm.LinkedText
import StagedSandbox.Proofs.Wasm.Placement
import StagedSandbox.Proofs.Wasm.Reader
import StagedSandbox.Proofs.Wasm.Release
import StagedSandbox.Proofs.Wasm.Run
import StagedSandbox.Snapshot.Basic
import StagedSandbox.Snapshot.Builder
import StagedSandbox.Snapshot.Index
import StagedSandbox.Snapshot.IndexText
import StagedSandbox.Snapshot.Mount
import StagedSandbox.Source.Printer
import StagedSandbox.Source.Reader
import StagedSandbox.Source.Syntax
import StagedSandbox.Stage.Pipeline
import StagedSandbox.Stage.Script
import StagedSandbox.Stage.Signal
import StagedSandbox.Stage.Source
import StagedSandbox.Table
import StagedSandbox.Text.Blank
import StagedSandbox.Text.Hex
import StagedSandbox.Text.Integer
import StagedSandbox.Text.Printable
import StagedSandbox.Text.Quoted
import StagedSandbox.Text.Split
import StagedSandbox.Text.Utf8
import StagedSandbox.Tool.Basic
import StagedSandbox.Tool.Compiler
import StagedSandbox.Tool.Linker
import StagedSandbox.Wasi.Call
import StagedSandbox.Wasi.Import
import StagedSandbox.Wasi.Machine
import StagedSandbox.Wasm.Code
import StagedSandbox.Wasm.Engine
import StagedSandbox.Wasm.Interpreter
import StagedSandbox.Wasm.Linked
import StagedSandbox.Wasm.Text
import StagedSandbox.Wasm.Tree
