import Esolang.Befunge.Direction
import Esolang.Befunge.Grid
import Esolang.Befunge.Instruction
import Esolang.Befunge.Machine
import Esolang.Brainfuck.Machine
import Esolang.Brainfuck.Program
import Esolang.CommandLine.Arguments
import Esolang.CommandLine.OptionTable
import Esolang.CommandLine.Paths
import Esolang.CommandLine.Session
import Esolang.Cow.Machine
import Esolang.Cow.Opcode
import Esolang.Cow.Program
import Esolang.Diagnostic.Basic
import Esolang.Diagnostic.Handbook
import Esolang.Diagnostic.Kind
import Esolang.Diagnostic.Record
import Esolang.Diagnostic.Rendering
import Esolang.Evaluation
import Esolang.Language
import Esolang.Loop.Guard
import Esolang.Loop.Pairing
import Esolang.Machine.Budget
import Esolang.Machine.Input
import Esolang.Machine.Run
import Esolang.Machine.Settings
import Esolang.Main
import Esolang.Memory.Stack
import Esolang.Memory.Tape
import Esolang.Memory.Word
import Esolang.Proofs.Brainfuck.Block
import Esolang.Proofs.Brainfuck.Structured
import Esolang.Proofs.Cow.SelfModification
import Esolang.Proofs.Cow.Specialisation
import Esolang.Proofs.Evaluation.Engine
import Esolang.Proofs.Evaluation.StepLimit
import Esolang.Proofs.Loop.Nesting
import Esolang.Proofs.Machine.Course
import Esolang.Source.CodeFence
import Esolang.Source.Lines
import Esolang.Source.Span
import Esolang.Source.Token
import Esolang.Text.Blank
import Esolang.Text.Json
import Esolang.Whitespace.Command
import Esolang.Whitespace.Decoder
import Esolang.Whitespace.Machine
import Esolang.Whitespace.Number
import Esolang.Whitespace.Symbol
import Esolang.Whitespace.Trie
import Esolang.Proofs.Source.Placement
import Esolang.Proofs.Machine.Sequence
import Esolang.Proofs.Whitespace.Grammar
import Esolang.Proofs.Whitespace.Numeral
import Esolang.Proofs.Whitespace.Writing
import Esolang.Proofs.Befunge.Torus
import Esolang.Proofs.Memory.Division
import Esolang.Proofs.Evaluation.Calculator
import Esolang.Proofs.Memory.Strip
import Esolang.Proofs.Brainfuck.Range
import Esolang.Proofs.Cow.Range
import Esolang.Proofs.Befunge.Range
import Esolang.Proofs.Evaluation.Range
import Esolang.Proofs.Machine.Lockstep
import Esolang.Proofs.Cow.Spelling
import Esolang.Proofs.Evaluation.CommonCore
import Esolang.Proofs.Befunge.Store
import Esolang.Proofs.Befunge.Refusal
import Esolang.Proofs.Evaluation.Structural
import Esolang.Proofs.Evaluation.Surroundings
import Esolang.Proofs.Machine.Agreement
import Esolang.Proofs.Befunge.Draws
import Esolang.Proofs.Evaluation.Aligned
import Esolang.Proofs.Evaluation.Comments
import Esolang.Proofs.Evaluation.LineEndings
import Esolang.Proofs.Loop.Matching
import Esolang.Proofs.Brainfuck.PlainLoop
import Esolang.Proofs.Evaluation.Locations
import Esolang.Proofs.CommandLine.Formats
import Esolang.Proofs.Text.Json
import Esolang.Proofs.CommandLine.OptionTable
import Esolang.Proofs.Befunge.Walk
import Esolang.Proofs.Befunge.Strings
import Esolang.Proofs.Whitespace.Reading
import Esolang.Proofs.Whitespace.Trie
import Esolang.Proofs.Source.Fence
import Esolang.Proofs.Text.Pattern
import Esolang.Proofs.Source.FencePattern
import Esolang.Proofs.Cow.Parsing
import Esolang.Proofs.Memory.Floor
import Esolang.Proofs.Source.Recovery
import Esolang.Proofs.Befunge.Cells
import Esolang.Proofs.Evaluation.Continuation
import Esolang.Proofs.Diagnostic.Colour
import Esolang.Proofs.Diagnostic.Underline
import Esolang.Proofs.Evaluation.Returned
import Esolang.Proofs.Machine.Integers
import Esolang.Proofs.Memory.Frames
import Esolang.Proofs.Machine.Histories
import Esolang.Proofs.Machine.Characters
import Esolang.Proofs.Evaluation.EndOfInput
import Esolang.Proofs.Memory.Supply
import Esolang.Proofs.Befunge.Circuit
