import TeachingCpu.Main
import TeachingCpu.Proofs.Assembly.Labels
import TeachingCpu.Proofs.Assembly.Language
import TeachingCpu.Proofs.Assembly.Layout
import TeachingCpu.Proofs.Assembly.Lines
import TeachingCpu.Proofs.Assembly.Loading
import TeachingCpu.Proofs.Assembly.Outline
import TeachingCpu.Proofs.Assembly.Partition
import TeachingCpu.Proofs.Assembly.FallThrough
import TeachingCpu.Proofs.Assembly.Diagnostics
import TeachingCpu.Proofs.Assembly.Relocation
import TeachingCpu.Proofs.Assembly.NormalForm
import TeachingCpu.Proofs.Console.Session
import TeachingCpu.Proofs.Machine.Cycle
import TeachingCpu.Proofs.Machine.MicroProgram
import TeachingCpu.Proofs.Machine.Phase
import TeachingCpu.Proofs.Machine.Semantics
import TeachingCpu.Proofs.Machine.Word
import TeachingCpu.Proofs.Text.Lines
import TeachingCpu.Proofs.Text.Numeral
import TeachingCpu.Proofs.Image
import TeachingCpu.Proofs.CommandLine
import TeachingCpu.Proofs.Machine.Request
import TeachingCpu.Proofs.Machine.Interleaving
import TeachingCpu.Proofs.Machine.Invariant
import TeachingCpu.Proofs.Machine.Sequencer
import TeachingCpu.Proofs.Machine.Load
import TeachingCpu.Proofs.Machine.Faults
import TeachingCpu.Proofs.Machine.Iteration
import TeachingCpu.Proofs.Machine.Bounded
import TeachingCpu.Proofs.Machine.Cancellation
import TeachingCpu.Proofs.Machine.Idle
import TeachingCpu.Proofs.Console.Recovery
import TeachingCpu.Proofs.InstructionSet.Table
import TeachingCpu.Proofs.Machine.Wording
import TeachingCpu.Proofs.Assembly.Overrun
import TeachingCpu.Proofs.Assembly.References
import TeachingCpu.Proofs.Machine.Arithmetic
import TeachingCpu.Proofs.Machine.Comparison
import TeachingCpu.Proofs.Assembly.Boundaries
import TeachingCpu.Proofs.Assembly.Separators
import TeachingCpu.Proofs.Console.Readers
import TeachingCpu.Proofs.Console.Numerals
import TeachingCpu.Proofs.Console.Parameters
import TeachingCpu.Proofs.Console.Signature
import TeachingCpu.Proofs.Console.LetterCase
import TeachingCpu.Proofs.Assembly.LineEnds
import TeachingCpu.Proofs.Assembly.Spans
import TeachingCpu.Proofs.Program
import TeachingCpu.Proofs.Machine.Trace
import TeachingCpu.Proofs.Text.Bytes
import TeachingCpu.Proofs.Text.LetterCase
import TeachingCpu.Proofs.Text.Trim
import TeachingCpu.Proofs.Assembly.Spacing
import TeachingCpu.Proofs.Assembly.Numerals
import TeachingCpu.Proofs.Log.Terminal
import TeachingCpu.Proofs.Console.Suggestion
