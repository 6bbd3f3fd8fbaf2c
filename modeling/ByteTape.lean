import ByteTape.Attendance
import ByteTape.Main
import ByteTape.Proofs.Bracket.Balance
import ByteTape.Proofs.Bracket.OpenLoops
import ByteTape.Proofs.Core.Basic
import ByteTape.Proofs.Core.Run
import ByteTape.Proofs.Core.StackDiscipline
import ByteTape.Proofs.Core.Schedule
import ByteTape.Proofs.Core.Pauses
import ByteTape.Proofs.Core.StatusTruth
import ByteTape.Proofs.Bracket.StrayBrackets
import ByteTape.Proofs.Core.BracketFaults
import ByteTape.Proofs.JumpTable.Agreement
import ByteTape.Proofs.Structured.Code
import ByteTape.Proofs.Structured.Semantics
import ByteTape.Proofs.Structured.Simulation
import ByteTape.Proofs.Core.Attended
import ByteTape.Proofs.Core.Progress
import ByteTape.Proofs.Core.Attending
import ByteTape.Proofs.Core.Renumber
import ByteTape.Proofs.Comments.Erasure
import ByteTape.Proofs.Comments.Transparency
import ByteTape.Proofs.Guarded.Basic
import ByteTape.Proofs.Guarded.Safety
import ByteTape.Proofs.Structured.Refinement
import ByteTape.Proofs.Record.Completion
import ByteTape.Proofs.Record.Slicing
import ByteTape.Proofs.Record.Chronicle
import ByteTape.Proofs.Record.Pausing
import ByteTape.Proofs.Session.Reading
import ByteTape.Proofs.Session.Fidelity
import ByteTape.Proofs.Core.Atomicity
import ByteTape.Proofs.Session.Interruption
import ByteTape.Proofs.Session.Dialogue
import ByteTape.Proofs.Session.Rendering
import ByteTape.Proofs.Session.DisplayOptions
import ByteTape.Proofs.Session.Headway
import ByteTape.Proofs.Sequence.Displacement
import ByteTape.Proofs.Sequence.Seam
import ByteTape.Proofs.Sequence.Restart
import ByteTape.Proofs.Sequence.Composition
import ByteTape.Proofs.Bracket.Matching
import ByteTape.Proofs.TapeOperations
import ByteTape.Proofs.Drawing.Layout
import ByteTape.Proofs.Drawing.Range
import ByteTape.Proofs.Text.Delimited
import ByteTape.Proofs.Drawing.Legibility
import ByteTape.Proofs.Routine.FocusedTape
import ByteTape.Proofs.Routine.Contract
import ByteTape.Proofs.Routine.Multiplication
import ByteTape.Proofs.Routine.Reversal
import ByteTape.Proofs.Text.FaultText
import ByteTape.Proofs.Timing.Nearest
import ByteTape.Proofs.Timing.Seconds
