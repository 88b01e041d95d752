import TickScript.Snapshot
import TickScript.Engine.Cells
import TickScript.Main
import TickScript.Proofs.Transparency
import TickScript.Proofs.Waiting
import TickScript.Proofs.Inlining
import TickScript.Proofs.Searching
import TickScript.Proofs.OpenProbe
import TickScript.Proofs.Optimum
import TickScript.Proofs.Digits
import TickScript.Proofs.WrittenData
import TickScript.Proofs.RecordFile
import TickScript.Proofs.Saving
import TickScript.Proofs.Restamped
import TickScript.Proofs.Reopening
import TickScript.Proofs.RecordedRuns
import TickScript.Proofs.LevelFiles
import TickScript.Proofs.RecordingFile
import TickScript.Proofs.Playback
import TickScript.Proofs.RecordedLevel
import TickScript.Proofs.PendingSteps
import TickScript.Proofs.Calls
import TickScript.Proofs.Yielding
import TickScript.Proofs.OverrideTicks
import TickScript.Proofs.Takeover
import TickScript.Proofs.Countdowns
import TickScript.Proofs.SavedLogs
import TickScript.Proofs.RecordedTicks
import TickScript.Proofs.Pasts
import TickScript.Proofs.Restarting
import TickScript.Proofs.MessageBoxes
import TickScript.Proofs.SavedTakes
import TickScript.Proofs.Bisection
import TickScript.Proofs.Candidates
import TickScript.Proofs.ScriptSchedule
import TickScript.Proofs.FailedStarts
import TickScript.Proofs.Unrolling
import TickScript.Proofs.SingleThen
import TickScript.Proofs.NormalForm
import TickScript.Proofs.ValueKinds
import TickScript.Proofs.Alternatives
import TickScript.Proofs.LateReading
