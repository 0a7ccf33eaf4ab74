import Handheld.Lock.Contention
import Handheld.Main
import Handheld.Proofs.Console.Buffers
import Handheld.Proofs.Lock.History
import Handheld.Proofs.Lock.Updates
import Handheld.Proofs.Run.Core1Fault
import Handheld.Proofs.Run.Stop
import Handheld.Proofs.Text.Wrapping
import Handheld.Proofs.Canvas.Writing
import Handheld.Proofs.Canvas.Fills
import Handheld.Proofs.Demo.Pictures
import Handheld.Proofs.Demo.Bars
import Handheld.Proofs.Text.Breaks
import Handheld.Proofs.Run.Shown
import Handheld.Proofs.Program.Outcome
import Handheld.Proofs.Core.Launching
import Handheld.Proofs.Text.Blanks
import Handheld.Proofs.Text.LineCount
import Handheld.Proofs.Text.Rewrapping
import Handheld.Proofs.Console.FaultPixels
import Handheld.Proofs.Run.Bar
import Handheld.Proofs.Demo.Captions
import Handheld.Proofs.Demo.Rendering
import Handheld.Proofs.Number.Rounding
import Handheld.Proofs.Program.Rates
import Handheld.Proofs.Canvas.Compositing
import Handheld.Proofs.Time.FrameTimes
import Handheld.Proofs.Board.Buttons
import Handheld.Proofs.Time.Limits
import Handheld.Proofs.Core.HostNumbers
import Handheld.Proofs.Frame.Addressing
