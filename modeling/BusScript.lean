import BusScript.Bus.Playback
import BusScript.Main
import BusScript.Script.Reading
import BusScript.Semantics
import BusScript.Proofs.Bus.Completion
import BusScript.Proofs.Bus.Waiting
import BusScript.Proofs.Command.Decoding
import BusScript.Proofs.Command.Framed
import BusScript.Proofs.Command.Chunks
import BusScript.Proofs.Command.Canonical
import BusScript.Proofs.Script.Codec
import BusScript.Proofs.Script.Building
import BusScript.Proofs.Semantics.Conclusion
import BusScript.Proofs.Semantics.Activity
import BusScript.Proofs.Engine.Sound
import BusScript.Proofs.Engine.Tracking
import BusScript.Proofs.Feeder.Presentation
import BusScript.Proofs.Run.Reporting
import BusScript.Proofs.Run.Stream
import BusScript.Proofs.Semantics.Leftover
import BusScript.Proofs.Run.Grammar
import BusScript.Proofs.Image.Placement
import BusScript.Proofs.Image.Layout
import BusScript.Proofs.Run.Stored
import BusScript.Proofs.Engine.Session
import BusScript.Proofs.Engine.Compliance
import BusScript.Proofs.Engine.Lifecycle
import BusScript.Proofs.Engine.Progress
import BusScript.Proofs.Engine.Expectation
import BusScript.Proofs.Run.Ending
import BusScript.Proofs.Run.Limit
import BusScript.Proofs.Run.Termination
import BusScript.Proofs.Engine.Isolation
import BusScript.Proofs.Engine.Integrity
import BusScript.Proofs.Engine.Balance
import BusScript.Proofs.Run.Accounting
import BusScript.Proofs.Engine.Flow
import BusScript.Proofs.Feeder.Conservation
import BusScript.Proofs.Engine.Relevance
import BusScript.Proofs.Engine.Draining
import BusScript.Proofs.Engine.RegisterFile
import BusScript.Proofs.Engine.RegisterHistory
import BusScript.Proofs.Engine.Polling
import BusScript.Proofs.Feeder.Pulses
import BusScript.Proofs.Engine.Failures
import BusScript.Proofs.Engine.Attribution
import BusScript.Proofs.Run.Attribution
import BusScript.Proofs.Feeder.Handshake
import BusScript.Proofs.Feeder.Fetching
import BusScript.Proofs.Feeder.FetchOrder
import BusScript.Proofs.Bus.Refinement
import BusScript.Proofs.Image.ReadBack
import BusScript.Proofs.Run.Exactness
import BusScript.Proofs.Engine.Fifo
import BusScript.Proofs.Run.Clock
