import Crowdsensing.Naming.Agreement
import Crowdsensing.Edge.Producer
import Crowdsensing.System.Run
import Crowdsensing.Edge.OneSession
import Crowdsensing.Edge.Aggregation
import Crowdsensing.Reference
import Crowdsensing.Edge.SendRace
import Crowdsensing.Text.Chunk
import Crowdsensing.Worker.Worker
import Crowdsensing.Worker.Answers
import Crowdsensing.Worker.NoTarget
import Crowdsensing.Detection.Greedy
import Crowdsensing.Detection.Postprocess
import Crowdsensing.Worker.Fetch
import Crowdsensing.Naming.Decode
import Crowdsensing.Naming.OnePass
import Crowdsensing.Modes.Requests
import Crowdsensing.Naming.Rewritten
import Crowdsensing.Modes.Verdict
import Crowdsensing.Modes.TwoModes
import Crowdsensing.Client.Manager
import Crowdsensing.Client.Blocking
import Crowdsensing.Client.Zorder
import Crowdsensing.System.Loop
import Crowdsensing.Worker.Segments
import Crowdsensing.Client.Recovery
import Crowdsensing.Modes.Frames
import Crowdsensing.Modes.Signatures
import Crowdsensing.Worker.Crashes
import Crowdsensing.System.Deletion
import Crowdsensing.Edge.Discarded
import Crowdsensing.Edge.Contents
import Crowdsensing.Modes.Format
import Crowdsensing.Modes.Targets
import Crowdsensing.Modes.AnswerSize
import Crowdsensing.System.Tally
import Crowdsensing.Edge.Accounting
import Crowdsensing.Detection.Ranking
import Crowdsensing.Worker.Undisturbed
import Crowdsensing.System.Network
import Crowdsensing.Client.Map
import Crowdsensing.Whole.Parties
import Crowdsensing.Whole.Provenance
import Crowdsensing.Whole.Round
import Crowdsensing.Whole.Pictures
import Crowdsensing.Whole.Fetches
import Crowdsensing.Whole.Emulation
