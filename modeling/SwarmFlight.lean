import SwarmFlight.Formation
import SwarmFlight.Json.Writer
import SwarmFlight.Settings.Reader
import SwarmFlight.Simulation.Building
import SwarmFlight.Simulation.Run
import SwarmFlight.Proofs.Queue.Reference
import SwarmFlight.Proofs.Run.Compromise
import SwarmFlight.Proofs.Run.Situation
import SwarmFlight.Proofs.Run.Bounded
import SwarmFlight.Proofs.Run.Traffic
import SwarmFlight.Proofs.Run.Links
import SwarmFlight.Proofs.Run.Accounts
import SwarmFlight.Proofs.Run.Timetable
import SwarmFlight.Proofs.Run.Totals
import SwarmFlight.Proofs.Track
import SwarmFlight.Proofs.Run.Observation
import SwarmFlight.Proofs.Run.Lossless
import SwarmFlight.Proofs.Run.Lived
import SwarmFlight.Proofs.Run.Steady
import SwarmFlight.Proofs.Wire
import SwarmFlight.Proofs.Wire.Format
import SwarmFlight.Proofs.Run.Strays
import SwarmFlight.Proofs.Run.Failures
import SwarmFlight.Proofs.Run.Colours
import SwarmFlight.Proofs.Queue.Fates
import SwarmFlight.Proofs.Run.Hearing
import SwarmFlight.Proofs.Run.Deaf
import SwarmFlight.Proofs.Run.Samples
import SwarmFlight.Proofs.Run.Setbacks
import SwarmFlight.Proofs.Formation.Score
import SwarmFlight.Proofs.Placement
import SwarmFlight.Proofs.Ledger.Bookkeeping
import SwarmFlight.Proofs.Network.Accounting
import SwarmFlight.Proofs.Run.Addresses
import SwarmFlight.Proofs.Peers.Listing
import SwarmFlight.Proofs.Run.Waypoints
import SwarmFlight.Proofs.Run.Forces
import SwarmFlight.Proofs.Motion
