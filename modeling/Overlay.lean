import Overlay.Proofs.Agreement.Mutual
import Overlay.Proofs.Agreement.Text
import Overlay.Proofs.Cache.Lazy
import Overlay.Proofs.Conversation.Usable
import Overlay.Proofs.Crowd.Authentic
import Overlay.Proofs.Crypto.Aead
import Overlay.Proofs.Discovery.Candidates
import Overlay.Proofs.Discovery.Delivery
import Overlay.Proofs.Discovery.DirectPath
import Overlay.Proofs.Discovery.Gateway
import Overlay.Proofs.Discovery.Meeting
import Overlay.Proofs.Discovery.Selection
import Overlay.Proofs.Discovery.Steady
import Overlay.Proofs.Discovery.SuperPeerSide
import Overlay.Proofs.Discovery.Throttle
import Overlay.Proofs.Engine.Answer
import Overlay.Proofs.Engine.Consistent
import Overlay.Proofs.Engine.Forged
import Overlay.Proofs.Engine.Lifetime
import Overlay.Proofs.Engine.Lingering
import Overlay.Proofs.Engine.Notice
import Overlay.Proofs.Engine.Pace
import Overlay.Proofs.Engine.Reach
import Overlay.Proofs.Engine.Stages
import Overlay.Proofs.Fallback
import Overlay.Proofs.Handshake.Convergence
import Overlay.Proofs.Isolation.Source
import Overlay.Proofs.Node.Idle
import Overlay.Proofs.Node.Quiet
import Overlay.Proofs.Renewal.Rounds
import Overlay.Proofs.Traffic.Mixed
import Overlay.Proofs.Traffic.Settling
import Overlay.Proofs.Wire.Envelope
import Overlay.Proofs.Wire.Exact
import Overlay.Proofs.Wire.Stream
import Overlay.Report.State
import Overlay.Simulation.Engines
import Overlay.Simulation.Network
