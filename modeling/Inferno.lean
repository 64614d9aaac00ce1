import Inferno.Spec.Config
import Inferno.Spec.Wire
import Inferno.Spec.EthTs
import Inferno.Proofs.Classifiers
import Inferno.Lib.Trace
import Inferno.Spec.PtpServo
import Inferno.Sanity.Servo
import Inferno.Proofs.ServoLock
import Inferno.Lib.Control
import Inferno.Proofs.ServoRate
import Inferno.Spec.Ptpv1
import Inferno.Proofs.PtpPairing
import Inferno.Lib.Timeline
import Inferno.Spec.JitterBuf
import Inferno.Sanity.JitterRing
import Inferno.Spec.Dac
import Inferno.Sanity.JitterIsr
import Inferno.Proofs.RingTimeline
import Inferno.Spec.Race
import Inferno.Proofs.AnchorMove
import Inferno.Spec.Web
import Inferno.Proofs.UpdateLoop
import Inferno.Proofs.GoBack
import Inferno.Spec.AoipRx
import Inferno.Spec.Subscriber
import Inferno.Lib.Reconcile
import Inferno.Spec.Patch
import Inferno.Sanity.Wanting
import Inferno.Sanity.FlowTable
import Inferno.Sanity.Reconcile
import Inferno.Sanity.Request
import Inferno.Proofs.Rebuild
import Inferno.Proofs.SubscriberRuns
import Inferno.Proofs.Convergence
import Inferno.Proofs.DmaPosition
import Inferno.Proofs.StatusHonest
import Inferno.Proofs.DoubleFeed
import Inferno.Lib.SigmaDelta
import Inferno.Spec.MclkHw
import Inferno.Proofs.Dither
import Inferno.Spec.MediaClock
import Inferno.Proofs.ClockLoop
import Inferno.Proofs.OnTime
import Inferno.Lib.Checked
import Inferno.Spec.AudioRx
import Inferno.Spec.AudioChecked
import Inferno.Proofs.Ingest
import Inferno.Spec.SubRace
import Inferno.Proofs.SubRaces
import Inferno.Proofs.TableRuns
import Inferno.Spec.Handover
import Inferno.Sanity.Marks
import Inferno.Sanity.Slots
import Inferno.Proofs.Undisturbed
import Inferno.Proofs.NamedFlows
import Inferno.Proofs.Handover
import Inferno.Proofs.PairCounts
import Inferno.Lib.SlidingMean
import Inferno.Proofs.PathDelay
import Inferno.Proofs.Watchdog
import Inferno.Proofs.AnchorSteps
import Inferno.Proofs.TelemRing
import Inferno.Lib.Bytes
import Inferno.Spec.AoipMsg
import Inferno.Spec.FlowsClient
import Inferno.Proofs.FlowRequest
import Inferno.Spec.Arc
import Inferno.Sanity.ArcPages
import Inferno.Sanity.ArcTable
import Inferno.Sanity.ArcFlows
import Inferno.Sanity.ArcHandlers
import Inferno.Proofs.ArcReplies
import Inferno.Proofs.RxPaging
import Inferno.Proofs.PacketStore
import Inferno.Proofs.Underruns
import Inferno.Sanity.FlowTracking
import Inferno.Proofs.MissedPackets
import Inferno.Proofs.CorruptTimestamp
import Inferno.Lib.Window
import Inferno.Proofs.LowEdge
import Inferno.Proofs.Jumps
import Inferno.Proofs.PathSamples
import Inferno.Proofs.DelayMatching
import Inferno.Lib.LeastSquares
import Inferno.Proofs.Estimate
import Inferno.Proofs.SoftSteps
import Inferno.Lib.OnesComplement
import Inferno.Spec.EthTx
import Inferno.Proofs.MulticastFrame
import Inferno.Lib.CString
import Inferno.Spec.ChannelNames
import Inferno.Proofs.SetSubscriptions
import Inferno.Proofs.RxFlowList
import Inferno.Proofs.LatencyReport
import Inferno.Proofs.FailedUpdate
import Inferno.Lib.Simulation
import Inferno.Spec.EmacDma
import Inferno.Proofs.RemainFrames
import Inferno.Lib.JsonString
import Inferno.Spec.WebStatus
import Inferno.Proofs.StatusNames
import Inferno.Lib.Runs
import Inferno.Proofs.WriteBack
import Inferno.Lib.RingQueue
import Inferno.Spec.EmacLine
import Inferno.Proofs.FrameDelivery
import Inferno.Spec.EmacTx
import Inferno.Proofs.FrameTransmit
import Inferno.Proofs.DacWrites
import Inferno.Proofs.FlowReplies
import Inferno.Proofs.PatchedAudio
import Inferno.Spec.Keepalive
import Inferno.Proofs.Keepalives
import Inferno.Lib.Painting
import Inferno.Spec.AoipInfo
import Inferno.Proofs.InfoDatagrams
import Inferno.Proofs.RateChanges
import Inferno.Lib.PeakHold
import Inferno.Proofs.PeakMeters
import Inferno.Proofs.PatchSurvival
