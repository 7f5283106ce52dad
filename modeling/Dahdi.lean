import Dahdi.Library.ShiftRegister
import Dahdi.Library.BitStuffing
import Dahdi.Hdlc.Fasthdlc
import Dahdi.Hdlc.Tables
import Dahdi.Hdlc.Link
import Dahdi.Hdlc.Frames
import Dahdi.Hdlc.RoundTrip
import Dahdi.Library.CyclicCursor
import Dahdi.Channel.State
import Dahdi.Channel.Buffers
import Dahdi.Channel.Transmit
import Dahdi.Channel.Receive
import Dahdi.Library.GuardedRun
import Dahdi.Channel.RingInvariant
import Dahdi.Channel.HdlcOctets
import Dahdi.Channel.Contents
import Dahdi.Channel.HdlcSender
import Dahdi.Channel.HdlcReceiver
import Dahdi.Channel.DataLink
import Dahdi.Library.OrderedBlocks
import Dahdi.Span.Numbers
import Dahdi.Span.SpanOrder
import Dahdi.Span.Lookup
import Dahdi.Library.Saturation
import Dahdi.Conference.State
import Dahdi.Library.InverseTables
import Dahdi.Conference.Alias
import Dahdi.Conference.Setconf
import Dahdi.Conference.Membership
import Dahdi.Conference.Tick
import Dahdi.Conference.Turns
import Dahdi.Conference.Mixing
import Dahdi.Conference.IndexSafety
import Dahdi.Conference.Residue
import Dahdi.Conference.Race
import Dahdi.Channel.ReadCall
import Dahdi.Library.BlockQueue
import Dahdi.Channel.OctetStream
import Dahdi.Channel.ReadRace
import Dahdi.Dynamic.Message
import Dahdi.Dynamic.RoundTrip
import Dahdi.Dynamic.Multiframe
import Dahdi.Dynamic.MultiframeTrip
import Dahdi.Dynamic.SpanGroup
import Dahdi.Library.Tenancy
import Dahdi.Transcode.Ownership
import Dahdi.Span.Registration
import Dahdi.Library.LineMask
import Dahdi.Xpp.Xpd
import Dahdi.Xpp.Cards
import Dahdi.Xpp.PcmLength
import Dahdi.Xpp.BriLength
import Dahdi.Xpp.PriLength
import Dahdi.Xpp.LengthRuns
import Dahdi.Library.PackedSlots
import Dahdi.Xpp.PcmTrip
import Dahdi.Xpp.PriTrip
import Dahdi.Xpp.BriTrip
import Dahdi.Xpp.PacketTrip
import Dahdi.Hdlc.ReceiverRounds
import Dahdi.Channel.HdlcRegisters
import Dahdi.Hdlc.Delimiters
import Dahdi.Hdlc.Resync
import Dahdi.Channel.OctetEffects
import Dahdi.Channel.FrameDelivery
import Dahdi.Channel.HdlcOverrun
import Dahdi.Channel.HdlcPieces
import Dahdi.Channel.FramePaths
import Dahdi.Hdlc.Silence
import Dahdi.Library.BitFields
import Dahdi.Xpp.PriCas
import Dahdi.Xpp.CasTrip
import Dahdi.Echocan.Canceller
import Dahdi.Echocan.Workspace
import Dahdi.Library.MarkedPieces
import Dahdi.Xpp.BriDchan
import Dahdi.Xpp.BriSender
import Dahdi.Xpp.BriRuns
import Dahdi.Library.CyclicSlots
import Dahdi.Voicebus.Tasklet
import Dahdi.Voicebus.Conservation
import Dahdi.Library.Transducer
import Dahdi.Channel.ConfQueue
import Dahdi.Channel.BufferSpace
import Dahdi.Channel.TransmitPolicy
import Dahdi.Channel.HardExtract
import Dahdi.Channel.DuplicateFrames
import Dahdi.Tone.Zone
import Dahdi.Tone.DialParams
import Dahdi.Signalling.State
import Dahdi.Signalling.Dialing
import Dahdi.Signalling.Timers
import Dahdi.Signalling.Cadence
import Dahdi.Signalling.CadenceOrder
import Dahdi.Signalling.PulseDial
import Dahdi.Tone.Grounded
import Dahdi.Tone.SoundZones
import Dahdi.Signalling.SendTone
import Dahdi.Channel.ReadyRing
import Dahdi.Channel.ChunkTotality
import Dahdi.Library.Repeater
import Dahdi.Channel.QueueRing
import Dahdi.Channel.Repetition
import Dahdi.Xpp.Xframe
import Dahdi.Xpp.FrameCustody
import Dahdi.Xpp.FrameRuns
import Dahdi.Library.LinkedRing
import Dahdi.Timer.Config
import Dahdi.Timer.Listing
import Dahdi.Library.PointerChain
import Dahdi.Library.BlockStream
import Dahdi.Channel.Bundling
import Dahdi.Library.PairedEnds
import Dahdi.Channel.MirrorPairs
import Dahdi.Span.MasterChoice
import Dahdi.Library.RefCount
import Dahdi.Echocan.References
import Dahdi.Tone.HeldZones
import Dahdi.Tone.ValidTones
import Dahdi.Library.CString
import Dahdi.Signalling.EventQueue
import Dahdi.Signalling.DialBuffer
import Dahdi.Signalling.DialOrder
import Dahdi.Library.Watchers
import Dahdi.Conference.Preecho
import Dahdi.Channel.Chanconfig
import Dahdi.Channel.SlaveChains
import Dahdi.Channel.ChanconfigRefused
import Dahdi.Xpp.TickRuns
import Dahdi.Transcode.CommandMatch
import Dahdi.Transcode.CommandRuns
import Dahdi.Library.PeekTree
import Dahdi.Library.LengthChain
import Dahdi.Xpp.Xproto
import Dahdi.Xpp.XprotoReads
import Dahdi.Xpp.PcmReads
import Dahdi.Xpp.XframeParse
import Dahdi.Conference.Links
import Dahdi.Conference.LinkRuns
import Dahdi.Library.CutText
import Dahdi.Dynamic.EthAddress
import Dahdi.Dynamic.LocalSpans
import Dahdi.Dynamic.DspanList
import Dahdi.Dynamic.Creation
import Dahdi.Span.Maintenance
import Dahdi.Span.PseudoOpen
import Dahdi.Xpp.Syncer
import Dahdi.Xpp.SyncRuns
import Dahdi.Xpp.ForcedSync
import Dahdi.Xpp.Drift
import Dahdi.Library.LeakyBucket
import Dahdi.Xpp.CommandQueue
import Dahdi.Xpp.BusRegistration
import Dahdi.Xpp.RegistrationCalls
import Dahdi.Xpp.RegisteredCounts
import Dahdi.Library.SlotLedger
import Dahdi.Xpp.CardCreation
import Dahdi.Xpp.CardLedger
import Dahdi.Xpp.CardRuns
import Dahdi.Xpp.AlarmBits
import Dahdi.Xpp.FxoLine
import Dahdi.Xpp.FxoPolarity
import Dahdi.Xpp.FxoPowerDenial
import Dahdi.Transcode.Pairs
import Dahdi.Transcode.PairRuns
import Dahdi.Transcode.PairFormats
import Dahdi.Voicebus.Latency
import Dahdi.Transcode.PacketOrder
import Dahdi.Transcode.Reception
import Dahdi.Library.SlidingWindow
import Dahdi.Echocan.Windows
import Dahdi.Echocan.PeakTracking
import Dahdi.Library.LargestValues
import Dahdi.Echocan.Pruning
import Dahdi.Xpp.ChipCommand
import Dahdi.Wcb4xxp.AlarmDebounce
import Dahdi.Wcb4xxp.HdlcFrames
import Dahdi.Transcode.CommandLife
import Dahdi.Library.RingQueue
import Dahdi.Echocan.Pretraining
import Dahdi.Echocan.VersionNames
import Dahdi.Library.Segments
import Dahdi.Law.Xlaw
import Dahdi.Law.MuLaw
import Dahdi.Law.ALaw
import Dahdi.Timer.Trips
import Dahdi.Conference.Calls
import Dahdi.Signalling.RbsTrunk
import Dahdi.Signalling.PulseTrip
import Dahdi.Timer.CoreTimer
