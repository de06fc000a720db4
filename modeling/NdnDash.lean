import NdnDash.Core.Machine
import NdnDash.Core.Narrowing
import NdnDash.Core.Slices
import NdnDash.Core.Memory
import NdnDash.Core.Drain
import NdnDash.Core.Bytes
import NdnDash.Core.Text
import NdnDash.Server.DasServer
import NdnDash.Server.Answers
import NdnDash.Helpers.BlockStream
import NdnDash.Network.Chunk
import NdnDash.Network.Lifecycle
import NdnDash.Network.Delivery
import NdnDash.Ndn.Consumer
import NdnDash.Ndn.Transfer
import NdnDash.Ndn.Loss
import NdnDash.Player.Decoder
import NdnDash.Helpers.Path
import NdnDash.Xml.DomParser
import NdnDash.Xml.Document
import NdnDash.Xml.Dom
import NdnDash.Mpd.SegmentTemplate
import NdnDash.Mpd.Segment
import NdnDash.Mpd.RepresentationStream
import NdnDash.Mpd.BaseUrls
import NdnDash.Helpers.ByteList
import NdnDash.Player.MediaObjectBuffer
import NdnDash.Ndn.ByteRange
import NdnDash.Ndn.SegBuffer
import NdnDash.Core.NameUri
import NdnDash.Server.ContentDir
import NdnDash.Ndn.Naming
import NdnDash.Mpd.LiveEdge
import NdnDash.Mpd.PlayerStream
import NdnDash.Mpd.Initialization
import NdnDash.Player.DASHReceiver
import NdnDash.Core.Pieces
import NdnDash.Mpd.TemplateNames
import NdnDash.Mpd.MediaSegments
import NdnDash.Player.Buffering
import NdnDash.Core.Dispatch
import NdnDash.Mpd.Objects
import NdnDash.Xml.ToMPD
import NdnDash.Xml.Kept
import NdnDash.Xml.Lossless
import NdnDash.Helpers.Peek
import NdnDash.Mpd.TimelineElements
import NdnDash.Mpd.SegmentCount
import NdnDash.Player.Throughput
import NdnDash.Core.Search
import NdnDash.Core.Window
import NdnDash.Core.Mean
import NdnDash.Adaptation.Logic
import NdnDash.Adaptation.RateBase
import NdnDash.Adaptation.RateBufferBase
import NdnDash.Adaptation.QoeFair
import NdnDash.Core.Double
import NdnDash.Core.Binary64
import NdnDash.Core.Simpson
import NdnDash.Adaptation.Game
import NdnDash.Adaptation.GameUtility
import NdnDash.Adaptation.GameStatistics
import NdnDash.Adaptation.Manager
import NdnDash.Adaptation.LastIndex
import NdnDash.Player.PeriodSwitch
import NdnDash.Mpd.WidthTags
import NdnDash.Mpd.SegmentReferences
import NdnDash.Xml.Malformed
import NdnDash.Xml.AttributeFrames
import NdnDash.Core.Calendar
import NdnDash.Mpd.TimeResolver
import NdnDash.Network.ReadLoop
import NdnDash.Player.MediaObject
import NdnDash.Ndn.Histories
import NdnDash.Network.PersistentHttp
import NdnDash.Network.Pipelining
import NdnDash.Portable.ConditionVariable
import NdnDash.Helpers.Urls
import NdnDash.Adaptation.MovingStatistics
import NdnDash.Core.Monitor
import NdnDash.Player.BufferThreads
import NdnDash.Helpers.StreamThreads
import NdnDash.Network.StateThreads
import NdnDash.Player.Pipeline
import NdnDash.Player.Playback
import NdnDash.Player.Shutdown
import NdnDash.Core.Framing
import NdnDash.Wire.Tlv
import NdnDash.Wire.Block
import NdnDash.Wire.Encoder
import NdnDash.Wire.BlockHelpers
import NdnDash.Core.Shortlex
import NdnDash.Wire.Name
import NdnDash.Core.Marks
import NdnDash.Wire.Exclude
import NdnDash.Wire.Data
import NdnDash.Adaptation.Simulator
