import WebRtc.Video.PacketBufferClear
import WebRtc.Video.PacketBufferBitstream
import WebRtc.Video.Vp9ReferenceSafety
import WebRtc.Video.FrameBufferAtomicity
import WebRtc.Video.FrameBufferDecodeOrder
import WebRtc.Rtcp.FeedbackRoundTrip
import WebRtc.Rtp.RtpExtensionRoom
import WebRtc.Rtp.RtpHeaderReuse
import WebRtc.Rtp.RtpHeaderCopy
import WebRtc.Rtp.ExtendedSequenceNumber
import WebRtc.Rtcp.FeedbackTimes
import WebRtc.Bwe.ProxyRuns
import WebRtc.Pc.DataChannelOpen
import WebRtc.Neteq.RedPayloadSplitter
import WebRtc.Call.BitrateBudget
import WebRtc.P2p.StunIntegrity
import WebRtc.Desktop.RegionEquality
import WebRtc.Rtcp.Nack
import WebRtc.Rtcp.BoundingSet
import WebRtc.H264.AnnexB
import WebRtc.Video.GenericReferences
import WebRtc.Rtp.FecPeeling
import WebRtc.Rtp.UlpfecShift
import WebRtc.Rtp.UlpfecReceiver
import WebRtc.Rtp.FlexfecNumbering
import WebRtc.H264.SpsRewriting
import WebRtc.Video.NackAssertion
import WebRtc.Video.SessionInfo
import WebRtc.Bwe.SendTimeHistory
import WebRtc.Video.ReferencePictures
import WebRtc.Neteq.DtmfBuffer
import WebRtc.Base.WrappingOrder
import WebRtc.Video.UnwrappingRuns
