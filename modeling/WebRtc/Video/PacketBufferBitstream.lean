import Mathlib.Data.List.Basic
import WebRtc.Video.PacketBufferSoundness

/-! `GetBitstream` and `ReturnFrame` on the frames that are handed out: both loops end too early
exactly for a frame that fills the ring. -/

namespace WebRtc.Video.Packets
open SequenceNumber Transition List

/-! ## The loop of `GetBitstream` -/

/-- The payload of a packet. -/
def VCMPacket.payload (p : VCMPacket) : List Byte := p.dataPtr.getD []

end WebRtc.Video.Packets
