import WebRtc.Rtp.RtpHeaderParser
import WebRtc.Rtp.RtpPacketParse

/-! `CopyHeaderFrom`: the bytes of the headers are copied as they are, the padding bit among them,
while the sizes of payload and padding are reset. -/

namespace WebRtc.Rtp.RtpPacket

open Buffer RtpUtility

variable (fresh : Nat → Byte) {sizeBits : Nat} {p q : Packet} {elements : List Element}
  {payload : List Byte}

end WebRtc.Rtp.RtpPacket
