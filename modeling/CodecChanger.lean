import CodecChanger.Lib.Bits
import CodecChanger.Lib.Blocks
import CodecChanger.Lib.Bytes
import CodecChanger.Lib.Circular
import CodecChanger.Lib.Framing
import CodecChanger.Lib.Loop
import CodecChanger.Lib.MachineInt
import CodecChanger.Lib.OnesComplement
import CodecChanger.Lib.OrderedMap
import CodecChanger.Lib.Quantizer
import CodecChanger.Lib.SearchTree
import CodecChanger.Lib.Trace
import CodecChanger.Core.RateConverter
import CodecChanger.Core.AmrWb
import CodecChanger.Core.Sorter
import CodecChanger.Core.EventHandler
import CodecChanger.Core.EventLoop
import CodecChanger.Core.Sc
import CodecChanger.Core.UdpPacker
import CodecChanger.Core.UdpChecksum
import CodecChanger.Core.Rtp
import CodecChanger.Core.Upload
import CodecChanger.Core.Download
import CodecChanger.Core.ProcessLoop
import CodecChanger.Core.G711
import CodecChanger.Core.White
import CodecChanger.Core.Codec2
import CodecChanger.Core.CodecServer
import CodecChanger.Core.Md5
import CodecChanger.Core.Main
import CodecChanger.Theory.Sorter.Pending
import CodecChanger.Theory.Sorter.Ownership
import CodecChanger.Theory.Sorter.Delivery
import CodecChanger.Theory.Sorter.Synchronising
import CodecChanger.Theory.Sorter.Comparing
import CodecChanger.Theory.Sorter.Skipping
import CodecChanger.Theory.AmrWb.Termination
import CodecChanger.Theory.AmrWb.Bounds
import CodecChanger.Theory.AmrWb.RoundTrip
import CodecChanger.Theory.AmrWb.Repacking
import CodecChanger.Theory.AmrWb.BitLayout
import CodecChanger.Theory.AmrWb.White
import CodecChanger.Theory.AmrWb.Windows
import CodecChanger.Theory.Sc.Reports
import CodecChanger.Theory.Sc.Wire
import CodecChanger.Theory.Sc.Rejecting
import CodecChanger.Theory.Timers.Orphans
import CodecChanger.Theory.Timers.Arming
import CodecChanger.Theory.Timers.Iterators
import CodecChanger.Theory.Timers.Serving
import CodecChanger.Theory.Timers.Loading
import CodecChanger.Theory.Rtp.Headers
import CodecChanger.Theory.Udp.Addresses
import CodecChanger.Theory.Udp.Checksum
import CodecChanger.Theory.Udp.Parsing
import CodecChanger.Theory.Upload.Header
import CodecChanger.Theory.Upload.Packet
import CodecChanger.Theory.Upload.Numbering
import CodecChanger.Theory.Upload.Latch
import CodecChanger.Theory.Download.Stripping
import CodecChanger.Theory.Download.Layers
import CodecChanger.Theory.Download.Reframing
import CodecChanger.Theory.G711.Samples
import CodecChanger.Theory.G711.Quantization
import CodecChanger.Theory.G711.Companding
import CodecChanger.Theory.G711.RoundTrip
import CodecChanger.Theory.G711.Aliasing
import CodecChanger.Theory.G711.Silence
import CodecChanger.Theory.Md5.Updating
import CodecChanger.Theory.Md5.Streaming
import CodecChanger.Theory.Timers.Contract
import CodecChanger.Theory.Timers.Rearming
import CodecChanger.Theory.Timers.Looping
import CodecChanger.Theory.Codec2.Streaming
import CodecChanger.Theory.Codec2.Serving
import CodecChanger.Theory.Download.Posting
import CodecChanger.Theory.G711.Tandem
import CodecChanger.Theory.AmrWb.Datagrams
import CodecChanger.Theory.AmrWb.Encoding
import CodecChanger.Theory.AmrWb.Unpacking
import CodecChanger.Theory.G711.Library
import CodecChanger.Theory.Download.Transmission
import CodecChanger.Theory.Download.Speech
import CodecChanger.Theory.Udp.Verifying
import CodecChanger.Theory.Main.Reading
import CodecChanger.Theory.Main.Starting
import CodecChanger.Theory.Upload.Relaying
