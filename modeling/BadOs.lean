import BadOs.Console
import BadOs.Cpu.Process
import BadOs.Data.BitRun
import BadOs.Fs.Area
import BadOs.Fs.Clusters
import BadOs.Fs.Detect
import BadOs.Fs.Vfs
import BadOs.Heap.MemoryMap
import BadOs.Heap.Owner
import BadOs.Keys
import BadOs.Ne2k.Boundary
import BadOs.Ne2k.Send
import BadOs.Net.Acknowledgement
import BadOs.Net.ArpTable
import BadOs.Net.Callbacks
import BadOs.Net.Completion
import BadOs.Net.Connections
import BadOs.Net.Devices
import BadOs.Net.Disclosure
import BadOs.Net.FlowControl
import BadOs.Net.HttpMessage
import BadOs.Net.Isolation
import BadOs.Net.Lifecycle
import BadOs.Net.Listeners
import BadOs.Net.PendingAck
import BadOs.Net.Ping
import BadOs.Net.ReceiveBuffer
import BadOs.Net.Resets
import BadOs.Net.Resolution
import BadOs.Net.Sequence
import BadOs.Net.Sizes
import BadOs.Net.Transmission
import BadOs.Net.Undelivered
import BadOs.Print
import BadOs.Rtc
import BadOs.Task.Interrupts
import BadOs.Task.Polling
import BadOs.Util.List
import BadOs.Util.MapRelease
