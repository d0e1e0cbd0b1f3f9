import Adb.Bip.Units
import Adb.Bip.WakeUp
import Adb.Event.DispatchLoop
import Adb.Sysdeps.HandleTable
import Adb.Event.Pending
import Adb.Event.Waiters
import Adb.Sync.FileList
import Adb.Sync.Accesses
import Adb.Sync.Receive
import Adb.Sync.Listing
import Adb.Sync.Pull
import Adb.Sync.Push
import Adb.Sync.PushPath
import Adb.Sync.ListBuffer
import Adb.Transport.NetworkDevices
import Adb.Transport.LocalTable
import Adb.Transport.Ownership
import Adb.Transport.KickOnce
import Adb.Host.FlowControl
import Adb.Host.CloseAll
import Adb.Host.SocketIds
import Adb.Host.Dangling
import Adb.Auth.Daemon
import Adb.Auth.Gate
import Adb.Host.DirectWrite
import Adb.Host.ListenerTable
import Adb.Host.OnlineGate
import Adb.Host.Banner
import Adb.Host.LocalFd
import Adb.Host.Selection
import Adb.Host.NullPeer
import Adb.Host.EnqueueContract
import Adb.Host.ForwardStatus
import Adb.Host.TrackerView
import Adb.Host.StreamLookup
import Adb.Host.TcpDevices
import Adb.Host.Reassembly
import Adb.Client.HostCommand
import Adb.Client.Query
import Adb.Client.Version
import Adb.Host.ListingBuffer
import Adb.Lib.Layout
import Adb.Zip.Safety
import Adb.Zip.Archive
import Adb.Zip.Lookup
import Adb.Wire.Endpoint
import Adb.Wire.UsbReceive
import Adb.Wire.RoundTrip
import Adb.Usb.Discipline
import Adb.Usb.Descriptors
import Adb.Usb.Transfers
import Adb.Device.Framebuffer
import Adb.Device.Jdwp
import Adb.Device.JdwpQueue
import Adb.Device.JdwpTrackerRuns
import Adb.Client.Quote
import Adb.Client.CommandLine
import Adb.Client.EmulatorPort
import Adb.Client.Status
import Adb.Sync.Mkdirs
import Adb.Sync.CopyRemote
import Adb.Device.Backup
import Adb.Wire.Rwx
import Adb.Host.LogBuffers
import Adb.Host.PacketRuns
import Adb.Auth.Keys
import Adb.Auth.Outcome
import Adb.Utils
import Adb.Host.HonestDevice
