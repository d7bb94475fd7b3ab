import Pisces.Transition
import Pisces.Xbuf.Transfer
import Pisces.Xbuf.Channel
import Pisces.Xbuf.Exchange
import Pisces.Xbuf.Ownership
import Pisces.Xbuf.Integrity
import Pisces.Xbuf.Progress
import Pisces.Xbuf.Rpc
import Pisces.Lcall.Thread
import Pisces.Lcall.Stop
import Pisces.Lcall.Mailbox
import Pisces.Lcall.Complete
import Pisces.Lcall.Order
import Pisces.Ledger
import Pisces.Enclave.Lifecycle
import Pisces.Enclave.Status
import Pisces.Enclave.Channels
import Pisces.Enclave.Record
import Pisces.Ctrl.Ioctl
import Pisces.Ctrl.Agreement
import Pisces.User.Library
import Pisces.User.Exclusion
import Pisces.Chained
import Pisces.Util.Hashtable
import Pisces.Fs.Files
import Pisces.Fs.Registry
import Pisces.Pci.Iommu
import Pisces.Lcall.Dispatch
import Pisces.Fifo
import Pisces.Ringbuf
import Pisces.Enclave.Descriptors
import Pisces.Enclave.Console
import Pisces.Boot.Trampoline
import Pisces.Ctrl.Descriptor
import Pisces.Enclave.Teardown
import Pisces.Boot.Params
import Pisces.Bitfield
import Pisces.PageTable
import Pisces.Boot.Tables
import Pisces.Enclave.Reset
import Pisces.Pci.Wiring
import Pisces.Pci.Count
import Pisces.Pci.Attachment
import Pisces.Enclave.Map
import Pisces.Pci.Intx
import Pisces.Pci.Live
import Pisces.Text
import Pisces.User.Teardown
import Pisces.Lcall.Bounds
import Pisces.Xbuf.Quiet
import Pisces.Ctrl.Response
import Pisces.Packed
import Pisces.User.Image
import Pisces.Enclave.ConsoleRing
import Pisces.Assign
import Pisces.Fs.Allocation
import Pisces.Fs.Errors
import Pisces.Fs.Length
import Pisces.Xbuf.Interrupts
import Pisces.Xbuf.Length
import Pisces.Span
import Pisces.Pci.Coverage
import Pisces.Pci.Mapping
import Pisces.Pci.Resources
import Pisces.Pci.Balance
import Pisces.Pci.Names
import Pisces.Stable
import Pisces.Enclave.Blocks
import Pisces.Enclave.Bootmem
import Pisces.Enclave.Images
import Pisces.Enclave.Projection
import Pisces.Enclave.VmConsole
import Pisces.User.ImageBounds
import Pisces.User.Run
import Pisces.Util.Mkdir
import Pisces.Util.Queue
import Pisces.Sweep
import Pisces.Boot.Pgtables
import Pisces.Boot.Launch
import Pisces.Boot.Contents
import Pisces.Atomic
import Pisces.Lock
import Pisces.Ringbuf.Shared
import Pisces.Util.Dictionary
import Pisces.Xml.Accepted
import Pisces.Xml.Siblings
import Pisces.User.Config
import Pisces.User.Memory
import Pisces.User.Keys
