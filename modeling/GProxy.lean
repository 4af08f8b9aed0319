import GProxy.Lib.Machine
import GProxy.Lib.SortedInsert
import GProxy.Lib.WordBytes
import GProxy.Lib.Decimal
import GProxy.Lib.Window
import GProxy.GlobalUtils
import GProxy.ListUtils
import GProxy.Wire
import GProxy.Preceiver.Program
import GProxy.Preceiver.Lists
import GProxy.Preceiver.Delivery
import GProxy.Preceiver.Ownership
import GProxy.Preceiver.Confluence
import GProxy.Psender.Packets
import GProxy.System.Model
import GProxy.System.View
import GProxy.System.Transfer
import GProxy.Lib.StableInsert
import GProxy.Ritardatore.Queue
import GProxy.Ritardatore.Program
import GProxy.Ritardatore.Conservation
import GProxy.Preceiver.Backlog
import GProxy.Preceiver.Stopping
import GProxy.Preceiver.ShortWrites
import GProxy.System.RoundTrips
import GProxy.System.Interrupts
import GProxy.System.Ports
import GProxy.Lib.Memory
import GProxy.Psender.Copies
import GProxy.Psender.Pass
import GProxy.Psender.Numbers
import GProxy.Lib.LinkedRing
import GProxy.Pointers.Program
import GProxy.Pointers.Lists
import GProxy.Pointers.Refinement
import GProxy.Pointers.ForEach
import GProxy.System.Host
import GProxy.Preceiver.Accounts
import GProxy.InMemory.Contents
import GProxy.InMemory.Preceiver
import GProxy.InMemory.Callbacks
import GProxy.InMemory.Psender
import GProxy.Ritardatore.Delays
import GProxy.InMemory.Queue
import GProxy.InMemory.Ritardatore
import GProxy.InMemory.Host
import GProxy.Preceiver.Rounds
import GProxy.Psender.Rounds
import GProxy.System.Completion
