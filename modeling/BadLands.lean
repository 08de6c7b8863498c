import BadLands.Acpi.TableMapping
import BadLands.Devices.BlockLifetime
import BadLands.Devices.GptPlaces
import BadLands.Fs.NodeLifecycle
import BadLands.Interrupts.Idt
import BadLands.Interrupts.IoApic
import BadLands.Mm.HeapRequests
import BadLands.Mm.KernelHeapOrder
import BadLands.Mm.KernelHeapStorage
import BadLands.Mm.LargeBuffers
import BadLands.Mm.PhysicalMemoryLarge
import BadLands.Mm.SoftwareWalk
import BadLands.Mm.UserPagesHint
import BadLands.Sched.Dispatcher
import BadLands.Screen.Framebuffer
import BadLands.Shell.CommandContext
import BadLands.Usb.BulkOnlyStatus
import BadLands.Usb.CommandRing
import BadLands.Usb.DeviceAccess
import BadLands.Usb.DeviceRelease
import BadLands.Usb.EventRing
import BadLands.Usb.SendCommand
import BadLands.Mm.IOHeapCoalesce
import BadLands.Mm.KernelHeapFree
import BadLands.Mm.AddressSpaceRollback
import BadLands.Devices.Scsi
import BadLands.Shell.ListCommand
import BadLands.Devices.BootSector
import BadLands.Mm.MappingFlags
import BadLands.Mm.Utils
import BadLands.Fs.NpfsCreate
import BadLands.Fs.NpfsWrite
import BadLands.Sched.RoundRobin
import BadLands.Sched.TaskRemoval
import BadLands.Hid.ReportDelivery
import BadLands.Hid.KeyEvents
import BadLands.Hid.ReportDecoding
import BadLands.Usb.ControlTransfer
import BadLands.Usb.ConfigurationBounds
import BadLands.Format.LoaderNumbers
import BadLands.Pci.Capabilities
import BadLands.Pci.MemoryBars
import BadLands.Format.Vprintf
import BadLands.Interrupts.Madt
import BadLands.Format.Vsnprintf
import BadLands.Devices.Names
import BadLands.Loader.DescriptorSort
import BadLands.Loader.BootConfig
import BadLands.Loader.KernelBounds
import BadLands.Loader.LoaderWindow
import BadLands.Loader.WindowFrames
import BadLands.Mm.DemandMemory
import BadLands.Shell.Typing
import BadLands.Mm.HeapTasks
import BadLands.Usb.PortUpdater
