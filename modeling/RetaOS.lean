import RetaOS.Lib.Loop
import RetaOS.Lib.Memory
import RetaOS.Lib.Blocks
import RetaOS.Lib.Linked
import RetaOS.Lib.CString
import RetaOS.Lib.PathMap
import RetaOS.Kheap.Defs
import RetaOS.Kheap.Header
import RetaOS.Kheap.Spec
import RetaOS.Kheap.Calls
import RetaOS.Kheap.Run
import RetaOS.Kheap.Integrity
import RetaOS.Pmm.Defs
import RetaOS.Pmm.Bitmap
import RetaOS.Pmm.Init
import RetaOS.Pmm.Run
import RetaOS.Pmm.MemoryInit
import RetaOS.Syscall.Stub
import RetaOS.Vfs.Defs
import RetaOS.Vfs.Tree
import RetaOS.Vfs.Lookup
import RetaOS.Initrd.Defs
import RetaOS.Initrd.Tree
import RetaOS.Initrd.Walk
import RetaOS.Initrd.Bounds
import RetaOS.Initrd.Decode
import RetaOS.Initrd.Read
import RetaOS.Initrd.Archive
import RetaOS.Initrd.RoundTrip
import RetaOS.Initrd.Resolution
import RetaOS.Elf.Defs
import RetaOS.Elf.Exec
import RetaOS.Pmm.Access
import RetaOS.Kheap.FirstUse
import RetaOS.Vfs.Create
import RetaOS.Vfs.Remove
import RetaOS.Vfs.Mount
import RetaOS.Vfs.Descriptors
import RetaOS.Vfs.AccessMode
import RetaOS.Initrd.Positions
import RetaOS.Syscall.Files
import RetaOS.Vfs.Identity
import RetaOS.Syscall.Streams
import RetaOS.Initrd.Interleaving
import RetaOS.Sched.Defs
import RetaOS.Sched.Queues
import RetaOS.Sched.RoundRobin
import RetaOS.Lib.Runs
import RetaOS.Sched.Run
import RetaOS.Sched.Consistency
import RetaOS.Sched.Bootstrap
import RetaOS.Sched.Current
import RetaOS.Sched.ThreadList
import RetaOS.Fat.Defs
import RetaOS.Fat.Directory
import RetaOS.Fat.Init
import RetaOS.Fat.Read
import RetaOS.Fat.Driver
import RetaOS.Fat.Mount
import RetaOS.Lib.Table
import RetaOS.Lib.Virtual
import RetaOS.Paging.Defs
import RetaOS.Paging.Tables
import RetaOS.Paging.Init
import RetaOS.Paging.Translation
import RetaOS.Exception.Stubs
import RetaOS.Keyboard.Defs
import RetaOS.Keyboard.Ring
import RetaOS.Console.Defs
import RetaOS.Console.Terminal
import RetaOS.Process.Defs
import RetaOS.Process.Running
import RetaOS.Fat.Load
import RetaOS.Fat.InitSafety
import RetaOS.Fat.ReadBounds
import RetaOS.Vfs.Listing
import RetaOS.Initrd.FromBlock
import RetaOS.Elf.Failure
import RetaOS.Elf.Models
import RetaOS.Kheap.FirstFit
import RetaOS.Pmm.Detected
import RetaOS.Fat.Walk
import RetaOS.Fat.Ends
import RetaOS.Fat.Cleanup
import RetaOS.Fat.InRange
import RetaOS.Fat.EndMarker
import RetaOS.Fat.ShortNames
import RetaOS.Fat.TopBits
import RetaOS.Fat.ReadTopBits
import RetaOS.Display.Defs
import RetaOS.Display.TagWalks
import RetaOS.Vfs.Resolution
import RetaOS.Vfs.Symlinks
import RetaOS.Vfs.LongPaths
import RetaOS.Initrd.Placement
import RetaOS.Vfs.SharedData
import RetaOS.Elf.ReadAll
import RetaOS.Elf.Segments
import RetaOS.Sched.Sleeping
import RetaOS.Sched.TimeSlice
import RetaOS.Sched.Processes
import RetaOS.Sched.ContextSwitch
import RetaOS.Ata.Drive
import RetaOS.Lib.Emission
import RetaOS.Lib.Numerals
import RetaOS.Stdio.Defs
import RetaOS.Stdio.Truncation
import RetaOS.Stdio.Decimals
import RetaOS.Stdio.Hexadecimals
import RetaOS.Stdio.Overrun
import RetaOS.Stdio.Context
import RetaOS.Display.FillRect
import RetaOS.Console.ReadLine
import RetaOS.Acpi.Tables
import RetaOS.Strings.Tokens
import RetaOS.Fs.Registry
import RetaOS.Initrd.Shape
import RetaOS.Gui.Defs
import RetaOS.Gui.Windows
import RetaOS.Lib.Objects
import RetaOS.Kheap.Objects
import RetaOS.Fs.Files
import RetaOS.Fat.Image
import RetaOS.Fat.Service
import RetaOS.Lib.Interrupts
import RetaOS.Interrupt.Irq
import RetaOS.Lib.Pic
import RetaOS.Lib.Protection
import RetaOS.Interrupt.Idt
import RetaOS.Gdt.Segments
import RetaOS.Lib.Canvas
import RetaOS.Gui.Paint
import RetaOS.Gui.Screen
import RetaOS.Process.Family
import RetaOS.Lib.Machine
import RetaOS.Keyboard.Typing
import RetaOS.Lib.Uart
import RetaOS.Serial.Driver
import RetaOS.Sched.Starvation
import RetaOS.Strings.Compare
import RetaOS.Shell.Defs
import RetaOS.Shell.Lines
import RetaOS.Shell.Session
