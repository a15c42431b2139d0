import FreeMicroNix.Lib.Run
import FreeMicroNix.Lib.CountedLoop
import FreeMicroNix.Lib.LastWrite
import FreeMicroNix.Lib.WordStack
import FreeMicroNix.Lib.Sequence
import FreeMicroNix.Lib.PartialMemory
import FreeMicroNix.Lib.Records
import FreeMicroNix.Lib.FirstPass
import FreeMicroNix.Lib.RowShift
import FreeMicroNix.Lib.Interleaving
import FreeMicroNix.Lib.LabelledText
import FreeMicroNix.Lib.Deterministic
import FreeMicroNix.Types
import FreeMicroNix.Libc.Itoa
import FreeMicroNix.Libc.Numeral
import FreeMicroNix.Libc.Decimal
import FreeMicroNix.Libc.Strings
import FreeMicroNix.Libc.Strtok
import FreeMicroNix.Libc.TokenRuns
import FreeMicroNix.Libc.Streams
import FreeMicroNix.Libc.Strreverse
import FreeMicroNix.Libc.Reversal
import FreeMicroNix.Libc.Uitoa
import FreeMicroNix.Libc.Atoi
import FreeMicroNix.Libc.Unsigned
import FreeMicroNix.Libc.ItoaInMemory
import FreeMicroNix.Libc.Spans
import FreeMicroNix.Libc.Compare
import FreeMicroNix.Libc.Strstr
import FreeMicroNix.Libc.Copy
import FreeMicroNix.Libc.Strncpy
import FreeMicroNix.Libc.Append
import FreeMicroNix.Video.Vga
import FreeMicroNix.Video.Putch
import FreeMicroNix.Video.Scroll
import FreeMicroNix.Video.Text
import FreeMicroNix.Video.MemorySafety
import FreeMicroNix.Video.Column
import FreeMicroNix.Video.Layout
import FreeMicroNix.Video.Tail
import FreeMicroNix.Video.Buffers
import FreeMicroNix.Video.Kprintf
import FreeMicroNix.Video.KprintfInMemory
import FreeMicroNix.Video.Formats
import FreeMicroNix.Video.Cursor
import FreeMicroNix.Video.Clear
import FreeMicroNix.Video.Attributes
import FreeMicroNix.Video.Control
import FreeMicroNix.Video.Page
import FreeMicroNix.Gdt.Table
import FreeMicroNix.Gdt.KernelStack
import FreeMicroNix.Isa.Idt
import FreeMicroNix.Gdt.Descriptors
import FreeMicroNix.Gdt.TablesInMemory
import FreeMicroNix.Isa.Pic
import FreeMicroNix.Isa.Stubs
import FreeMicroNix.Isa.Interrupt
import FreeMicroNix.Isa.Masking
import FreeMicroNix.Isa.Dispatch
import FreeMicroNix.Isa.ExceptionDump
import FreeMicroNix.Isa.EndOfInterrupt
import FreeMicroNix.Isa.Vectors
import FreeMicroNix.Isa.Cpu
import FreeMicroNix.Isa.ContextSwitch
import FreeMicroNix.Isa.ContextFidelity
import FreeMicroNix.Isa.ModeSwitch
import FreeMicroNix.Timer.Load
import FreeMicroNix.Timer.Rate
import FreeMicroNix.Timer.Wait
import FreeMicroNix.Clock.Rtc
import FreeMicroNix.Clock.Update
import FreeMicroNix.Clock.Reread
import FreeMicroNix.Clock.Decode
import FreeMicroNix.Clock.Nmi
import FreeMicroNix.Boot.Paging
import FreeMicroNix.Boot.Loader
import FreeMicroNix.Boot.Stage1
import FreeMicroNix.Kernel.Main
import FreeMicroNix.Kernel.Commands
import FreeMicroNix.Kernel.Ready
import FreeMicroNix.Kernel.Boot
import FreeMicroNix.Kernel.Support
import FreeMicroNix.Kernel.InMemory
import FreeMicroNix.Lib.Cutting
import FreeMicroNix.Kernel.Granularity
import FreeMicroNix.Kernel.Faults
import FreeMicroNix.Isa.Segments
import FreeMicroNix.Kernel.Segments
import FreeMicroNix.Kernel.Schedule
import FreeMicroNix.Kernel.BootLog
import FreeMicroNix.Kernel.Reboot
