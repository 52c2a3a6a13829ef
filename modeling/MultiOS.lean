import MultiOS.Lib.Runs
import MultiOS.Lib.FirstMatch
import MultiOS.Lib.EveryMatch
import MultiOS.Lib.DistinctKeys
import MultiOS.Lib.Mutex
import MultiOS.Lib.Simulation
import MultiOS.Lib.Machine
import MultiOS.Lib.RoundRobin
import MultiOS.Lib.Assembly
import MultiOS.Lib.Extents
import MultiOS.Lib.Pages
import MultiOS.Lib.Outcome
import MultiOS.Lib.GuardedWrites
import MultiOS.Model.Memory
import MultiOS.Model.Kernel
import MultiOS.Model.Locks
import MultiOS.Model.Threads
import MultiOS.Model.Interrupt
import MultiOS.Model.Console
import MultiOS.Model.Boot
import MultiOS.Model.SectorAddress
import MultiOS.Model.DiskRead
import MultiOS.Model.MapFile
import MultiOS.Model.Loader
import MultiOS.Model.Config
import MultiOS.Model.Chain
import MultiOS.Memory.Accounting
import MultiOS.Memory.Refusal
import MultiOS.Memory.Shortcut
import MultiOS.Memory.Overflow
import MultiOS.Memory.Release
import MultiOS.Kernel.Steps
import MultiOS.Memory.Drift
import MultiOS.Kernel.Ownership
import MultiOS.Kernel.Reclaim
import MultiOS.Kernel.Leaks
import MultiOS.Kernel.ActiveProcess
import MultiOS.Kernel.Identity
import MultiOS.Kernel.ThreadTable
import MultiOS.Kernel.ThreadLife
import MultiOS.Kernel.RoundRobin
import MultiOS.Kernel.Passover
import MultiOS.Locks.SelfBlock
import MultiOS.Locks.SystemCall
import MultiOS.Threads.Steps
import MultiOS.Threads.Locks
import MultiOS.Threads.Atomic
import MultiOS.Threads.Safety
import MultiOS.Threads.Realize
import MultiOS.Menu.Input
import MultiOS.Menu.Dispatch
import MultiOS.Menu.Creation
import MultiOS.Menu.Shown
import MultiOS.Boot.Segments
import MultiOS.Boot.Interrupts
import MultiOS.Lilo.SectorAddress
import MultiOS.Lilo.DiskRead
import MultiOS.Lilo.Compact
import MultiOS.Lilo.Pages
import MultiOS.Lilo.Section
import MultiOS.Lilo.Load
import MultiOS.Lilo.KernelSize
import MultiOS.Lilo.SecondStage
import MultiOS.Lilo.RamDisk
import MultiOS.Lilo.ConfigText
import MultiOS.Lilo.ConfigTokens
import MultiOS.Lilo.ConfigItems
import MultiOS.Lilo.ConfigRead
import MultiOS.Lilo.ConfigEnd
import MultiOS.Lilo.TableCache
import MultiOS.Lilo.ChangeRules
import MultiOS.Lilo.DriveMap
