import Pandos.Answers
import Pandos.BinarySemaphore
import Pandos.Children
import Pandos.ClockTick
import Pandos.ClockWait
import Pandos.Conservation
import Pandos.Contexts
import Pandos.CpuTime
import Pandos.CreateProcess
import Pandos.Current
import Pandos.DeadPid
import Pandos.DoIo
import Pandos.Exits
import Pandos.Halting
import Pandos.Handover
import Pandos.Lines
import Pandos.Linked.Runs
import Pandos.Noninterference
import Pandos.Numbering
import Pandos.Outstanding
import Pandos.PassUp
import Pandos.Phase1.Calls
import Pandos.Phase1.Inheritance
import Pandos.Phase1.LinkCalls
import Pandos.Phase1.NsdPointers
import Pandos.Phase1.QueuePointers
import Pandos.Phase1.Reblocked
import Pandos.Phase1.SiblingPointers
import Pandos.Phase1.Utils
import Pandos.Priority
import Pandos.ProcessTree
import Pandos.RoundRobin
import Pandos.SoftBlock
import Pandos.Subtree
import Pandos.Terminal
import Pandos.Waiting
