import Klipper.Lib.IntBits
import Klipper.Lib.Transition
import Klipper.Lib.WrapClock
import Klipper.Lib.FifoMerge
import Klipper.Lib.Crc
import Klipper.Lib.Transducer
import Klipper.Lib.LinkedList
import Klipper.Lib.TwoSmallest
import Klipper.Lib.BinaryHeap
import Klipper.Lib.PyStr
import Klipper.Lib.Tiling
import Klipper.Lib.BitField
import Klipper.Lib.LittleEndian
import Klipper.Lib.Cells
import Klipper.Lib.BackPass
import Klipper.Protocol.Vlq
import Klipper.Protocol.MsgBlock
import Klipper.Protocol.Command
import Klipper.Protocol.Crc
import Klipper.Protocol.MsgId
import Klipper.Mcu.Board
import Klipper.Mcu.Stepper
import Klipper.Mcu.StepperPosition
import Klipper.Mcu.GpioCmds
import Klipper.Mcu.PwmCmds
import Klipper.Mcu.DigitalOutSafety
import Klipper.Mcu.PwmOutSafety
import Klipper.Mcu.Sched
import Klipper.Mcu.SchedList
import Klipper.Mcu.Endstop
import Klipper.Mcu.Trsync
import Klipper.Mcu.MoveQueue
import Klipper.Mcu.Buttons
import Klipper.Mcu.Tmcuart
import Klipper.Host.SerialQueue
import Klipper.Host.SerialQueueOrder
import Klipper.Host.SerialQueueReceive
import Klipper.Host.StepCompress
import Klipper.Host.StepCompressOverflow
import Klipper.Host.StepHistory
import Klipper.Host.StepHistoryFlush
import Klipper.Host.StepperSync
import Klipper.Protocol.FrameScan
import Klipper.Host.Trdispatch
import Klipper.Host.GCodeMove
import Klipper.Host.ConfigAutoSave
import Klipper.Host.Trapq
import Klipper.Host.Tmc
import Klipper.Host.TmcFields
import Klipper.Protocol.Transport
import Klipper.Host.TmcUart
import Klipper.Host.ClockSync
import Klipper.Host.VirtualSd
import Klipper.Mcu.CanSerial
import Klipper.Mcu.SerialIrq
import Klipper.Protocol.Dispatch
import Klipper.Mcu.StepperTiming
import Klipper.Mcu.StepperFull
import Klipper.Host.Lookahead
import Klipper.Host.LookaheadFlush
import Klipper.Host.LookaheadRun
import Klipper.Mcu.AnalogIn
