import ZBasic.Clocked.Bits
import ZBasic.Clocked.Counter
import ZBasic.Clocked.Crc
import ZBasic.Clocked.Delivery
import ZBasic.Clocked.DigitArithmetic
import ZBasic.Clocked.Elastic
import ZBasic.Clocked.Framing
import ZBasic.Clocked.Latch
import ZBasic.Clocked.MixedRadix
import ZBasic.Clocked.OneAtATime
import ZBasic.Clocked.Ring
import ZBasic.Clocked.Run
import ZBasic.Clocked.RunLength
import ZBasic.Clocked.Serial
import ZBasic.Cpu.Alu
import ZBasic.Cpu.Arbiters
import ZBasic.Cpu.BackToBack
import ZBasic.Cpu.Busdelay
import ZBasic.Cpu.BusdelayStage
import ZBasic.Cpu.Cpuops
import ZBasic.Cpu.Dblfetch
import ZBasic.Cpu.DebugReads
import ZBasic.Cpu.Div
import ZBasic.Cpu.Division
import ZBasic.Cpu.DmaCopy
import ZBasic.Cpu.Idecode
import ZBasic.Cpu.InstructionCache
import ZBasic.Cpu.InterruptRuns
import ZBasic.Cpu.Jiffies
import ZBasic.Cpu.LineFill
import ZBasic.Cpu.Memops
import ZBasic.Cpu.MemoryAgreement
import ZBasic.Cpu.MemoryUnit
import ZBasic.Cpu.Mpyop
import ZBasic.Cpu.Peripherals
import ZBasic.Cpu.Pfcache
import ZBasic.Cpu.Pipemem
import ZBasic.Cpu.Quotients
import ZBasic.Cpu.Slowmpy
import ZBasic.Cpu.TimerRuns
import ZBasic.Cpu.Transfer
import ZBasic.Cpu.TransferRead
import ZBasic.Cpu.TransferWrite
import ZBasic.Cpu.Wbdmac
import ZBasic.Cpu.Zipsystem
import ZBasic.Host.AddressCodec
import ZBasic.Host.ChannelRuns
import ZBasic.Host.Channels
import ZBasic.Host.Commands
import ZBasic.Host.FlashWrite
import ZBasic.Host.Flashdrvr
import ZBasic.Host.Framing
import ZBasic.Host.Lclreadcode
import ZBasic.Host.Link
import ZBasic.Host.Netuart
import ZBasic.Host.ReadDictionary
import ZBasic.Host.Readidle
import ZBasic.Host.Readv
import ZBasic.Host.Readword
import ZBasic.Host.Resync
import ZBasic.Host.Returns
import ZBasic.Host.SectionList
import ZBasic.Host.SectionTable
import ZBasic.Host.Serving
import ZBasic.Host.Session
import ZBasic.Host.Ttybus
import ZBasic.Host.Window
import ZBasic.Host.WindowRuns
import ZBasic.Host.WriteDictionary
import ZBasic.Host.Zipelf
import ZBasic.Memory.Block
import ZBasic.Memory.Copy
import ZBasic.Memory.Nor
import ZBasic.Rtc.AlarmRuns
import ZBasic.Rtc.Bcd
import ZBasic.Rtc.Calendar
import ZBasic.Rtc.CountdownRuns
import ZBasic.Rtc.DateRuns
import ZBasic.Rtc.Epoch
import ZBasic.Rtc.Rtcalarm
import ZBasic.Rtc.Rtcbare
import ZBasic.Rtc.Rtcdate
import ZBasic.Rtc.Rtcstopwatch
import ZBasic.Rtc.Rtctimer
import ZBasic.Rtc.StopwatchRuns
import ZBasic.Rtc.TimeRuns
import ZBasic.Sdspi.BlockReception
import ZBasic.Sdspi.BlockTransmission
import ZBasic.Sdspi.CommandExchange
import ZBasic.Sdspi.Llsdspi
import ZBasic.Sdspi.ReadErrors
import ZBasic.Sdspi.SdBlock
import ZBasic.Sdspi.Sdspi
import ZBasic.Sdspi.Spicmd
import ZBasic.Sdspi.Spirxdata
import ZBasic.Sdspi.Spitxdata
import ZBasic.Sdspi.Transfers
import ZBasic.Wbscope.CaptureRuns
import ZBasic.Wbscope.CompressedRuns
import ZBasic.Wbscope.Recording
import ZBasic.Wbscope.Wbscopc
import ZBasic.Wbscope.Wbscope
import ZBasic.Wbuart.RoundTrip
import ZBasic.Wbuart.Rxuartlite
import ZBasic.Wbuart.Txuartlite
import ZBasic.Wbuart.Ufifo
import ZBasic.Wbubus.CharPath
import ZBasic.Wbubus.Compress
import ZBasic.Wbubus.ConsoleMux
import ZBasic.Wbubus.DebugBus
import ZBasic.Wbubus.Decompress
import ZBasic.Wbubus.Deword
import ZBasic.Wbubus.Exec
import ZBasic.Wbubus.Fifo
import ZBasic.Wbubus.Idleint
import ZBasic.Wbubus.Lines
import ZBasic.Wbubus.ReadCycle
import ZBasic.Wbubus.Readcw
import ZBasic.Wbubus.VectorRead
import ZBasic.Wbubus.Wbconsole
import ZBasic.Wbubus.Wbuinput
import ZBasic.Wbubus.WriteError
import ZBasic.Wbxbar.Addrdecode
import ZBasic.Wbxbar.Grants
import ZBasic.Wbxbar.Passage
import ZBasic.Wbxbar.Routing
import ZBasic.Wbxbar.Wbxbar
import ZBasic.Wishbone.Arbiter
import ZBasic.Wishbone.Memory
import ZBasic.Wishbone.Port
import ZBasic.Wishbone.Reads
import ZBasic.Wishbone.Skidbuffer
import ZBasic.Wishbone.Slave
import ZBasic.Wishbone.Stage
import ZBasic.Zlib.Cltz
import ZBasic.Zlib.Gettimeofday
import ZBasic.Zlib.Quotient64
import ZBasic.Zlib.Udiv
