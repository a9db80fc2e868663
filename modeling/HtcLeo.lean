import HtcLeo.Uefi
import HtcLeo.Lib.Runs
import HtcLeo.Interrupt.Vic
import HtcLeo.Interrupt.Isolation
import HtcLeo.Interrupt.Enabled
import HtcLeo.Lib.BitMask
import HtcLeo.Sirc.Lines
import HtcLeo.Sirc.Dispatch
import HtcLeo.Sirc.Registration
import HtcLeo.Keypad.Bitmap
import HtcLeo.Keypad.KeyState
import HtcLeo.Lib.Memory
import HtcLeo.Lib.Prog
import HtcLeo.SdCard.Csd
import HtcLeo.SdCard.Mci
import HtcLeo.SdCard.Polling
import HtcLeo.SdCard.Prompt
import HtcLeo.SdCard.BlockIo
import HtcLeo.SdCard.Failures
import HtcLeo.SdCard.Controller
import HtcLeo.SdCard.Completion
import HtcLeo.SdCard.RightBytes
import HtcLeo.SdCard.Admission
import HtcLeo.I2c.Bus
import HtcLeo.I2c.Engine
import HtcLeo.I2c.Xfer
import HtcLeo.I2c.Framing
import HtcLeo.I2c.Buffers
import HtcLeo.I2c.Truthful
import HtcLeo.I2c.Inner
import HtcLeo.I2c.Nested
import HtcLeo.I2c.Progress
import HtcLeo.Keypad.Console
import HtcLeo.Keypad.Fifo
import HtcLeo.Keypad.Notify
import HtcLeo.Keypad.Press
import HtcLeo.Keypad.PressEvents
import HtcLeo.Gpio.Banks
import HtcLeo.Gpio.Pins
import HtcLeo.Gpio.Isr
import HtcLeo.Clock.Acpu
import HtcLeo.Clock.Switching
import HtcLeo.Clock.Pcom
import HtcLeo.Clock.Replies
import HtcLeo.Keypad.Led
import HtcLeo.Charging.MicroP
import HtcLeo.Charging.Charger
import HtcLeo.Charging.Settings
import HtcLeo.Atags.Tags
import HtcLeo.Atags.BootLinux
import HtcLeo.Atags.ParseAtags
import HtcLeo.Atags.RoundTrip
import HtcLeo.SdCard.Capacity
import HtcLeo.Touch.Device
import HtcLeo.Touch.Position
import HtcLeo.Touch.Status
import HtcLeo.Menu.Options
import HtcLeo.Menu.Selection
import HtcLeo.Smem.AllocEntry
import HtcLeo.Atags.Detection
import HtcLeo.SdCard.Initialize
import HtcLeo.Atags.Termination
import HtcLeo.Boot.AndroidKernel
import HtcLeo.Boot.Layout
import HtcLeo.Touch.Wakeup
import HtcLeo.Lib.Sampling
import HtcLeo.Timer.Gpt
import HtcLeo.Keypad.Timing
import HtcLeo.Timer.Period
import HtcLeo.Timer.RealTimeClock
import HtcLeo.Touch.Scaling
import HtcLeo.Menu.HexInput
import HtcLeo.Menu.HexRuns
import HtcLeo.Boot.SdDirectories
import HtcLeo.SdCard.Latch
import HtcLeo.SdCard.Recovery
import HtcLeo.SdCard.CardErrors
import HtcLeo.Lib.Pen
import HtcLeo.FrameBuffer.Fill
import HtcLeo.FrameBuffer.Terminal
import HtcLeo.FrameBuffer.Console
import HtcLeo.FrameBuffer.Bounds
import HtcLeo.FrameBuffer.Refinement
import HtcLeo.FrameBuffer.Interrupts
import HtcLeo.Lib.WideString
import HtcLeo.Boot.SavedDirectory
import HtcLeo.Lib.SignedWord
import HtcLeo.Charging.Gauge
import HtcLeo.Charging.FailedRead
import HtcLeo.Vibration.Timer
import HtcLeo.Lib.ArrayLoop
import HtcLeo.Smem.RamPtable
import HtcLeo.Lib.Segments
import HtcLeo.Smem.Strtok
import HtcLeo.Smem.ModemPartitions
import HtcLeo.Lib.Compaction
import HtcLeo.Tetris.Idle
import HtcLeo.Lib.Lcg
import HtcLeo.Tetris.Rand
import HtcLeo.Atags.Serial
import HtcLeo.Lib.Outcomes
import HtcLeo.SdCard.Atomic
import HtcLeo.SdCard.Disk
import HtcLeo.Keypad.Device
import HtcLeo.Keypad.Matrix
import HtcLeo.Keypad.Scan
import HtcLeo.Lib.Stores
import HtcLeo.SdCard.ReadBack
import HtcLeo.Lib.Layout
import HtcLeo.Lib.ByteStream
import HtcLeo.Nbh.Format
import HtcLeo.Nbh.Generate
import HtcLeo.Nbh.Extract
import HtcLeo.Nbh.RoundTrip
import HtcLeo.Nbh.CutShort
import HtcLeo.Nbh.Bitmap
