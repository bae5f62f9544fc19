import SpuKit.Apu.Ports
import SpuKit.Apu.TimerControl
import SpuKit.Apu.TimerOutput
import SpuKit.Disasm.Listing
import SpuKit.Disasm.Operands
import SpuKit.Dsp.AdsrStages
import SpuKit.Dsp.AramBounds
import SpuKit.Dsp.BlockChain
import SpuKit.Dsp.DecodeBrr
import SpuKit.Dsp.EchoDelay
import SpuKit.Dsp.EchoFir
import SpuKit.Dsp.EchoTail
import SpuKit.Dsp.GainRamps
import SpuKit.Dsp.IntRanges
import SpuKit.Dsp.Interpolation
import SpuKit.Dsp.KeyOn
import SpuKit.Dsp.MasterVolume
import SpuKit.Dsp.PrimedRing
import SpuKit.Dsp.Release
import SpuKit.Dsp.VoicesCommute
import SpuKit.File.BufferedWrites
import SpuKit.File.Capacity
import SpuKit.File.FailedWrites
import SpuKit.File.Pwrite
import SpuKit.File.Sink
import SpuKit.File.SpcFormat
import SpuKit.File.WavFile
import SpuKit.File.WavHandle
import SpuKit.Lib.Adder
import SpuKit.Lib.Agents
import SpuKit.Lib.DownStack
import SpuKit.Lib.Ring
import SpuKit.Lib.StepSystem
import SpuKit.Lib.Traced
import SpuKit.Player
import SpuKit.Snapshot
import SpuKit.SnapshotRom
import SpuKit.Spc700.AluBlock
import SpuKit.Spc700.Arithmetic
import SpuKit.Spc700.Branches
import SpuKit.Spc700.Calls
import SpuKit.Spc700.ClockRatios
import SpuKit.Spc700.Division
import SpuKit.Spc700.Execute
import SpuKit.Spc700.IplOverlay
import SpuKit.Spc700.MemoryForms
import SpuKit.Spc700.Modes
import SpuKit.Spc700.OneBit
import SpuKit.Spc700.RegisterLoads
import SpuKit.Spc700.Reset
import SpuKit.Spc700.SoundBlind
import SpuKit.Spc700.Stack
import SpuKit.Spc700.StoreLoad
import SpuKit.Spc700.TimerHistory
import SpuKit.Spc700.WordStep
