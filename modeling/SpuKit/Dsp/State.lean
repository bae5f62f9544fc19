import SpuKit.Dsp.Regs
import SpuKit.Dsp.Counters
import SpuKit.Lib.Traced

/-!
# State of the DSP

The static variables of `dsp.c`, the audio RAM it shares with the CPU, and the
events an instrumented sample passes through.

`aram` is read through an `int` index in one place of the source
(`brr_byte`), so the memory model says what lies behind the array as well: a
load at `0x10000 + k` returns `beyond k`. Whatever the linker put there, the
index itself is recorded.

## Main definitions

- `Mem`, `Mem.load` — audio RAM and what lies behind it
- `VState` — `struct vstate`
- `Dsp` — all static variables of `dsp.c`
- `VoiceEvent`, `Event` — instrumentation of `voice_run` and `next_sample`
-/

namespace SpuKit

/-- `uint8_t aram[0x10000]` and the bytes of the process image behind it. -/
structure Mem where
  aram : Word → Byte
  beyond : Nat → Byte

/-- `aram[index]` for an index that was not truncated to 16 bits. -/
def Mem.load (m : Mem) (index : Nat) : Byte :=
  if index < 0x10000 then m.aram (BitVec.ofNat 16 index) else m.beyond (index - 0x10000)

/-- `aram[addr] = byte` -/
def Mem.store (m : Mem) (addr : Word) (byte : Byte) : Mem :=
  { m with aram := Function.update m.aram addr byte }

/-- `read_aram_byte`, recording the index. -/
def readAramByte (m : Mem) (addr : Word) : Traced Nat Byte :=
  ⟨m.aram addr, [addr.toNat]⟩

/-- `read_aram_word`: both addresses are 16-bit. -/
def readAramWord (m : Mem) (addr : Word) : Traced Nat Word := do
  let hi ← readAramByte m (addr + 1)
  let lo ← readAramByte m addr
  pure (wordOf hi lo)

def writeAramWord (m : Mem) (addr val : Word) : Traced Nat Mem :=
  let m := m.store (addr + 1) ((val >>> 8).setWidth 8)
  let m := m.store addr (val.setWidth 8)
  ⟨m, [(addr + 1).toNat, addr.toNat]⟩

/-- `env_state_t` -/
inductive EnvState where
  | release
  | attack
  | decay
  | sustain
  deriving DecidableEq, Repr

def brrBufSz : Nat := 12

/-- `struct vstate` -/
@[ext]
structure VState where
  interpPos : Int
  env : Int
  srcnPtr : Word
  nextBrrAddr : Word
  brrAddr : Word
  pitch : Word
  envMode : EnvState
  brrHdr : Byte
  brrOff : Byte
  bufPos : Byte
  attackDelay : Byte
  buf : Fin 12 → Short

/-- The zero-initialised `struct vstate`. -/
def VState.zero : VState where
  interpPos := 0
  env := 0
  srcnPtr := 0
  nextBrrAddr := 0
  brrAddr := 0
  pitch := 0
  envMode := .release
  brrHdr := 0
  brrOff := 0
  bufPos := 0
  attackDelay := 0
  buf := fun _ => 0

/-- What an observer of one `voice_run` call sees. -/
inductive VoiceEvent where
  /-- `aram[index]` is read for the directory or for a block header -/
  | aram (index : Nat)
  /-- `aram[index]` is read as BRR data by `brr_byte` -/
  | brrByte (index : Nat)
  /-- `st->buf[index]` is read or written -/
  | ring (index : Int)
  /-- `gauss[index]` is read -/
  | gauss (index : Int)
  /-- `ctr_read(rate)` is called -/
  | rate (r : Nat)
  /-- an `xassert` is evaluated -/
  | assertion (holds : Bool)
  /-- an `unreachable()` arm is taken -/
  | unreachable
  /-- `brr_sample4` is entered with these `brr_addr` and `brr_off` -/
  | decode (addr : Word) (off : Byte)
  /-- `brr_sample4` stored these four samples -/
  | stored (samples : List Short)
  /-- `interpolate` used these four samples at this `interp_pos` -/
  | interpolate (pos : Int) (samples : List Short)
  /-- the key-on branch is taken -/
  | keyOn
  /-- the call returns `silence()` early -/
  | silent

/-- Record that an `unreachable()` arm was taken. -/
def unreachable {α : Type} (a : α) : Traced VoiceEvent α := ⟨a, [.unreachable]⟩

/-- `struct sample` -/
@[ext]
structure Sample where
  left : Short
  right : Short
  deriving DecidableEq

/-- `struct fat_sample`: room to accumulate before clamping. -/
@[ext]
structure FatSample where
  left : Int
  right : Int

def silence : Sample := ⟨0, 0⟩

def echoHistSize : Nat := 8

/-- The static variables of `dsp.c`. -/
@[ext]
structure Dsp where
  regs : Regs
  ctr : Counters
  vstate : Channel → VState
  kon : Byte
  koff : Byte
  toggle : Bool
  esa : Byte
  eon : Byte
  echoEnabled : Bool
  echoOffset : Word
  echoLength : Word
  echoPtr : Word
  echoHist : Fin 8 → Sample
  echoHistPos : Byte

/-- The static variables of `dsp.c` at the start of the process. -/
def Dsp.zero : Dsp where
  regs := fun _ => 0
  ctr := { internal := fun _ => 0, out := fun _ => 0 }
  vstate := fun _ => .zero
  kon := 0
  koff := 0
  toggle := false
  esa := 0
  eon := 0
  echoEnabled := false
  echoOffset := 0
  echoLength := 0
  echoPtr := 0
  echoHist := fun _ => silence
  echoHistPos := 0

/-- What an observer of one `next_sample` call sees. -/
inductive Event where
  /-- an event of `voice_run(i)` -/
  | voice (i : Channel) (e : VoiceEvent)
  /-- `aram[index]` is read or written by the echo unit -/
  | aram (index : Nat)
  /-- `echo_read_l` returned this word -/
  | echoReadL (val : Word)
  /-- `echo_read_r` returned this word -/
  | echoReadR (val : Word)
  /-- `echo_write_l` stored this sample -/
  | echoWriteL (val : Short)
  /-- `echo_write_r` stored this sample -/
  | echoWriteR (val : Short)

end SpuKit
