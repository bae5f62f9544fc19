import SpuKit.File.Bufwr

/-!
# WAV files

The WAV writer: a header with the sizes left out goes through a buffered writer
together with the samples, and is written again over itself when the file is
closed. Translated from `wav.c` for a little-endian host.

## Main definitions

- `WaveHdr`, `wavHdr` — the header
- `Wav`, `WavPtr` — `struct wav_s` and pointers to it
- `wavCreate`, `wavWriteSamples16`, `rewriteHdr`, `wavClose`
- `wavSession` — a file is created and samples are written

## Main results

- `wavCreate_cases` — the outcomes of `wav_create`
- `wavWrites_rule` — what the calls to write samples do
-/

namespace SpuKit

/-- `uint16_t` in memory -/
def leBytes16 (x : BitVec 16) : List Byte := [x.setWidth 8, (x >>> 8).setWidth 8]

/-- `uint32_t` in memory -/
def leBytes32 (x : BitVec 32) : List Byte :=
  [x.setWidth 8, (x >>> 8).setWidth 8, (x >>> 16).setWidth 8, (x >>> 24).setWidth 8]

/-- `fourcc_t` -/
structure Fourcc where
  a : Char
  b : Char
  c : Char
  d : Char

def Fourcc.bytes (x : Fourcc) : List Byte :=
  [.ofNat 8 x.a.toNat, .ofNat 8 x.b.toNat, .ofNat 8 x.c.toNat, .ofNat 8 x.d.toNat]

def Fourcc.riff : Fourcc := ⟨ 'R', 'I', 'F', 'F'⟩
def Fourcc.wave : Fourcc := ⟨ 'W', 'A', 'V', 'E'⟩
def Fourcc.fmt : Fourcc := ⟨ 'f', 'm', 't', ' '⟩
def Fourcc.data : Fourcc := ⟨ 'd', 'a', 't', 'a'⟩

structure ChunkHdr where
  fourcc : Fourcc
  size : BitVec 32

structure RiffHdr where
  hdr : ChunkHdr
  form : Fourcc

structure WaveFmt where
  hdr : ChunkHdr
  audioFmt : BitVec 16
  numChannels : BitVec 16
  sampleRate : BitVec 32
  byteRate : BitVec 32
  blockAlign : BitVec 16
  sampleBits : BitVec 16

structure WaveHdr where
  riff : RiffHdr
  fmt : WaveFmt
  data : ChunkHdr

def ChunkHdr.bytes (h : ChunkHdr) : List Byte := h.fourcc.bytes ++ leBytes32 h.size

def RiffHdr.bytes (h : RiffHdr) : List Byte := h.hdr.bytes ++ h.form.bytes

def WaveFmt.bytes (h : WaveFmt) : List Byte :=
  h.hdr.bytes ++ leBytes16 h.audioFmt ++ leBytes16 h.numChannels ++ leBytes32 h.sampleRate ++
    leBytes32 h.byteRate ++ leBytes16 h.blockAlign ++ leBytes16 h.sampleBits

def WaveHdr.bytes (h : WaveHdr) : List Byte := h.riff.bytes ++ h.fmt.bytes ++ h.data.bytes

/-- `sizeof(struct chunk_hdr)` -/
def sizeofChunkHdr : Nat := 8

/-- `sizeof(struct wave_hdr)` -/
def sizeofWaveHdr : Nat := 44

/-- `sizeof(struct wav_s)` -/
def sizeofWav : Nat := 32

/-- `HZ` -/
def wavHz : BitVec 32 := 32000

/-- `hdr` -/
def wavHdr : WaveHdr where
  riff := { hdr := { fourcc := .riff, size := 0 }, form := .wave }
  fmt :=
    { hdr := { fourcc := .fmt, size := 16 }
      audioFmt := 1
      numChannels := 2
      sampleRate := wavHz
      byteRate := wavHz * 2 * 2
      sampleBits := 16
      blockAlign := 2 }
  data := { fourcc := .data, size := 0 }

/-- `struct wav_s` -/
structure Wav where
  buf : Bufwr
  nrSamples : Nat

/-- A pointer to a `struct wav_s`: a block of memory, and what it holds. That
    is nothing before it is set up and after it is freed. -/
structure WavPtr where
  block : Nat
  obj : Option Wav

/-- `out_free` in `wav_create`, which then returns the pointer. -/
def wavOutFree (block : Nat) : SysM (Option WavPtr) := do
  free (some block)
  pure (some { block := block, obj := none })

def wavCreate (fn : String) : SysM (Option WavPtr) := do
  match ← malloc sizeofWav with
  | none => pure none
  | some wav =>
    match ← openFile fn with
    | .err _ => wavOutFree wav
    | .ok fd =>
      let buf ← bufwrInit fd 0
      if buf.buf = none then
        let _ ← closeFile fd
        wavOutFree wav
      else
        let (ok, buf) ← bufwrWrite buf wavHdr.bytes
        if ¬ ok then
          bufwrAbort buf
          wavOutFree wav
        else
          pure (some { block := wav, obj := some { buf := buf, nrSamples := 0 } })

/-- `wav_write_samples16` -/
def wavWriteSamples16 (wav : Wav) (sample : List (BitVec 16)) : SysM (Bool × Wav) := do
  let (ret, buf) ← bufwrWrite wav.buf (sample.flatMap leBytes16)
  if ¬ ret then
    pure (false, { wav with buf := buf })
  else
    pure (true, { wav with buf := buf, nrSamples := wav.nrSamples + sample.length })

/-- The header with the sizes filled in. -/
def fixedHdr (nrSamples : Nat) : WaveHdr :=
  let fileSize := nrSamples * 2 + sizeofWaveHdr
  { wavHdr with
    riff.hdr.size := .ofNat 32 (fileSize - sizeofChunkHdr)
    data.size := .ofNat 32 (fileSize - sizeofWaveHdr) }

def rewriteHdr (wav : Wav) : SysM Bool := fdPwrite wav.buf.fd 0 (fixedHdr wav.nrSamples).bytes

/-- The three steps of `_wav_close`. The writer is only closed when the two
    before succeeded. -/
def wavFinish (wav : Wav) : SysM Bool := do
  let (flushed, buf) ← bufwrFlush wav.buf
  if ¬ flushed then
    pure false
  else
    let rewritten ← rewriteHdr { wav with buf := buf }
    if ¬ rewritten then
      pure false
    else
      let (closed, _) ← bufwrClose buf false
      pure closed

/-- `_wav_close` -/
def wavClose (block : Nat) (wav : Wav) : SysM Bool := do
  let ret ← wavFinish wav
  free (some block)
  pure ret

/-- All the samples, with what the calls return. -/
def wavWrites : List (List (BitVec 16)) → Wav → SysM (List Bool × Wav)
  | [], wav => pure ([], wav)
  | sample :: calls, wav => do
    let (ok, wav) ← wavWriteSamples16 wav sample
    let (oks, wav) ← wavWrites calls wav
    pure (ok :: oks, wav)

/-- A file is created and samples are written. -/
def wavSession (fn : String) (calls : List (List (BitVec 16))) :
    SysM (Option WavPtr × List Bool) := do
  let p ← wavCreate fn
  match p with
  | some ⟨block, some wav⟩ =>
    let (oks, wav) ← wavWrites calls wav
    pure (some ⟨block, some wav⟩, oks)
  | _ => pure (p, [])

variable {fn : String} {os os' : Os} {es : List SysEvent} {p : Option WavPtr} {ok : Bool}
  {oks : List Bool} {wav wav' : Wav} {sample : List (BitVec 16)}
  {calls : List (List (BitVec 16))}

theorem WaveHdr.bytes_length (h : WaveHdr) : h.bytes.length = sizeofWaveHdr := rfl

theorem returns_wavOutFree {block : Nat} (h : (wavOutFree block).Returns os p os' es) :
    p = some ⟨block, none⟩ := by
  obtain ⟨_, _, _, _, -, hpure, rfl⟩ := Program.returns_bind.mp h
  exact (Program.returns_pure.mp hpure).1

/-- **The outcomes of `wav_create`**: no handle, a handle that was freed again,
    or a file with the header in its buffer. -/
theorem wavCreate_cases (h : (wavCreate fn).Returns os p os' es) :
    (∃ errno rest, os.replies = .err errno :: rest ∧ p = none ∧
      es = [.malloc sizeofWav none]) ∨
    (∃ handle rest, os.replies = .ok handle :: rest ∧ p = some ⟨os.blocks, none⟩ ∧
      ((∃ errno rest', rest = .err errno :: rest') ∨
        ∃ fd errno rest', rest = .ok fd :: .err errno :: rest')) ∨
    (∃ handle fd buf rest wav, os.replies = .ok handle :: .ok fd :: .ok buf :: rest ∧
      os' = { os with replies := rest, blocks := os.blocks + 2 } ∧
      p = some ⟨os.blocks, some wav⟩ ∧ wav.buf.fd = fd ∧ wav.buf.buf = some (os.blocks + 1) ∧
      wav.buf.max = defaultBufSize ∧ wav.buf.held = wavHdr.bytes ∧ wav.nrSamples = 0 ∧
      es = [.malloc sizeofWav (some os.blocks), .openFile fn (.ok fd),
        .malloc defaultBufSize (some (os.blocks + 1)), .memcpy 0 sizeofWaveHdr,
        .assertion true]) := by
  obtain ⟨_, _, _, es₁, hmalloc, hopened, rfl⟩ := Program.returns_bind.mp h
  rcases returns_malloc.mp hmalloc with ⟨handle, rest, hreplies, rfl, rfl, rfl⟩ |
    ⟨errno, rest, hreplies, rfl, rfl, rfl⟩
  · right
    obtain ⟨reply, _, _, es₂, hopen, hcreated, rfl⟩ := Program.returns_bind.mp hopened
    obtain ⟨rest₁, hreplies₁, rfl, rfl⟩ := returns_systemCall.mp hopen
    obtain rfl : rest = reply :: rest₁ := hreplies₁
    cases reply with
    | err errno =>
      exact .inl ⟨handle, _, hreplies, returns_wavOutFree hcreated, .inl ⟨errno, rest₁, rfl⟩⟩
    | ok fd =>
      obtain ⟨f, _, es₃, es₄, hinit, hwritten, rfl⟩ := Program.returns_bind.mp hcreated
      obtain ⟨block, hmalloc₂, hf⟩ := returns_bufwrInit.mp hinit
      have hbuf : f.buf = block := by rw [hf]
      have hfd : f.fd = fd := by rw [hf]
      have hcur : f.cur = 0 := by rw [hf]
      have hmax : f.max = defaultBufSize := by rw [hf]; rfl
      rcases returns_malloc.mp hmalloc₂ with ⟨buf, rest₂, hreplies₂, hblock, rfl, rfl⟩ |
        ⟨errno, rest₂, hreplies₂, hblock, rfl, rfl⟩
      · obtain rfl : rest₁ = .ok buf :: rest₂ := hreplies₂
        have hspace : wavHdr.bytes.length ≤ f.max - f.cur := by rw [hmax, hcur]; decide
        have hpos : 0 < f.max := by rw [hmax]; decide
        rw [if_neg (by simp [hbuf, hblock]), bufwrWrite_of_fits hspace hpos] at hwritten
        obtain ⟨⟨ok, f'⟩, _, es₅, es₆, hcopy, hpure, rfl⟩ := Program.returns_bind.mp hwritten
        obtain ⟨rfl, rfl, rfl, rfl⟩ := returns_bufwrCopy.mp hcopy
        obtain ⟨rfl, rfl, rfl⟩ := Program.returns_pure.mp hpure
        refine .inr ⟨handle, fd, buf, rest₂, ⟨f.copied wavHdr.bytes, 0⟩, hreplies, rfl, rfl, hfd,
          hbuf.trans hblock, hmax, ?_, rfl, ?_⟩
        · rw [Bufwr.held_copied, Bufwr.held_of_cur_eq_zero hcur, List.nil_append]
        · rw [hcur, hmax]
          rfl
      · obtain rfl : rest₁ = .err errno :: rest₂ := hreplies₂
        rw [if_pos (hbuf.trans hblock)] at hwritten
        obtain ⟨reply, _, es₅, es₆, -, hfreed, rfl⟩ := Program.returns_bind.mp hwritten
        exact .inl ⟨handle, _, hreplies, returns_wavOutFree hfreed,
          .inr ⟨fd, errno, rest₂, rfl⟩⟩
  · left
    obtain ⟨rfl, rfl, rfl⟩ := Program.returns_pure.mp hopened
    exact ⟨errno, rest, hreplies, rfl, rfl⟩

/-- The bytes of samples. -/
def sampleBytes (samples : List (BitVec 16)) : List Byte := samples.flatMap leBytes16

/-- **Step**: writing samples puts them after what was written and held, and
    counts them. -/
theorem wavWriteSamples16_rule (hfd : 0 ≤ wav.buf.fd) (hcur : wav.buf.cur ≤ wav.buf.max)
    (h : (wavWriteSamples16 wav sample).Returns os (ok, wav') os' es) :
    (∀ e ∈ es, e.isWrite = true) ∧
      (wav'.buf.SameBuffer wav.buf ∧ wav'.buf.cur ≤ wav.buf.max) ∧
      (ok = true → written wav.buf.fd es ++ wav'.buf.held = wav.buf.held ++ sampleBytes sample ∧
        wav'.nrSamples = wav.nrSamples + sample.length) := by
  obtain ⟨⟨ret, f⟩, _, es₁, _, hwrite, hpure, rfl⟩ := Program.returns_bind.mp h
  obtain ⟨-, hkind, hsame, hdone⟩ := bufwrWrite_rule hfd hcur hwrite
  cases ret with
  | true =>
    obtain ⟨hret, rfl, rfl⟩ := Program.returns_pure.mp hpure
    obtain ⟨rfl, rfl⟩ := Prod.mk.inj hret
    rw [List.append_nil]
    exact ⟨hkind, hsame, fun _ => ⟨(hdone rfl).1, rfl⟩⟩
  | false =>
    obtain ⟨hret, rfl, rfl⟩ := Program.returns_pure.mp hpure
    obtain ⟨rfl, rfl⟩ := Prod.mk.inj hret
    rw [List.append_nil]
    exact ⟨hkind, hsame, fun htrue => absurd htrue Bool.false_ne_true⟩

theorem wavWriteSamples16_begins (hfd : 0 ≤ wav.buf.fd) (hcur : wav.buf.cur ≤ wav.buf.max)
    (h : (wavWriteSamples16 wav sample).Returns os (ok, wav') os' es) :
    written wav.buf.fd es <+: wav.buf.held ++ sampleBytes sample := by
  obtain ⟨⟨ret, f⟩, _, es₁, _, hwrite, hpure, rfl⟩ := Program.returns_bind.mp h
  have hprefix := bufwrWrite_begins hfd hcur hwrite
  cases ret with
  | true =>
    obtain ⟨-, -, rfl⟩ := Program.returns_pure.mp hpure
    rwa [List.append_nil]
  | false =>
    obtain ⟨-, -, rfl⟩ := Program.returns_pure.mp hpure
    rwa [List.append_nil]

/-- **Run**: the samples of all calls. -/
theorem wavWrites_rule (hfd : 0 ≤ wav.buf.fd) (hcur : wav.buf.cur ≤ wav.buf.max)
    (h : (wavWrites calls wav).Returns os (oks, wav') os' es) :
    (∀ e ∈ es, e.isWrite = true) ∧
      (wav'.buf.SameBuffer wav.buf ∧ wav'.buf.cur ≤ wav.buf.max) ∧
      ((∀ ok ∈ oks, ok = true) →
        written wav.buf.fd es ++ wav'.buf.held = wav.buf.held ++ sampleBytes calls.flatten ∧
          wav'.nrSamples = wav.nrSamples + calls.flatten.length) := by
  induction calls generalizing wav os es oks with
  | nil =>
    obtain ⟨hret, rfl, rfl⟩ := Program.returns_pure.mp h
    obtain ⟨rfl, rfl⟩ := Prod.mk.inj hret
    exact ⟨by simp, ⟨.refl _, hcur⟩, fun _ => ⟨by simp [sampleBytes], rfl⟩⟩
  | cons sample calls ih =>
    obtain ⟨⟨ok, wav₁⟩, os₁, es₁, _, hsample, hrest, rfl⟩ := Program.returns_bind.mp h
    obtain ⟨⟨oks', wav₂⟩, os₂, es₂, _, hcalls, hpure, rfl⟩ := Program.returns_bind.mp hrest
    obtain ⟨hret, rfl, rfl⟩ := Program.returns_pure.mp hpure
    obtain ⟨rfl, rfl⟩ := Prod.mk.inj hret
    obtain ⟨hkind, ⟨hsame, hle⟩, hdone⟩ := wavWriteSamples16_rule hfd hcur hsample
    obtain ⟨hkind', ⟨hsame', hle'⟩, hdone'⟩ :=
      ih (hsame.fd ▸ hfd) (hsame.max.symm ▸ hle) hcalls
    rw [List.append_nil]
    refine ⟨fun e he => ?_, ⟨hsame'.trans hsame, hsame.max ▸ hle'⟩, fun hoks => ?_⟩
    · exact (List.mem_append.mp he).elim (hkind e) (hkind' e)
    · obtain ⟨hok, hoks'⟩ := List.forall_mem_cons.mp hoks
      obtain ⟨hstream, hcount⟩ := hdone hok
      obtain ⟨hstream', hcount'⟩ := hdone' hoks'
      rw [hsame.fd] at hstream'
      refine ⟨?_, ?_⟩
      · calc written wav.buf.fd (es₁ ++ es₂) ++ wav'.buf.held
            = written wav.buf.fd es₁ ++ (written wav.buf.fd es₂ ++ wav'.buf.held) := by simp
          _ = (written wav.buf.fd es₁ ++ wav₁.buf.held) ++ sampleBytes calls.flatten := by
            rw [hstream', List.append_assoc]
          _ = wav.buf.held ++ sampleBytes (sample :: calls).flatten := by
            rw [hstream]
            simp [sampleBytes]
      · rw [hcount', hcount, List.flatten_cons, List.length_append, Nat.add_assoc]

end SpuKit
