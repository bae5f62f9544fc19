import SpuKit.Dsp.State
import SpuKit.File.BufferedWrites
import SpuKit.File.WavFile

/-!
# The recording

Every sample that the DSP outputs goes to `out.wav`, which is created for the
first of them. After a minute of samples the file is closed and the process
exits. The recorder is there once for the whole process: the samples of one
snapshot follow those of the one before.

## Main definitions

- `Recorder`, `Exit` — the variables of `_dsp_run32`, and how the process ends
- `recordSample`, `recordAll` — one sample, and all that come
- `Live` — the file while samples are written
- `Closed`, `BrokenOff` — what is left of it
- `Leaves` — what a program leaves once enough replies are there

## Main results

- `Live.write`, `Live.close` — what a sample and the end of the minute do
- `recordAll_rule` — the file after any number of samples
- `recording_ends` — a descriptor that never fails for good lets it end
- `recording` — a process that exits leaves the first minute in the file
-/

namespace SpuKit

/-- The file that is recorded to -/
def outWav : String := "out.wav"

/-- `32000 * SECONDS` -/
def sampleLimit : Nat := 32000 * 60

/-- How the process ends. -/
inductive Exit where
  /-- `exit(0)` -/
  | exited
  /-- `abort()` -/
  | aborted
  deriving DecidableEq

/-- The static variables of `_dsp_run32`. -/
structure Recorder where
  wav : Option WavPtr
  nrSamples : BitVec 32

/-- The recorder at the start of the process. -/
def Recorder.init : Recorder where
  wav := none
  nrSamples := 0

/-- `_dsp_run32` with an open file. -/
def recordInto (block : Nat) (wav : Wav) (sample : Sample) (nrSamples : BitVec 32) :
    SysM (Recorder ⊕ Exit) := do
  let (ok, wav) ← wavWriteSamples16 wav [sample.left, sample.right]
  if ¬ ok then
    pure (.inr .aborted)
  else
    let nrSamples := nrSamples + 1
    if sampleLimit ≤ nrSamples.toNat then
      let closed ← wavClose block wav
      pure (.inr (if closed then .exited else .aborted))
    else
      pure (.inl { wav := some ⟨block, some wav⟩, nrSamples := nrSamples })

/-- `if (wav == NULL) wav = wav_create("out.wav")` -/
def openRecording (wav : Option WavPtr) : SysM (Option WavPtr) :=
  if wav.isNone then wavCreate outWav else pure wav

/-- `_dsp_run32`, from the sample on. Without a file the pointer is `NULL` or was
    freed, and the behaviour is not defined. -/
def recordSample (sample : Sample) (r : Recorder) : SysM (Recorder ⊕ Exit) := do
  match ← openRecording r.wav with
  | some ⟨block, some wav⟩ => recordInto block wav sample r.nrSamples
  | _ => Program.stop

/-- The samples of a process, until it ends. -/
def recordAll : List Sample → Recorder → SysM (Recorder ⊕ Exit)
  | [], r => pure (.inl r)
  | sample :: samples, r => do
    match ← recordSample sample r with
    | .inl r => recordAll samples r
    | .inr e => pure (.inr e)

/-- The samples in the order they go to the file. -/
def interleaved (samples : List Sample) : List (BitVec 16) :=
  samples.flatMap fun s => [s.left, s.right]

theorem interleaved_length (samples : List Sample) :
    (interleaved samples).length = 2 * samples.length := by
  induction samples with
  | nil => rfl
  | cons s samples ih =>
    show (interleaved samples).length + 2 = 2 * (samples.length + 1)
    omega

theorem interleaved_append (samples : List Sample) (sample : Sample) :
    interleaved (samples ++ [sample]) = interleaved samples ++ [sample.left, sample.right] :=
  List.flatMap_append ..

/-- The samples so far are in the file and in the buffer, behind the header. -/
structure Live (samples : List Sample) (wav : Wav) (es : List SysEvent) : Prop where
  opened : ∃ fd : Nat, wav.buf.fd = fd ∧ SysEvent.openFile outWav (.ok fd) ∈ es
  unclosed : es.count (.close wav.buf.fd) = 0
  buf : ∃ block, wav.buf.buf = some block
  fits : wav.buf.cur ≤ wav.buf.max
  max : wav.buf.max = defaultBufSize
  counted : wav.nrSamples = (interleaved samples).length
  file : ∃ content, content ++ wav.buf.held = wavHdr.bytes ++ sampleBytes (interleaved samples) ∧
    es.foldl (SysEvent.apply wav.buf.fd) ⟨[], 0⟩ = ⟨content, content.length⟩

/-- What a closed recording is: the samples behind a header, which has the right
    sizes unless it was written in pieces, in a file that was closed once. -/
def Closed (samples : List Sample) (es : List SysEvent) : Prop :=
  ∃ fd : Nat, SysEvent.openFile outWav (.ok fd) ∈ es ∧ es.count (.close fd) = 1 ∧
    (fileContent fd es).drop sizeofWaveHdr = sampleBytes (interleaved samples) ∧
    ((∀ e ∈ es, e.isComplete = true) → WavFile (interleaved samples) (fileContent fd es))

/-- What is left of a recording that is broken off: behind the header there is a
    beginning of the samples. -/
def BrokenOff (samples : List Sample) (es : List SysEvent) : Prop :=
  ∃ fd : Nat, SysEvent.openFile outWav (.ok fd) ∈ es ∧
    (fileContent fd es).drop sizeofWaveHdr <+: sampleBytes (interleaved samples)

theorem Closed.brokenOff {samples : List Sample} {es : List SysEvent} (h : Closed samples es) :
    BrokenOff samples es := by
  obtain ⟨fd, hopen, -, hsamples, -⟩ := h
  exact ⟨fd, hopen, hsamples ▸ List.prefix_rfl⟩

/-- A beginning of some samples is one of more of them. -/
theorem BrokenOff.mono {samples samples' : List Sample} {es : List SysEvent}
    (h : BrokenOff samples es) (hle : samples <+: samples') : BrokenOff samples' es := by
  obtain ⟨fd, hopen, hprefix⟩ := h
  exact ⟨fd, hopen, hprefix.trans ((hle.flatMap _).flatMap _)⟩

variable {os os' : Os} {es es' : List SysEvent} {wav wav' : Wav} {block : Nat}
  {samples : List Sample} {sample : Sample}

namespace Live

theorem nonneg (h : Live samples wav es) : 0 ≤ wav.buf.fd := by
  obtain ⟨fd, hfd, -⟩ := h.opened
  rw [hfd]
  exact Int.natCast_nonneg fd

/-- **Create** -/
theorem create (h : (wavCreate outWav).Returns os (some ⟨block, some wav⟩) os' es) :
    Live [] wav es := by
  rcases wavCreate_cases h with ⟨_, _, -, hnone, -⟩ | ⟨_, _, -, hfreed, -⟩ |
    ⟨handle, fd, buf, rest, wav₁, -, -, hp, hfd, hbuf, hmax, hheld, hcount, rfl⟩
  · cases hnone
  · cases hfreed
  · cases hp
    refine ⟨⟨fd, hfd, by simp⟩, rfl, ⟨_, hbuf⟩, ?_, hmax, hcount, [], ?_, ?_⟩
    · rw [← Bufwr.held_length, hheld, hmax]
      decide
    · rw [hheld]
      exact (List.append_nil _).symm
    · simp [SysEvent.apply]

/-- The stream behind the samples so far. -/
theorem stream {content : List Byte}
    (h : content ++ wav.buf.held = wavHdr.bytes ++ sampleBytes (interleaved samples)) :
    content ++ (wav.buf.held ++ sampleBytes [sample.left, sample.right]) =
      wavHdr.bytes ++ sampleBytes (interleaved (samples ++ [sample])) := by
  rw [← List.append_assoc, h, interleaved_append, List.append_assoc, sampleBytes, sampleBytes,
    sampleBytes, List.flatMap_append]

/-- **Step**: a sample goes behind the others. -/
theorem write (h : Live samples wav es)
    (hwrite : (wavWriteSamples16 wav [sample.left, sample.right]).Returns os (true, wav') os' es') :
    Live (samples ++ [sample]) wav' (es ++ es') := by
  obtain ⟨hkind, ⟨hsame, hle⟩, hdone⟩ := wavWriteSamples16_rule h.nonneg h.fits hwrite
  obtain ⟨hstream, hcount⟩ := hdone rfl
  obtain ⟨fd, hfd, hopen⟩ := h.opened
  obtain ⟨buf, hbuf⟩ := h.buf
  obtain ⟨content, hcontent, hfile⟩ := h.file
  have hnone : es'.count (.close wav.buf.fd) = 0 := count_eq_zero_of_not_resource
    (fun e he => SysEvent.not_isResource_of_isWrite (hkind e he)) rfl
  refine ⟨⟨fd, hsame.fd.trans hfd, List.mem_append_left _ hopen⟩, ?_, ⟨buf, hsame.buf.trans hbuf⟩,
    hsame.max.symm ▸ hle, hsame.max.trans h.max, ?_, content ++ written wav.buf.fd es', ?_, ?_⟩
  · rw [hsame.fd, List.count_append, h.unclosed, hnone]
  · rw [hcount, h.counted, interleaved_append, List.length_append]
  · rw [List.append_assoc, hstream]
    exact stream hcontent
  · rw [hsame.fd, List.foldl_append, hfile]
    exact foldl_apply_writes hkind content

/-- A sample that cannot be written breaks the recording off. -/
theorem write_failed (h : Live samples wav es)
    (hwrite : (wavWriteSamples16 wav [sample.left, sample.right]).Returns os (false, wav') os'
      es') : BrokenOff (samples ++ [sample]) (es ++ es') := by
  obtain ⟨hkind, -, -⟩ := wavWriteSamples16_rule h.nonneg h.fits hwrite
  have hprefix := wavWriteSamples16_begins h.nonneg h.fits hwrite
  obtain ⟨fd, hfd, hopen⟩ := h.opened
  obtain ⟨content, hcontent, hfile⟩ := h.file
  have hall : content ++ written wav.buf.fd es' <+:
      wavHdr.bytes ++ sampleBytes (interleaved (samples ++ [sample])) := by
    rw [← stream hcontent]
    exact (List.prefix_append_right_inj _).mpr hprefix
  refine ⟨fd, List.mem_append_left _ hopen, ?_⟩
  rw [fileContent, List.foldl_append, ← hfd, hfile, foldl_apply_writes hkind]
  have hbehind := hall.drop sizeofWaveHdr
  rwa [← WaveHdr.bytes_length wavHdr, List.drop_left] at hbehind

/-- **Close**: when the bytes held and the header can be written, the header goes over
    the one at the start of the file, whatever `close` itself returns. Otherwise the
    recording is broken off. -/
theorem close {ret : Bool} (h : Live samples wav es) (hsize : 44 + 4 * samples.length < 2 ^ 32)
    (hclose : (wavClose block wav).Returns os ret os' es') :
    ClosesCleanly wav os.replies ∧ Closed samples (es ++ es') ∨
      ¬ ClosesCleanly wav os.replies ∧ ret = false ∧ BrokenOff samples (es ++ es') := by
  obtain ⟨fd, hfd, hopen⟩ := h.opened
  obtain ⟨buf, hbuf⟩ := h.buf
  obtain ⟨content, hcontent, hfile⟩ := h.file
  have hlen := interleaved_length samples
  have hfixed : (fixedHdr wav.nrSamples).bytes.length = wavHdr.bytes.length := by
    rw [WaveHdr.bytes_length, WaveHdr.bytes_length]
  have hbehind : (content ++ wav.buf.held).drop sizeofWaveHdr =
      sampleBytes (interleaved samples) := by
    rw [hcontent, ← WaveHdr.bytes_length wavHdr, List.drop_left]
  have hcontents : fileContent fd (es ++ es') =
      (es'.foldl (SysEvent.apply wav.buf.fd) ⟨content, content.length⟩).content := by
    rw [fileContent, List.foldl_append, ← hfd, hfile]
  obtain ⟨hcloses, hcount, hsamples, hheader⟩ | ⟨hcloses, hret, hprefix⟩ :=
    wavClose_cases content h.nonneg hbuf hclose
  · refine .inl ⟨hcloses, fd, List.mem_append_left _ hopen, ?_, ?_, fun hcomplete => ?_⟩
    · rw [← hfd, List.count_append, h.unclosed, hcount]
    · rw [hcontents, hsamples, hbehind]
    · have hwav := hheader fun e he => hcomplete e (List.mem_append_right _ he)
      have hcontents' : fileContent fd (es ++ es') =
          (fixedHdr (interleaved samples).length).bytes ++ sampleBytes (interleaved samples) := by
        rw [hcontents, hwav, hcontent, overwrite_zero, hfixed, List.drop_left, h.counted]
      rw [hcontents']
      exact wavFile_of_eq (by omega)
  · refine .inr ⟨hcloses, hret, fd, List.mem_append_left _ hopen, ?_⟩
    rw [hcontents, ← hbehind]
    exact hprefix

end Live

/-- The recorder after some samples. -/
structure Recorder.After (samples : List Sample) (r : Recorder) (es : List SysEvent) : Prop where
  counted : r.nrSamples.toNat = samples.length
  below : samples.length < sampleLimit
  wav : match r.wav with
    | none => samples = [] ∧ es = []
    | some ⟨_, none⟩ => False
    | some ⟨_, some wav⟩ => Live samples wav es

theorem Recorder.After.init : Recorder.init.After [] [] where
  counted := rfl
  below := by decide
  wav := ⟨rfl, rfl⟩

/-- What a process leaves that recorded some samples. -/
def Outcome (samples : List Sample) (es : List SysEvent) : Recorder ⊕ Exit → Prop
  | .inl r => r.After samples es
  | .inr .exited => samples.length = sampleLimit ∧ Closed samples es
  | .inr .aborted => samples.length ≤ sampleLimit ∧ BrokenOff samples es

/-- The count of a recording that is not over does not wrap. -/
theorem nrSamples_succ {nrSamples : BitVec 32} (hcount : nrSamples.toNat = samples.length)
    (hbelow : samples.length < sampleLimit) : (nrSamples + 1).toNat = samples.length + 1 := by
  have hlimit : sampleLimit = 1920000 := rfl
  rw [BitVec.toNat_add, hcount]
  show (samples.length + 1) % 2 ^ 32 = samples.length + 1
  omega

theorem recordInto_rule {nrSamples : BitVec 32} {out : Recorder ⊕ Exit}
    (hlive : Live samples wav es) (hcount : nrSamples.toNat = samples.length)
    (hbelow : samples.length < sampleLimit)
    (h : (recordInto block wav sample nrSamples).Returns os out os' es') :
    Outcome (samples ++ [sample]) (es ++ es') out := by
  have hlength : (samples ++ [sample]).length = samples.length + 1 := List.length_append
  have hlimit : sampleLimit = 1920000 := rfl
  have hnext := nrSamples_succ hcount hbelow
  obtain ⟨⟨ok, wav'⟩, _, es₁, es₂, hwrite, hrest, rfl⟩ := Program.returns_bind.mp h
  cases ok with
  | false =>
    obtain ⟨rfl, -, rfl⟩ := Program.returns_pure.mp hrest
    rw [List.append_nil]
    exact ⟨by omega, hlive.write_failed hwrite⟩
  | true =>
    have hlive' := hlive.write hwrite
    simp only [not_true_eq_false, if_false, hnext] at hrest
    split at hrest
    · next hdone =>
      obtain ⟨closed, _, es₃, _, hclose, hpure, rfl⟩ := Program.returns_bind.mp hrest
      obtain ⟨rfl, -, rfl⟩ := Program.returns_pure.mp hpure
      rw [List.append_nil, ← List.append_assoc]
      have hended := hlive'.close (by omega) hclose
      cases closed with
      | false =>
        refine ⟨by omega, ?_⟩
        obtain ⟨-, hclosed⟩ | ⟨-, -, hbroken⟩ := hended
        · exact hclosed.brokenOff
        · exact hbroken
      | true =>
        refine ⟨by omega, ?_⟩
        obtain ⟨-, hclosed⟩ | ⟨-, hfalse, -⟩ := hended
        · exact hclosed
        · cases hfalse
    · next hmore =>
      obtain ⟨rfl, -, rfl⟩ := Program.returns_pure.mp hrest
      rw [List.append_nil]
      exact ⟨hnext.trans hlength.symm, by omega, hlive'⟩

/-- **Step** -/
theorem recordSample_rule {r : Recorder} {out : Recorder ⊕ Exit} (hr : r.After samples es)
    (h : (recordSample sample r).Returns os out os' es') :
    Outcome (samples ++ [sample]) (es ++ es') out := by
  obtain ⟨p, _, es₁, es₂, hopen, hrest, rfl⟩ := Program.returns_bind.mp h
  obtain ⟨wav, nrSamples⟩ := r
  obtain ⟨hcount, hbelow, hwav⟩ := hr
  cases wav with
  | none =>
    obtain ⟨rfl, rfl⟩ := hwav
    rcases p with _ | ⟨block, _ | wav⟩
    · exact absurd hrest Program.not_returns_stop
    · exact absurd hrest Program.not_returns_stop
    · have hlive : Live [] wav es₁ := Live.create hopen
      have hout := recordInto_rule hlive hcount hbelow hrest
      exact hout
  | some p' =>
    obtain ⟨rfl, -, rfl⟩ := Program.returns_pure.mp hopen
    obtain ⟨block, _ | wav⟩ := p'
    · exact absurd hwav id
    · exact recordInto_rule hwav hcount hbelow hrest

/-- **Run**: the process ends with one of the samples, or it goes on after all of
    them. -/
theorem recordAll_rule {r : Recorder} {out : Recorder ⊕ Exit} {more : List Sample}
    (hr : r.After samples es) (h : (recordAll more r).Returns os out os' es') :
    ∃ used rest, more = used ++ rest ∧ (out.isLeft = true → rest = []) ∧
      Outcome (samples ++ used) (es ++ es') out := by
  induction more generalizing samples r os es es' with
  | nil =>
    obtain ⟨rfl, -, rfl⟩ := Program.returns_pure.mp h
    refine ⟨[], [], rfl, fun _ => rfl, ?_⟩
    rw [List.append_nil, List.append_nil]
    exact hr
  | cons sample more ih =>
    obtain ⟨out₁, _, es₁, es₂, hsample, hrest, rfl⟩ := Program.returns_bind.mp h
    have hstep := recordSample_rule hr hsample
    cases out₁ with
    | inl r' =>
      obtain ⟨used, rest, rfl, hleft, hout⟩ := ih hstep hrest
      refine ⟨sample :: used, rest, rfl, hleft, ?_⟩
      rwa [List.append_assoc, List.append_assoc] at hout
    | inr e =>
      obtain ⟨rfl, -, rfl⟩ := Program.returns_pure.mp hrest
      refine ⟨[sample], more, rfl, fun hleft => Bool.noConfusion hleft, ?_⟩
      rwa [List.append_nil]

/-- A process that goes on after all samples does so after the first of them. -/
theorem returns_recordAll_append {r r' : Recorder} {more : List Sample}
    (h : (recordAll (samples ++ more) r).Returns os (.inl r') os' es) :
    ∃ r₁ os₁ es₁ es₂, (recordAll samples r).Returns os (.inl r₁) os₁ es₁ ∧
      (recordAll more r₁).Returns os₁ (.inl r') os' es₂ ∧ es = es₁ ++ es₂ := by
  induction samples generalizing r os es with
  | nil => exact ⟨r, os, [], es, Program.returns_pure.mpr ⟨rfl, rfl, rfl⟩, h, rfl⟩
  | cons sample samples ih =>
    obtain ⟨out, os₁, es₁, es₂, hsample, hrest, rfl⟩ := Program.returns_bind.mp h
    cases out with
    | inl r₁ =>
      obtain ⟨r₂, os₂, es₃, es₄, hfirst, hmore, rfl⟩ := ih hrest
      exact ⟨r₂, os₂, es₁ ++ es₃, es₄, Program.Returns.bind hsample hfirst, hmore,
        (List.append_assoc ..).symm⟩
    | inr e => cases (Program.returns_pure.mp hrest).1

-- ════════════════════════════════════════════════════════════════════════
-- A descriptor that never fails lets the recording end
-- ════════════════════════════════════════════════════════════════════════

variable {replies : Nat → Reply}

/-- A call takes one reply. -/
theorem settles_systemCall (record : Reply → SysEvent) (i : Nat) :
    Settles replies i (i + 1) (systemCall record) (replies i) := by
  refine ⟨Nat.le_succ i, fun n hn os hos => ⟨_, returns_systemCall.mpr ⟨_, ?_, rfl, rfl⟩⟩⟩
  rw [hos, segment_cons (by omega)]

theorem settles_emit (e : SysEvent) (i : Nat) : Settles replies i i (Program.emit e) () :=
  .of_returns fun _ => ⟨_, Program.returns_emit.mpr ⟨rfl, rfl⟩⟩

theorem settles_free (block : Option Nat) (i : Nat) : Settles replies i i (free block) () := by
  cases block with
  | none => exact .pure ()
  | some block => exact settles_emit _ i

theorem NeverFails.fdPwrite (h : NeverFails replies) {fd : Int} {buf : List Byte} (off : Nat)
    (hfd : 0 ≤ fd) (hbuf : 0 < buf.length) (i : Nat) :
    ∃ j, Settles replies i j (fdPwrite fd off buf) true := by
  obtain ⟨j, hij, hj⟩ := h.transfers buf.length i
  refine ⟨j, hij, fun n hn os hos => ?_⟩
  obtain ⟨es, hes, -⟩ := fdPwrite_of_transfers off hfd hbuf (hos ▸ hj n hn)
  exact ⟨es, hes⟩

/-- Two samples fit into the buffer, so they are never written past it. -/
theorem Live.write_settles (h : NeverFails replies) (hlive : Live samples wav es)
    (sample : Sample) (i : Nat) :
    ∃ j wav', Settles replies i j (wavWriteSamples16 wav [sample.left, sample.right])
      (true, wav') := by
  have hmax : 0 < wav.buf.max := by
    rw [hlive.max]
    decide
  have hbuffered : ¬ bypasses wav.buf.max wav.buf.cur
      ([sample.left, sample.right].flatMap leBytes16).length := by
    rw [hlive.max]
    rintro ⟨-, hle⟩
    have hfour : 2 * defaultBufSize ≤ 4 := hle
    exact absurd hfour (by decide)
  obtain ⟨j, f, hwrite⟩ := h.bufwrWrite hlive.nonneg hlive.fits hmax hbuffered i
  exact ⟨j, _, hwrite.bind (.pure _)⟩

theorem NeverFails.bufwrFlush (h : NeverFails replies) {f : Bufwr} (hfd : 0 ≤ f.fd) (i : Nat) :
    ∃ j f', Settles replies i j (bufwrFlush f) (true, f') ∧ f'.fd = f.fd := by
  by_cases hzero : f.cur = 0
  · refine ⟨i, f, ?_, rfl⟩
    rw [SpuKit.bufwrFlush, if_pos hzero]
    exact .pure _
  · obtain ⟨j, hflush⟩ := h.flush hfd (Nat.pos_of_ne_zero hzero) i
    refine ⟨j, { f with cur := 0 }, ?_, rfl⟩
    rwa [SpuKit.bufwrFlush, if_neg hzero]

/-- The reply to `close` decides what closing a writer returns. -/
theorem NeverFails.bufwrClose (h : NeverFails replies) {f : Bufwr} (hfd : 0 ≤ f.fd) (i : Nat) :
    ∃ j k ret, Settles replies i j (bufwrClose f false) ret ∧ ret.1 = (replies k).isOk := by
  obtain ⟨j, f', hflush, hsame⟩ := h.bufwrFlush hfd i
  have hfd' : f'.fd ≥ 0 := hsame.symm ▸ hfd
  have hclose : Settles replies j (j + 1) (closeSynced f'.fd false) (true && (replies j).isOk) :=
    (Settles.pure true).bind ((settles_systemCall _ j).bind (.pure _))
  refine ⟨j + 1, j, (true && (true && (replies j).isOk), f'), hflush.bind ?_, ?_⟩
  · simp only [if_pos hfd']
    exact hclose.bind ((settles_free _ _).bind (.pure _))
  · rw [Bool.true_and, Bool.true_and]

/-- The bytes held and the header are written. -/
theorem Live.close_settles (h : NeverFails replies) (hlive : Live samples wav es) (block i : Nat) :
    ∃ j k, Settles replies i j (wavClose block wav) (replies k).isOk ∧
      ∀ n, j ≤ n → ClosesCleanly wav (segment replies i n) := by
  obtain ⟨j, f, hflush, hsame⟩ := h.bufwrFlush hlive.nonneg i
  have hfd : 0 ≤ f.fd := hsame.symm ▸ hlive.nonneg
  have hlen : 0 < (fixedHdr wav.nrSamples).bytes.length := by
    rw [WaveHdr.bytes_length]
    decide
  obtain ⟨k, hpwrite⟩ := h.fdPwrite 0 hfd hlen j
  obtain ⟨l, m, ret, hclose, hret⟩ := h.bufwrClose hfd k
  have hrewrite : Settles replies j k (rewriteHdr { wav with buf := f }) true := hpwrite
  have hfinish : Settles replies i l (wavFinish wav) ret.1 :=
    hflush.bind (hrewrite.bind (hclose.bind (.pure _)))
  rw [hret] at hfinish
  refine ⟨l, m, hfinish.bind ((settles_free _ _).bind (.pure _)), fun n hn => ?_⟩
  have hkn : k ≤ n := hclose.1.trans hn
  obtain ⟨es₁, hes₁⟩ := hflush.2 n (hpwrite.1.trans hkn) ⟨segment replies i n, 0, fun _ _ => 0⟩ rfl
  obtain ⟨es₂, hes₂⟩ := hpwrite.2 n hkn ⟨segment replies j n, 0, fun _ _ => 0⟩ rfl
  exact ⟨_, _, (bufwrFlush_transfers_iff _ hlive.nonneg hes₁).mpr ⟨rfl, rfl⟩,
    (fdPwrite_transfers_iff _ hfd hlen hes₂).mpr ⟨rfl, rfl⟩⟩

/-- Once the replies from `i` to `j` are there, a run of the program that returns `a`
    takes events with `P` to events with `Q`. -/
def Leaves {α : Type} (replies : Nat → Reply) (i j : Nat) (x : SysM α) (a : α)
    (P Q : List SysEvent → Prop) : Prop :=
  ∀ n, j ≤ n → ∀ (os os' : Os) (es es' : List SysEvent), os.replies = segment replies i n → P es →
    x.Returns os a os' es' → Q (es ++ es')

section Leaves

variable {α β : Type} {i j k : Nat} {x : SysM α} {g : α → SysM β} {a : α} {b : β}
  {P Q R : List SysEvent → Prop}

/-- What holds of every run holds of these. -/
theorem Leaves.of_rule
    (h : ∀ {os os' es es'}, P es → x.Returns os a os' es' → Q (es ++ es')) :
    Leaves replies i j x a P Q := fun _ _ _ _ _ _ _ hP hx => h hP hx

/-- **Sequence** -/
theorem Leaves.bind (hx : Settles replies i j x a) (hg : Settles replies j k (g a) b)
    (h : Leaves replies i j x a P Q) (h' : Leaves replies j k (g a) b Q R) :
    Leaves replies i k (x >>= g) b P R := by
  intro n hn os os' es es' hos hP hret
  obtain ⟨a', os₁, es₁, es₂, hfirst, hsecond, rfl⟩ := Program.returns_bind.mp hret
  obtain ⟨es₃, hes₃⟩ := hx.2 n (hg.1.trans hn) os hos
  obtain ⟨rfl, rfl, rfl⟩ := hfirst.unique hes₃
  rw [← List.append_assoc]
  exact h' n hn _ _ _ _ rfl (h n (hg.1.trans hn) _ _ _ _ hos hP hes₃) hsecond

theorem Leaves.pure : Leaves replies i j (Pure.pure a : SysM α) a P P := by
  intro n _ os os' es es' _ hP hret
  obtain ⟨-, -, rfl⟩ := Program.returns_pure.mp hret
  rwa [List.append_nil]

end Leaves

/-- The process ends by `exit`, unless `close` is interrupted. -/
def Ended (replies : Nat → Reply) (out : Recorder ⊕ Exit) : Prop :=
  ∃ k, out = .inr (if (replies k).isOk then .exited else .aborted)

/-- **Step**: the process ends with the last sample of the minute, and with no
    sample before it. It then leaves all the samples in the file. -/
theorem recordInto_settles (h : NeverFails replies) (hlive : Live samples wav es)
    {nrSamples : BitVec 32} (hcount : nrSamples.toNat = samples.length)
    (hbelow : samples.length < sampleLimit) (block : Nat) (sample : Sample) (i : Nat) :
    ∃ j out, Settles replies i j (recordInto block wav sample nrSamples) out ∧
      ((∃ r, out = .inl r) ∧ samples.length + 1 < sampleLimit ∨
        Ended replies out ∧ samples.length + 1 = sampleLimit ∧
          Leaves replies i j (recordInto block wav sample nrSamples) out (Live samples wav)
            (Closed (samples ++ [sample]))) := by
  have hlimit : sampleLimit = 1920000 := rfl
  have hlength : (samples ++ [sample]).length = samples.length + 1 := List.length_append
  have hnext := nrSamples_succ hcount hbelow
  obtain ⟨j, wav', hwrite⟩ := hlive.write_settles h sample i
  by_cases hdone : sampleLimit ≤ samples.length + 1
  · obtain ⟨es', hes'⟩ := hwrite.2 j le_rfl ⟨segment replies i j, 0, fun _ _ => 0⟩ rfl
    obtain ⟨k, l, hclose, hcleanly⟩ := (hlive.write hes').close_settles h block j
    have hend : Settles replies j k (do
        let closed ← wavClose block wav'
        pure (.inr (if closed then .exited else .aborted)) : SysM (Recorder ⊕ Exit))
        (.inr (if (replies l).isOk then .exited else .aborted)) := hclose.bind (.pure _)
    have hcloses : Leaves replies j k (wavClose block wav') (replies l).isOk
        (Live (samples ++ [sample]) wav') (Closed (samples ++ [sample])) := by
      intro n hn os os' es es' hos hlive' hret
      obtain ⟨-, hclosed⟩ | ⟨hnot, -⟩ := hlive'.close (by omega) hret
      · exact hclosed
      · rw [hos] at hnot
        exact absurd (hcleanly n hn) hnot
    refine ⟨k, .inr (if (replies l).isOk then .exited else .aborted), ?_,
      .inr ⟨⟨l, rfl⟩, by omega, ?_⟩⟩
    · refine hwrite.bind ?_
      simp only [not_true_eq_false, if_false, hnext, if_pos hdone]
      exact hend
    · refine Leaves.bind (Q := Live (samples ++ [sample]) wav') hwrite ?_
        (.of_rule fun hlive hret => hlive.write hret) ?_
      · simp only [not_true_eq_false, if_false, hnext, if_pos hdone]
        exact hend
      · simp only [not_true_eq_false, if_false, hnext, if_pos hdone]
        exact Leaves.bind hclose (.pure _) hcloses .pure
  · refine ⟨j, .inl ⟨some ⟨block, some wav'⟩, nrSamples + 1⟩, hwrite.bind ?_,
      .inl ⟨⟨_, rfl⟩, by omega⟩⟩
    simp only [not_true_eq_false, if_false, hnext, if_neg hdone]
    exact .pure _

/-- **Run**: with an open file. -/
theorem recordAll_settles (h : NeverFails replies) {r : Recorder} {p : WavPtr}
    (hopen : r.wav = some p) (hr : r.After samples es) (more : List Sample) (i : Nat) :
    ∃ j out, Settles replies i j (recordAll more r) out ∧
      ((∃ r', out = .inl r') ∧ samples.length + more.length < sampleLimit ∨
        Ended replies out ∧ sampleLimit ≤ samples.length + more.length ∧
          Leaves replies i j (recordAll more r) out (r.After samples)
            (Closed ((samples ++ more).take sampleLimit))) := by
  induction more generalizing samples r p es i with
  | nil => exact ⟨i, .inl r, .pure _, .inl ⟨⟨r, rfl⟩, hr.below⟩⟩
  | cons sample more ih =>
    have hlength : (sample :: more).length = more.length + 1 := rfl
    have hlength' : (samples ++ [sample]).length = samples.length + 1 := List.length_append
    obtain ⟨wav, nrSamples⟩ := r
    obtain rfl : wav = some p := hopen
    obtain ⟨hcount, hbelow, hwav⟩ := hr
    obtain ⟨block, _ | wav⟩ := p
    · exact absurd hwav id
    obtain ⟨j, out, hinto, hcases⟩ := recordInto_settles h hwav hcount hbelow block sample i
    have hstep : Settles replies i j (recordSample sample ⟨some ⟨block, some wav⟩, nrSamples⟩)
        out := (Settles.pure _).bind hinto
    obtain ⟨⟨r', rfl⟩, hmore⟩ | ⟨⟨k, rfl⟩, hlast, hcloses⟩ := hcases
    · obtain ⟨es', hes'⟩ := hinto.2 j le_rfl ⟨segment replies i j, 0, fun _ _ => 0⟩ rfl
      have hout := recordInto_rule hwav hcount hbelow hes'
      have hopen' : ∃ p, r'.wav = some p := by
        rw [← Option.ne_none_iff_exists']
        intro hnone
        have hnil := hout.wav
        rw [hnone] at hnil
        exact List.append_ne_nil_of_right_ne_nil _ (List.cons_ne_nil _ _) hnil.1
      obtain ⟨p', hp'⟩ := hopen'
      obtain ⟨k, out', hrest, hcases'⟩ := ih hp' hout j
      refine ⟨k, out', hstep.bind hrest, ?_⟩
      rw [hlength', List.append_assoc, List.singleton_append] at hcases'
      obtain ⟨hgoes, hbelow'⟩ | ⟨hends, hreached, hleaves⟩ := hcases'
      · exact .inl ⟨hgoes, by omega⟩
      · exact .inr ⟨hends, by omega, .bind hstep hrest
          (.of_rule fun hafter hret => recordSample_rule hafter hret) hleaves⟩
    · refine ⟨j, _, hstep.bind (.pure _), .inr ⟨⟨k, rfl⟩, by omega, ?_⟩⟩
      have htake : (samples ++ sample :: more).take sampleLimit = samples ++ [sample] := by
        rw [List.append_cons, ← hlast, ← hlength', List.take_left]
      rw [htake]
      exact .bind hstep (.pure _) (.bind (.pure _) hinto .pure
        fun n hn os os' es es' hos hafter hret => hcloses n hn os os' es es' hos hafter.wav hret)
        .pure

/-- The file that is created when nothing fails, for which the first two blocks
    are allocated. -/
def createdWav (fd : Nat) (os : Os) : Wav where
  buf :=
    { buf := some (os.blocks + 1)
      bytes := blit wavHdr.bytes 0 (os.garbage (os.blocks + 1))
      cur := sizeofWaveHdr
      max := defaultBufSize
      fd := fd
      corrupted := false }
  nrSamples := 0

theorem wavCreate_of_replies (handle fd buf : Nat) (os : Os) (rest : List Reply) :
    ∃ es, (wavCreate outWav).Returns
      { os with replies := .ok handle :: .ok fd :: .ok buf :: rest }
      (some ⟨os.blocks, some (createdWav fd os)⟩)
      { os with replies := rest, blocks := os.blocks + 2 } es :=
  ⟨_, rfl⟩

/-- The file is created with the first sample. -/
theorem returns_recordAll_init {p : WavPtr} {os₁ : Os} {out : Recorder ⊕ Exit}
    (hcreate : (wavCreate outWav).Returns os (some p) os₁ es)
    (h : (recordAll (sample :: samples) ⟨some p, 0⟩).Returns os₁ out os' es') :
    (recordAll (sample :: samples) .init).Returns os out os' (es ++ es') := by
  obtain ⟨out₁, os₂, es₁, es₂, hsample, hrest, rfl⟩ := Program.returns_bind.mp h
  obtain ⟨p', _, es₃, es₄, hopen, hinto, rfl⟩ := Program.returns_bind.mp hsample
  obtain ⟨rfl, rfl, rfl⟩ := Program.returns_pure.mp hopen
  have hfirst : (recordSample sample .init).Returns os out₁ os₂ (es ++ es₄) :=
    Program.Returns.bind hcreate hinto
  rw [List.nil_append, ← List.append_assoc]
  exact hfirst.bind hrest

/-- The samples the process took, when it ended or has taken them all. -/
theorem Outcome.take {used rest : List Sample} {out : Recorder ⊕ Exit}
    (hleft : out.isLeft = true → rest = []) (h : Outcome used es out) :
    Outcome ((used ++ rest).take sampleLimit) es out := by
  match out, h with
  | .inl r, h =>
    obtain rfl := hleft rfl
    rw [List.append_nil, List.take_of_length_le h.below.le]
    exact h
  | .inr .exited, ⟨hlen, hclosed⟩ =>
    rw [← hlen, List.take_left]
    exact ⟨hlen, hclosed⟩
  | .inr .aborted, ⟨hle, hbroken⟩ =>
    refine ⟨List.length_take_le _ _, hbroken.mono ?_⟩
    rw [List.take_append, List.take_of_length_le hle]
    exact List.prefix_append _ _

/-- **Recording ends.** When the file can be created and its descriptor never
    fails for good, the process goes on for as long as there are fewer samples
    than a minute of them, and ends with the last one of the minute. The file is
    then closed and holds them all, whatever `close` itself returns. -/
theorem recording_ends (h : NeverFails replies) (samples : List Sample) (handle fd buf : Nat)
    (os : Os) :
    ∃ n₀, ∀ n, n₀ ≤ n → ∃ out os' es,
      (recordAll samples .init).Returns
        { os with replies := .ok handle :: .ok fd :: .ok buf :: segment replies 0 n } out os' es ∧
      (out.isLeft = true ↔ samples.length < sampleLimit) ∧
      Outcome (samples.take sampleLimit) es out ∧
      (out.isLeft = false → Ended replies out ∧ Closed (samples.take sampleLimit) es) := by
  cases samples with
  | nil =>
    refine ⟨0, fun n _ => ⟨.inl .init, _, [], rfl, ?_, .init, fun h => Bool.noConfusion h⟩⟩
    exact ⟨fun _ => by decide, fun _ => rfl⟩
  | cons sample samples =>
    obtain ⟨es₀, hes₀⟩ := wavCreate_of_replies handle fd buf os []
    have hr : ∀ {es os' rest}, (wavCreate outWav).Returns
        { os with replies := .ok handle :: .ok fd :: .ok buf :: rest }
        (some ⟨os.blocks, some (createdWav fd os)⟩) os' es →
        (Recorder.mk (some ⟨os.blocks, some (createdWav fd os)⟩) 0).After [] es :=
      fun hcreate => ⟨rfl, by decide, Live.create hcreate⟩
    obtain ⟨j, out, hall, hcases⟩ := recordAll_settles h rfl (hr hes₀) (sample :: samples) 0
    rw [List.length_nil, Nat.zero_add, List.nil_append] at hcases
    refine ⟨j, fun n hn => ?_⟩
    obtain ⟨es₁, hes₁⟩ := wavCreate_of_replies handle fd buf os (segment replies 0 n)
    obtain ⟨es₂, hes₂⟩ := hall.2 n hn
      { os with replies := segment replies 0 n, blocks := os.blocks + 2 } rfl
    have hinit := returns_recordAll_init hes₁ hes₂
    obtain ⟨used, rest, heq, hrest, hout⟩ := recordAll_rule .init hinit
    refine ⟨out, _, _, hinit, ?_, heq ▸ hout.take hrest, fun hended => ?_⟩
    · obtain ⟨⟨r, rfl⟩, hbelow⟩ | ⟨⟨k, rfl⟩, hreached, -⟩ := hcases
      · exact iff_of_true rfl hbelow
      · exact iff_of_false Bool.false_ne_true (by omega)
    · obtain ⟨⟨r, rfl⟩, -⟩ | ⟨hends, -, hleaves⟩ := hcases
      · cases hended
      · exact ⟨hends, hleaves n hn _ _ _ _ rfl (hr hes₁) hes₂⟩

/-- **The recording.** Whatever the calls return: a process that goes on has all its
    samples in the file and in the buffer, one that exits has closed a file with a
    minute of them, and one that aborts leaves a beginning of them. -/
theorem recording {out : Recorder ⊕ Exit}
    (h : (recordAll samples .init).Returns os out os' es) :
    ∃ used rest, samples = used ++ rest ∧ (out.isLeft = true → rest = []) ∧
      Outcome used es out :=
  recordAll_rule .init h

/-- A minute of samples, to a descriptor that takes a byte at a time. -/
theorem recording_minute :
    ∃ os out os' es, (recordAll (List.replicate sampleLimit ⟨1, 2⟩) .init).Returns os out os' es ∧
      out = .inr .exited ∧
      ∃ used rest, List.replicate sampleLimit (⟨1, 2⟩ : Sample) = used ++ rest ∧
        (out.isLeft = true → rest = []) ∧ Outcome used es out := by
  have hreplies : NeverFails fun _ => .ok 1 :=
    ⟨fun _ => .inr ⟨1, Nat.one_pos, rfl⟩, fun i => ⟨i, le_refl i, Reply.noConfusion⟩⟩
  obtain ⟨n, hn⟩ := recording_ends hreplies (List.replicate sampleLimit ⟨1, 2⟩) 0 3 0
    ⟨[], 0, fun _ _ => 0⟩
  obtain ⟨out, os', es, hrun, hleft, -, hends⟩ := hn n le_rfl
  have hended : ¬ out.isLeft = true := by
    rw [hleft, List.length_replicate]
    exact lt_irrefl _
  obtain ⟨⟨k, hexit⟩, -⟩ := hends (Bool.eq_false_iff.mpr hended)
  exact ⟨_, out, os', es, hrun, hexit, recording hrun⟩

end SpuKit
