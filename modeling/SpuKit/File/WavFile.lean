import SpuKit.File.Pwrite
import SpuKit.File.WavHandle

/-!
# The contents of a WAV file

A file that is created, written to and closed without an error being reported
is the header with its sizes filled in, and then the samples in the order of
the calls.

## Main definitions

- `WavFile` — the contents are those of a WAV file with the given samples

## Main results

- `wavClose_cases` — what closing does to the file
- `wav_file_contents`
-/

namespace SpuKit

/-- The `uint32_t` at an offset -/
def le32At (bytes : List Byte) (off : Nat) : Nat :=
  (bytes.getD off 0).toNat + 0x100 * (bytes.getD (off + 1) 0).toNat +
    0x10000 * (bytes.getD (off + 2) 0).toNat + 0x1000000 * (bytes.getD (off + 3) 0).toNat

/-- A header with the sizes of the file, and the samples. -/
structure WavFile (samples : List (BitVec 16)) (content : List Byte) : Prop where
  header : content.take sizeofWaveHdr = (fixedHdr samples.length).bytes
  riffSize : le32At content 4 = content.length - 8
  dataSize : le32At content 40 = 2 * samples.length
  samples : content.drop sizeofWaveHdr = sampleBytes samples

theorem sampleBytes_length (samples : List (BitVec 16)) :
    (sampleBytes samples).length = 2 * samples.length := by
  induction samples with
  | nil => rfl
  | cons x samples ih =>
    rw [sampleBytes, List.flatMap_cons, List.length_append, ← sampleBytes, ih]
    show 2 + 2 * samples.length = 2 * (samples.length + 1)
    omega

/-- Four bytes of a number put together again. -/
theorem leBytes32_toNat (x : BitVec 32) :
    (x.setWidth 8 : Byte).toNat + 0x100 * ((x >>> 8).setWidth 8 : Byte).toNat +
      0x10000 * ((x >>> 16).setWidth 8 : Byte).toNat +
      0x1000000 * ((x >>> 24).setWidth 8 : Byte).toNat = x.toNat := by
  simp only [BitVec.toNat_setWidth, BitVec.toNat_ushiftRight, Nat.shiftRight_eq_div_pow]
  have hx := x.isLt
  omega

theorem wavFile_of_eq {samples : List (BitVec 16)} (hsize : 44 + 2 * samples.length < 2 ^ 32) :
    WavFile samples ((fixedHdr samples.length).bytes ++ sampleBytes samples) where
  header := List.take_left' (WaveHdr.bytes_length _)
  riffSize := by
    rw [List.length_append, WaveHdr.bytes_length, sampleBytes_length]
    apply (leBytes32_toNat _).trans
    show (BitVec.ofNat 32 (samples.length * 2 + sizeofWaveHdr - sizeofChunkHdr)).toNat = _
    rw [BitVec.toNat_ofNat, sizeofWaveHdr, sizeofChunkHdr]
    omega
  dataSize := by
    apply (leBytes32_toNat _).trans
    show (BitVec.ofNat 32 (samples.length * 2 + sizeofWaveHdr - sizeofWaveHdr)).toNat = _
    rw [BitVec.toNat_ofNat, sizeofWaveHdr]
    omega
  samples := List.drop_left' (WaveHdr.bytes_length _)

variable {fn : String} {os os₁ os₂ : Os} {es es₁ es₂ : List SysEvent} {wav : Wav} {block : Nat}
  {calls : List (List (BitVec 16))} {oks : List Bool} {fd : Int}

/-- While samples are written, the file and the buffer hold the header and the
    samples so far. -/
theorem wavSession_file (h : (wavSession fn calls).Returns os (some ⟨block, some wav⟩, oks) os₁ es)
    (hoks : ∀ ok ∈ oks, ok = true) :
    0 ≤ wav.buf.fd ∧ (∃ buf, wav.buf.buf = some buf) ∧
      wav.nrSamples = calls.flatten.length ∧
      ∃ content, content ++ wav.buf.held = wavHdr.bytes ++ sampleBytes calls.flatten ∧
        es.foldl (SysEvent.apply wav.buf.fd) ⟨[], 0⟩ = ⟨content, content.length⟩ := by
  obtain ⟨p, _, es₁, es₂, hcreate, hrest, rfl⟩ := Program.returns_bind.mp h
  rcases wavCreate_cases hcreate with ⟨errno, rest, -, rfl, rfl⟩ |
    ⟨handle, rest, -, rfl, -⟩ |
    ⟨handle, fd, buf, rest, wav₁, -, rfl, rfl, hfd, hbuf, hmax, hheld, hcount, rfl⟩
  · cases (Program.returns_pure.mp hrest).1
  · cases (Program.returns_pure.mp hrest).1
  · obtain ⟨⟨oks', wav'⟩, _, es₃, _, hwrites, hpure, rfl⟩ := Program.returns_bind.mp hrest
    obtain ⟨hret, rfl, rfl⟩ := Program.returns_pure.mp hpure
    cases hret
    have hpos : 0 ≤ wav₁.buf.fd := by rw [hfd]; exact Int.natCast_nonneg fd
    have hcur : wav₁.buf.cur ≤ wav₁.buf.max := by
      rw [← Bufwr.held_length, hheld, hmax]
      decide
    obtain ⟨hkind, ⟨hsame, -⟩, hdone⟩ := wavWrites_rule hpos hcur hwrites
    obtain ⟨hstream, hcount'⟩ := hdone hoks
    refine ⟨hsame.fd ▸ hpos, ⟨_, hsame.buf.trans hbuf⟩, by rw [hcount', hcount, Nat.zero_add],
      written wav₁.buf.fd es₃, hstream.trans (by rw [hheld]), ?_⟩
    rw [hsame.fd, List.append_nil, List.foldl_append]
    have hopen : [SysEvent.malloc sizeofWav (some os.blocks), .openFile fn (.ok fd),
        .malloc defaultBufSize (some (os.blocks + 1)), .memcpy 0 sizeofWaveHdr,
        .assertion true].foldl (SysEvent.apply wav₁.buf.fd) ⟨[], 0⟩ = ⟨[], 0⟩ := by
      simp [SysEvent.apply]
    rw [hopen]
    exact foldl_apply_writes hkind []

/-- However rewriting the header ends, what is behind it stays. -/
theorem header_behind {n : Nat} {ok : Bool} (hfd : 0 ≤ fd)
    (h : (fdPwrite fd 0 (fixedHdr n).bytes).Returns os ok os₁ es) (file : FileState) :
    (es.foldl (SysEvent.apply fd) file).content.drop sizeofWaveHdr =
      file.content.drop sizeofWaveHdr := by
  have hbehind := fdPwrite_behind hfd h file
  rwa [Nat.zero_add, WaveHdr.bytes_length] at hbehind

/-- **What closing does to the file.** When the bytes held and the header can be
    written, both are, the header over the start of the file, and the descriptor is
    closed, whatever `close` itself returns. Otherwise closing fails, and behind the
    header there is a beginning of what was to be there. -/
theorem wavClose_cases {buf : Nat} {ret : Bool} (content : List Byte) (hfd : 0 ≤ wav.buf.fd)
    (hbuf : wav.buf.buf = some buf) (h : (wavClose block wav).Returns os ret os₁ es) :
    let file := es.foldl (SysEvent.apply wav.buf.fd) ⟨content, content.length⟩
    (ClosesCleanly wav os.replies ∧ es.count (.close wav.buf.fd) = 1 ∧
      file.content.drop sizeofWaveHdr = (content ++ wav.buf.held).drop sizeofWaveHdr ∧
      ((∀ e ∈ es, e.isComplete = true) →
        file.content =
          overwrite (content ++ wav.buf.held) 0 (fixedHdr wav.nrSamples).bytes)) ∨
    (¬ ClosesCleanly wav os.replies ∧ ret = false ∧
      file.content.drop sizeofWaveHdr <+: (content ++ wav.buf.held).drop sizeofWaveHdr) := by
  obtain ⟨ret', _, es₁, es₂, hfinish, hfreed, rfl⟩ := Program.returns_bind.mp h
  obtain ⟨_, _, es₃, _, hfree, hpure, rfl⟩ := Program.returns_bind.mp hfreed
  obtain ⟨-, rfl⟩ := Program.returns_emit.mp hfree
  obtain ⟨rfl, -, rfl⟩ := Program.returns_pure.mp hpure
  rw [List.append_nil, List.foldl_append]
  obtain ⟨hcloses, rfl, f, hflush⟩ | ⟨hcloses, rfl, f, os', es₃, es₄, hflush, hpwrite, rfl⟩ |
    ⟨hcloses, f, os', os'', es₃, es₄, hflush, hpwrite, rfl⟩ := wavFinish_cases hfd hbuf hfinish
  · refine .inr ⟨hcloses, rfl, ?_⟩
    rw [foldl_apply_writes (bufwrFlush_rule hfd hflush).2.1]
    exact List.IsPrefix.drop
      ((List.prefix_append_right_inj _).mpr (bufwrFlush_begins hfd hflush)) _
  · obtain ⟨-, hkind, -, hdone⟩ := bufwrFlush_rule hfd hflush
    refine .inr ⟨hcloses, rfl, ?_⟩
    rw [List.foldl_append, foldl_apply_writes hkind, (hdone rfl).1]
    have hbehind := header_behind hfd hpwrite
      ⟨content ++ wav.buf.held, (content ++ wav.buf.held).length⟩
    exact hbehind ▸ List.prefix_rfl
  · obtain ⟨-, hkind, -, hdone⟩ := bufwrFlush_rule hfd hflush
    have hkind' := (fdPwrite_rule hfd hpwrite).2.1
    refine .inl ⟨hcloses, ?_, ?_, fun hcomplete => ?_⟩
    · have hflushed : es₃.count (.close wav.buf.fd) = 0 := count_eq_zero_of_not_resource
        (fun e he => SysEvent.not_isResource_of_isWrite (hkind e he)) rfl
      have hrewritten : es₄.count (.close wav.buf.fd) = 0 :=
        count_eq_zero_of_not_resource hkind' rfl
      simp [List.count_append, hflushed, hrewritten]
    · simp only [List.foldl_append]
      rw [foldl_apply_writes hkind, (hdone rfl).1]
      exact header_behind hfd hpwrite _
    · have hcomplete₄ : ∀ e ∈ es₄, e.isComplete = true := fun e he => hcomplete e (by simp [he])
      have hsize : (fixedHdr wav.nrSamples).bytes.length ≤ ssizeMax := by
        rw [WaveHdr.bytes_length]
        decide
      simp only [List.foldl_append]
      rw [foldl_apply_writes hkind, (hdone rfl).1,
        fdPwrite_complete hfd hsize hpwrite hcomplete₄]
      rfl

/-- Closing without an error writes what is held and then the header over the
    start of the file. -/
theorem wavClose_file {buf : Nat} (content : List Byte) (hfd : 0 ≤ wav.buf.fd)
    (hbuf : wav.buf.buf = some buf) (h : (wavClose block wav).Returns os true os₁ es)
    (hcomplete : ∀ e ∈ es, e.isComplete = true) :
    (es.foldl (SysEvent.apply wav.buf.fd) ⟨content, content.length⟩).content =
      overwrite (content ++ wav.buf.held) 0 (fixedHdr wav.nrSamples).bytes := by
  obtain ⟨-, -, -, hfile⟩ | ⟨-, hfalse, -⟩ := wavClose_cases content hfd hbuf h
  · exact hfile hcomplete
  · cases hfalse

/-- **A closed WAV file is its header and its samples.** A file is created,
    samples are written and it is closed, all calls report success, and the
    header is rewritten by one `pwrite`. Unless the sizes do not fit into the
    header, it then holds a header with the right sizes and the samples in
    order. -/
theorem wav_file_contents
    (hsession : (wavSession fn calls).Returns os (some ⟨block, some wav⟩, oks) os₁ es₁)
    (hoks : ∀ ok ∈ oks, ok = true) (hclose : (wavClose block wav).Returns os₁ true os₂ es₂)
    (hcomplete : ∀ e ∈ es₂, e.isComplete = true) (hsize : 44 + 2 * calls.flatten.length < 2 ^ 32) :
    WavFile calls.flatten (fileContent wav.buf.fd (es₁ ++ es₂)) := by
  obtain ⟨hfd, ⟨buf, hbuf⟩, hcount, content, hcontent, hfile⟩ := wavSession_file hsession hoks
  have hclosed := wavClose_file content hfd hbuf hclose hcomplete
  have hheaders : (fixedHdr wav.nrSamples).bytes.length = wavHdr.bytes.length := by
    rw [WaveHdr.bytes_length, WaveHdr.bytes_length]
  rw [fileContent, List.foldl_append, hfile, hclosed, hcontent, overwrite_zero, hheaders,
    List.drop_left, hcount]
  exact wavFile_of_eq hsize

/-- Two samples, with a short write and an interruption. -/
theorem wav_file_contents_two_samples :
    ∃ block wav oks os₁ es₁ os₂ es₂,
      (wavSession "a.wav" [[0x1234], [0x5678]]).Returns
        ⟨[.ok 0, .ok 3, .ok 0, .ok 40, .err .eintr, .ok 8, .ok 44, .ok 0], 0, fun _ _ => 0⟩
        (some ⟨block, some wav⟩, oks) os₁ es₁ ∧
      (wavClose block wav).Returns os₁ true os₂ es₂ ∧
      WavFile [0x1234, 0x5678] (fileContent wav.buf.fd (es₁ ++ es₂)) := by
  refine ⟨_, _, _, _, _, _, _, rfl, rfl, ?_⟩
  refine @wav_file_contents "a.wav"
    ⟨[.ok 0, .ok 3, .ok 0, .ok 40, .err .eintr, .ok 8, .ok 44, .ok 0], 0, fun _ _ => 0⟩
    _ _ _ _ _ _ [[0x1234], [0x5678]] _ rfl ?_ rfl ?_ (by decide)
  · simp
  · decide

end SpuKit
