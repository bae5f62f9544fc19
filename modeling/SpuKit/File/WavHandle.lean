import SpuKit.File.Wav

/-!
# The life cycle of a WAV handle

A program creates a WAV file, writes samples to it and closes it, while calls
to the operating system fail at any point. Creation cleans up, but then returns
the pointer it freed, unless it failed at the very first step. Closing frees the
handle, but leaves the buffer and the descriptor when the samples or the header
cannot be written.

## Main definitions

- `wavSession`, `wavEnd` — what the program does
- `LifeCycle` — everything acquired is released, once
- `CreatesCleanly`, `ClosesCleanly` — the replies on which it is

## Main results

- `wavFinish_cases` — how far closing gets
- `wav_life_cycle_iff`
-/

namespace SpuKit

/-- The file is closed. -/
def wavEnd : Option WavPtr → SysM (Option Bool)
  | some ⟨block, some wav⟩ => some <$> wavClose block wav
  | _ => pure none

/-- Does the call open this descriptor? -/
def SysEvent.opens (fd : Int) : SysEvent → Bool
  | .openFile _ (.ok ret) => (ret : Int) == fd
  | _ => false

/-- Does the call allocate this block? -/
def SysEvent.allocates (block : Nat) : SysEvent → Bool
  | .malloc _ (some b) => b == block
  | _ => false

/-- No descriptor is left open, and no memory is held. -/
def Released (es : List SysEvent) : Prop :=
  (∀ fd, es.countP (SysEvent.opens fd) = es.count (.close fd)) ∧
    ∀ block, es.countP (SysEvent.allocates block) = es.count (.free block)

/-- What `wav_create` returned, and the events up to the end of the file: after
    a failure it is `NULL` and nothing is left, and after a success the
    descriptor is closed once and the buffer and the handle are freed once. -/
def LifeCycle (es : List SysEvent) : Option WavPtr → Prop
  | none => Released es
  | some ⟨_, none⟩ => False
  | some ⟨block, some wav⟩ =>
    es.count (.close wav.buf.fd) = 1 ∧
      (∃ buf, wav.buf.buf = some buf ∧ es.count (.free buf) = 1) ∧ es.count (.free block) = 1

/-- The handle cannot be allocated, or nothing fails. -/
def CreatesCleanly (replies : List Reply) : Prop :=
  (∃ errno rest, replies = .err errno :: rest) ∨
    ∃ handle fd buf rest, replies = .ok handle :: .ok fd :: .ok buf :: rest

/-- The bytes held and the header can be written. -/
def ClosesCleanly (wav : Wav) (replies : List Reply) : Prop :=
  ∃ rest rest', Transfers wav.buf.cur replies rest ∧ Transfers sizeofWaveHdr rest rest'

variable {fn : String} {os os₁ os₂ : Os} {es es₁ es₂ : List SysEvent} {wav : Wav} {ret : Bool}

theorem count_eq_zero_of_not_resource {e : SysEvent} (hes : ∀ e ∈ es, e.isResource = false)
    (he : e.isResource = true) : es.count e = 0 := by
  refine List.count_eq_zero.mpr fun hmem => ?_
  rw [hes e hmem] at he
  exact Bool.false_ne_true he

/-- **The outcomes of closing**: the bytes held cannot be written, or the header
    cannot, or the writer is closed. -/
theorem wavFinish_cases {buf : Nat} (hfd : 0 ≤ wav.buf.fd) (hbuf : wav.buf.buf = some buf)
    (h : (wavFinish wav).Returns os ret os₁ es) :
    (¬ ClosesCleanly wav os.replies ∧ ret = false ∧
      ∃ f, (bufwrFlush wav.buf).Returns os (false, f) os₁ es) ∨
    (¬ ClosesCleanly wav os.replies ∧ ret = false ∧ ∃ f os' es₁ es₂,
      (bufwrFlush wav.buf).Returns os (true, f) os' es₁ ∧
      (fdPwrite wav.buf.fd 0 (fixedHdr wav.nrSamples).bytes).Returns os' false os₁ es₂ ∧
      es = es₁ ++ es₂) ∨
    (ClosesCleanly wav os.replies ∧ ∃ f os' os'' es₁ es₂,
      (bufwrFlush wav.buf).Returns os (true, f) os' es₁ ∧
      (fdPwrite wav.buf.fd 0 (fixedHdr wav.nrSamples).bytes).Returns os' true os'' es₂ ∧
      es = es₁ ++ es₂ ++ [.close wav.buf.fd, .free buf]) := by
  obtain ⟨⟨flushed, f⟩, os', es₁, _, hflush, hrest, rfl⟩ := Program.returns_bind.mp h
  have hflushes := fun rest => bufwrFlush_transfers_iff rest hfd hflush
  obtain ⟨-, -, ⟨hsame, -⟩, hdone⟩ := bufwrFlush_rule hfd hflush
  cases flushed with
  | false =>
    obtain ⟨rfl, rfl, rfl⟩ := Program.returns_pure.mp hrest
    rw [List.append_nil]
    refine .inl ⟨?_, rfl, f, hflush⟩
    rintro ⟨rest, rest', htransfers, -⟩
    exact Bool.false_ne_true ((hflushes rest).mp htransfers).1
  | true =>
    obtain ⟨-, hcur, -⟩ := hdone rfl
    obtain ⟨rewritten, os'', es₂, _, hpwrite, hrest', rfl⟩ := Program.returns_bind.mp hrest
    have hpwrite' : (fdPwrite f.fd 0 (fixedHdr wav.nrSamples).bytes).Returns os' rewritten os''
        es₂ := hpwrite
    rw [hsame.fd] at hpwrite'
    have hlen : 0 < (fixedHdr wav.nrSamples).bytes.length := by rw [WaveHdr.bytes_length]; decide
    have hpwrites := fun rest => fdPwrite_transfers_iff rest hfd hlen hpwrite'
    cases rewritten with
    | false =>
      obtain ⟨rfl, rfl, rfl⟩ := Program.returns_pure.mp hrest'
      rw [List.append_nil]
      refine .inr (.inl ⟨?_, rfl, f, os', es₁, es₂, hflush, hpwrite', rfl⟩)
      rintro ⟨rest, rest', htransfers, htransfers'⟩
      obtain ⟨-, rfl⟩ := (hflushes rest).mp htransfers
      exact Bool.false_ne_true ((hpwrites rest').mp htransfers').1
    | true =>
      obtain ⟨⟨closed, f'⟩, _, es₃, _, hclose, hpure, rfl⟩ := Program.returns_bind.mp hrest'
      obtain ⟨-, -, rfl⟩ := Program.returns_pure.mp hpure
      obtain rfl := bufwrClose_rule (hsame.fd ▸ hfd) hcur (hsame.buf.trans hbuf) hclose
      refine .inr (.inr ⟨⟨_, _, (hflushes _).mpr ⟨rfl, rfl⟩, (hpwrites _).mpr ⟨rfl, rfl⟩⟩, f, os',
        os'', es₁, es₂, hflush, hpwrite', ?_⟩)
      rw [← hsame.fd]
      simp

/-- The writer is closed just when the bytes held and the header can be written. -/
theorem wavFinish_resources {buf : Nat} (hfd : 0 ≤ wav.buf.fd) (hbuf : wav.buf.buf = some buf)
    (h : (wavFinish wav).Returns os ret os₁ es) :
    (ClosesCleanly wav os.replies ∧ ∃ es₀, (∀ e ∈ es₀, e.isResource = false) ∧
      es = es₀ ++ [.close wav.buf.fd, .free buf]) ∨
    (¬ ClosesCleanly wav os.replies ∧ ∀ e ∈ es, e.isResource = false) := by
  have hflushed : ∀ {ok os' f es}, (bufwrFlush wav.buf).Returns os (ok, f) os' es →
      ∀ e ∈ es, e.isResource = false := fun hflush e he =>
    SysEvent.not_isResource_of_isWrite ((bufwrFlush_rule hfd hflush).2.1 e he)
  obtain ⟨hcloses, -, f, hflush⟩ | ⟨hcloses, -, f, os', es₁, es₂, hflush, hpwrite, rfl⟩ |
    ⟨hcloses, f, os', os'', es₁, es₂, hflush, hpwrite, rfl⟩ := wavFinish_cases hfd hbuf h
  · exact .inr ⟨hcloses, hflushed hflush⟩
  · exact .inr ⟨hcloses, fun e he =>
      (List.mem_append.mp he).elim (hflushed hflush e) ((fdPwrite_rule hfd hpwrite).2.1 e)⟩
  · exact .inl ⟨hcloses, es₁ ++ es₂, fun e he =>
      (List.mem_append.mp he).elim (hflushed hflush e) ((fdPwrite_rule hfd hpwrite).2.1 e), rfl⟩

/-- What a file that is created and written to leaves to be released. -/
theorem wavSession_cases {calls : List (List (BitVec 16))} {p : Option WavPtr} {oks : List Bool}
    (h : (wavSession fn calls).Returns os (p, oks) os₁ es) :
    (p = none ∧ CreatesCleanly os.replies ∧ Released es) ∨
    (∃ block, p = some ⟨block, none⟩ ∧ ¬ CreatesCleanly os.replies) ∨
    (∃ block buf wav, p = some ⟨block, some wav⟩ ∧ CreatesCleanly os.replies ∧
      0 ≤ wav.buf.fd ∧ wav.buf.buf = some buf ∧ block ≠ buf ∧
      (∀ fd, es.count (.close fd) = 0) ∧ ∀ b, es.count (.free b) = 0) := by
  obtain ⟨p₀, _, es₁, es₂, hcreate, hrest, rfl⟩ := Program.returns_bind.mp h
  rcases wavCreate_cases hcreate with ⟨errno, rest, hreplies, rfl, rfl⟩ |
    ⟨handle, rest, hreplies, rfl, hfail⟩ |
    ⟨handle, fd, buf, rest, wav, hreplies, rfl, rfl, hfd, hbuf, hmax, hheld, -, rfl⟩
  · obtain ⟨hret, rfl, rfl⟩ := Program.returns_pure.mp hrest
    obtain ⟨rfl, rfl⟩ := Prod.mk.inj hret
    exact .inl ⟨rfl, .inl ⟨errno, rest, hreplies⟩, fun fd => rfl, fun block => rfl⟩
  · obtain ⟨hret, rfl, rfl⟩ := Program.returns_pure.mp hrest
    obtain ⟨rfl, rfl⟩ := Prod.mk.inj hret
    refine .inr (.inl ⟨os.blocks, rfl, ?_⟩)
    rintro (⟨errno, rest', hclean⟩ | ⟨handle', fd, buf, rest', hclean⟩)
    · rw [hreplies] at hclean
      cases hclean
    · rw [hreplies] at hclean
      obtain ⟨-, rfl⟩ := List.cons.inj hclean
      rcases hfail with ⟨errno, rest₁, hfail⟩ | ⟨fd', errno, rest₁, hfail⟩ <;> cases hfail
  · obtain ⟨⟨oks', wav'⟩, _, es₃, _, hwrites, hpure, rfl⟩ := Program.returns_bind.mp hrest
    obtain ⟨hret, rfl, rfl⟩ := Program.returns_pure.mp hpure
    obtain ⟨rfl, rfl⟩ := Prod.mk.inj hret
    have hpos : 0 ≤ wav.buf.fd := by rw [hfd]; exact Int.natCast_nonneg fd
    have hcur : wav.buf.cur ≤ wav.buf.max := by
      rw [← Bufwr.held_length, hheld, hmax]
      decide
    obtain ⟨hkind, ⟨hsame, -⟩, -⟩ := wavWrites_rule hpos hcur hwrites
    have hkind' : ∀ e ∈ es₃, e.isResource = false :=
      fun e he => SysEvent.not_isResource_of_isWrite (hkind e he)
    refine .inr (.inr ⟨_, _, wav', rfl, .inr ⟨handle, fd, buf, rest, hreplies⟩, hsame.fd ▸ hpos,
      hsame.buf.trans hbuf, Nat.ne_of_lt (Nat.lt_succ_self _), fun fd => ?_, fun b => ?_⟩)
    · rw [List.append_nil, List.count_append, count_eq_zero_of_not_resource hkind' rfl]
      rfl
    · rw [List.append_nil, List.count_append, count_eq_zero_of_not_resource hkind' rfl]
      rfl

/-- **The life cycle of a WAV handle.** Everything acquired is released once,
    and a failed creation returns `NULL`, just when the handle cannot be
    allocated or nothing fails in its creation, and the samples held and the
    header can be written when it is closed. -/
theorem wav_life_cycle_iff {calls : List (List (BitVec 16))} {p : Option WavPtr}
    {oks : List Bool} {closed : Option Bool}
    (hsession : (wavSession fn calls).Returns os (p, oks) os₁ es₁)
    (hend : (wavEnd p).Returns os₁ closed os₂ es₂) :
    LifeCycle (es₁ ++ es₂) p ↔ CreatesCleanly os.replies ∧
      ∀ block wav, p = some ⟨block, some wav⟩ → ClosesCleanly wav os₁.replies := by
  rcases wavSession_cases hsession with ⟨rfl, hcreates, hreleased⟩ | ⟨block, rfl, hcreates⟩ |
    ⟨block, buf, wav, rfl, hcreates, hfd, hbuf, hne, hclosed, hfreed⟩
  · obtain ⟨-, -, rfl⟩ := Program.returns_pure.mp hend
    rw [List.append_nil]
    refine iff_of_true hreleased ⟨hcreates, fun block wav hp => ?_⟩
    cases hp
  · exact iff_of_false id fun h => hcreates h.1
  · obtain ⟨ret, hclose, rfl⟩ := Program.returns_map.mp hend
    obtain ⟨_, _, es₃, es₄, hfinish, hrest, rfl⟩ := Program.returns_bind.mp hclose
    obtain ⟨_, _, es₅, _, hfree, hpure, rfl⟩ := Program.returns_bind.mp hrest
    obtain ⟨-, rfl⟩ := Program.returns_emit.mp hfree
    obtain ⟨-, -, rfl⟩ := Program.returns_pure.mp hpure
    rcases wavFinish_resources hfd hbuf hfinish with ⟨hcloses, es₀, hkind, rfl⟩ | ⟨hcloses, hkind⟩
    · have hclosed₀ : ∀ fd, es₀.count (.close fd) = 0 :=
        fun _ => count_eq_zero_of_not_resource hkind rfl
      have hfreed₀ : ∀ b, es₀.count (.free b) = 0 :=
        fun _ => count_eq_zero_of_not_resource hkind rfl
      refine iff_of_true ⟨?_, ⟨buf, hbuf, ?_⟩, ?_⟩ ⟨hcreates, ?_⟩
      · simp [List.count_append, hclosed, hclosed₀]
      · simp [List.count_append, hfreed, hfreed₀, hne]
      · simp [List.count_append, hfreed, hfreed₀, Ne.symm hne]
      · rintro _ _ ⟨rfl, rfl⟩
        exact hcloses
    · have hclosed₀ : es₃.count (.close wav.buf.fd) = 0 := count_eq_zero_of_not_resource hkind rfl
      refine iff_of_false ?_ fun h => hcloses (h.2 block wav rfl)
      rintro ⟨hcount, -⟩
      simp [List.count_append, hclosed, hclosed₀] at hcount

/-- Two samples are written and nothing fails. -/
theorem wav_life_cycle_of_success :
    ∃ p oks os₁ es₁ closed os₂ es₂,
      (wavSession "a.wav" [[0x1234, 0x5678]]).Returns
        ⟨[.ok 0, .ok 3, .ok 0, .ok 48, .ok 44, .ok 0], 0, fun _ _ => 0⟩ (p, oks) os₁ es₁ ∧
      (wavEnd p).Returns os₁ closed os₂ es₂ ∧ LifeCycle (es₁ ++ es₂) p := by
  refine ⟨_, _, _, _, _, _, _, rfl, rfl, ?_⟩
  refine (@wav_life_cycle_iff "a.wav" ⟨[.ok 0, .ok 3, .ok 0, .ok 48, .ok 44, .ok 0], 0,
    fun _ _ => 0⟩ _ _ _ _ [[0x1234, 0x5678]] _ _ _ rfl rfl).mpr ⟨?_, ?_⟩
  · exact .inr ⟨0, 3, 0, _, rfl⟩
  · rintro _ _ ⟨rfl, rfl⟩
    exact ⟨_, _, .moved (by decide) (by decide) (.done _), .moved (by decide) (by decide) (.done _)⟩

/-- When the file cannot be opened, the pointer returned was freed; when the
    samples cannot be written on closing, nothing closes the descriptor. -/
theorem wav_failures_leak :
    (∃ os₁, (wavSession "a.wav" []).Returns ⟨[.ok 0, .err .other], 0, fun _ _ => 0⟩
        (some ⟨0, none⟩, []) os₁
        [.malloc 32 (some 0), .openFile "a.wav" (.err .other), .free 0]) ∧
      ∃ p oks os₁ es₁ closed os₂ es₂,
        (wavSession "a.wav" []).Returns
          ⟨[.ok 0, .ok 3, .ok 0, .err .other, .ok 0], 0, fun _ _ => 0⟩ (p, oks) os₁ es₁ ∧
        (wavEnd p).Returns os₁ closed os₂ es₂ ∧ (es₁ ++ es₂).count (.close 3) = 0 ∧
        (es₁ ++ es₂).count (.free 1) = 0 ∧ ¬ LifeCycle (es₁ ++ es₂) p := by
  refine ⟨⟨_, rfl⟩, _, _, _, _, _, _, _, rfl, rfl, rfl, rfl, ?_⟩
  rintro ⟨hcount, -⟩
  cases hcount

end SpuKit
