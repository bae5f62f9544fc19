import SpuKit.File.Capacity

/-!
# A negative descriptor as a sink

A writer whose descriptor is negative drops what it is given. `flush` looks at
the descriptor and makes no call; `large_write` goes on to `fd_write`, which
does.

## Main definitions

- `SysEvent.onNegative` — a call on a negative descriptor
- `BufOp.Below` — the operation is not a write past the buffer
- `BufwrPtr.use` — all operations, and `bufwr_close`

## Main results

- `BufOp.run_sink`, `bufwrRun_sink` — what operations on a sink return
- `sink_iff` — when all of them succeed
-/

namespace SpuKit

/-- Is this a call on a negative descriptor? -/
def SysEvent.onNegative : SysEvent → Bool
  | .close fd | .fsync fd | .write fd _ _ | .pwrite fd _ _ _ | .poll fd => decide (fd < 0)
  | _ => false

/-- The operation is not a write so long that it goes past the buffer. -/
def BufOp.Below (max : Nat) : BufOp → Nat → Prop
  | .write bytes, cur => bytes.length < max - cur + max
  | .flush, _ => True

instance (max : Nat) (op : BufOp) (cur : Nat) : Decidable (op.Below max cur) :=
  match op with
  | .write _ => inferInstanceAs (Decidable (_ < _))
  | .flush => inferInstanceAs (Decidable True)

/-- All operations, and `bufwr_close` if the writer is closed at the end. -/
def BufwrPtr.use (p : BufwrPtr) (ops : List BufOp) (closing : Option Bool) :
    SysM (List Bool × Bufwr) := do
  let (oks, f) ← bufwrRun ops p.bufwr
  match closing with
  | none => pure (oks, f)
  | some sync =>
    let ok ← BufwrPtr.close (some { p with bufwr := f }) sync
    pure (oks ++ [ok], f)

section Sink

variable {f : Bufwr} {buf : List Byte} {op : BufOp} {ops : List BufOp}

theorem flush_sink (hfd : f.fd < 0) (os : Os) :
    (flush f).Returns os (true, { f with cur := 0 }) os [] := by
  rw [flush, if_pos hfd]
  rfl

theorem bufwrFlush_sink (hfd : f.fd < 0) (os : Os) :
    (bufwrFlush f).Returns os (true, { f with cur := 0 }) os [] := by
  rw [bufwrFlush]
  split
  · next hzero =>
    rw [← hzero]
    rfl
  · exact flush_sink hfd os

/-- A large write makes a call that fails. -/
theorem largeWrite_sink (hfd : f.fd < 0) (buf : List Byte) (os : Os) :
    (largeWrite f buf).Returns os (false, { f with cur := 0 }) os
      [.write f.fd (buf.take (min buf.length ssizeMax)) (.err .ebadf)] := by
  have hwrite : (fdWrite f.fd buf).Returns os false os
      [.write f.fd (buf.take (min buf.length ssizeMax)) (.err .ebadf)] :=
    (returns_transferAll_neg hfd writeFile_eq).mpr ⟨rfl, rfl, rfl⟩
  exact (flush_sink hfd os).bind
    (hwrite.bind (Program.returns_pure.mpr ⟨rfl, rfl, rfl⟩))

/-- What an operation on a sink returns and leaves, and the calls it makes. -/
structure Sinks (op : BufOp) (f : Bufwr) (ok : Bool) (f' : Bufwr) (es : List SysEvent) : Prop where
  same : f'.SameBuffer f
  cur : f'.cur = (op.level f.max f.cur).val
  corrupted : f'.corrupted = f.corrupted
  ok_iff : ok = true ↔ op.Below f.max f.cur
  calls_iff : (∀ e ∈ es, e.onNegative = false) ↔ op.Below f.max f.cur

theorem bufwrWrite_sink (hfd : f.fd < 0) (buf : List Byte) (os : Os) :
    ∃ ok f' es, (bufwrWrite f buf).Returns os (ok, f') os es ∧ Sinks (.write buf) f ok f' es := by
  rw [bufwrWrite]
  by_cases hlarge : buf.length ≥ f.max - f.cur + f.max
  · have hbelow : ¬ (BufOp.write buf).Below f.max f.cur := not_lt.mpr hlarge
    simp only [if_pos hlarge]
    refine ⟨_, _, _, largeWrite_sink hfd buf os, ⟨rfl, rfl, rfl⟩, ?_, rfl,
      iff_of_false Bool.false_ne_true hbelow, iff_of_false (fun h => ?_) hbelow⟩
    · show 0 = writeLevel f.max f.cur buf.length
      rw [writeLevel, if_pos hlarge]
    · have hneg := h _ (List.mem_singleton_self _)
      rw [SysEvent.onNegative, decide_eq_false_iff_not] at hneg
      exact hneg hfd
  have hbelow : (BufOp.write buf).Below f.max f.cur := not_le.mp hlarge
  by_cases hfill : buf.length > f.max - f.cur
  · simp only [if_neg hlarge, if_pos hfill]
    have hfd' : (f.copied (buf.take (f.max - f.cur))).fd < 0 := hfd
    refine ⟨_, _, _, (Bufwr.returns_copy.mpr ⟨rfl, rfl, rfl⟩).bind
      ((flush_sink hfd' os).bind (returns_bufwrCopy.mpr ⟨rfl, rfl, rfl, rfl⟩)),
      ⟨rfl, rfl, rfl⟩, ?_, rfl, iff_of_true rfl hbelow, iff_of_true ?_ hbelow⟩
    · show 0 + (buf.drop (f.max - f.cur)).length = writeLevel f.max f.cur buf.length
      rw [writeLevel, if_neg hlarge, if_pos hfill, List.length_drop, Nat.zero_add]
    · simp [SysEvent.onNegative]
  · simp only [if_neg hlarge, if_neg hfill]
    refine ⟨_, _, _, returns_bufwrCopy.mpr ⟨rfl, rfl, rfl, rfl⟩, f.sameBuffer_copied buf, ?_, rfl,
      iff_of_true rfl hbelow, iff_of_true ?_ hbelow⟩
    · show f.cur + buf.length = writeLevel f.max f.cur buf.length
      rw [writeLevel, if_neg hlarge, if_neg hfill]
    · simp [SysEvent.onNegative]

/-- **Step**: an operation on a sink returns at once. It succeeds, and makes no
    call, if it is not a write past the buffer. -/
theorem BufOp.run_sink (hfd : f.fd < 0) (op : BufOp) (os : Os) :
    ∃ ok f' es, (op.run f).Returns os (ok, f') os es ∧ Sinks op f ok f' es := by
  cases op with
  | write bytes => exact bufwrWrite_sink hfd bytes os
  | flush =>
    exact ⟨_, _, _, bufwrFlush_sink hfd os, ⟨rfl, rfl, rfl⟩, rfl, rfl, iff_of_true rfl True.intro,
      iff_of_true (fun _ he => (List.not_mem_nil he).elim) True.intro⟩

/-- **Run**: all operations on a sink succeed, and make no call, if none is a
    write past the buffer. -/
theorem bufwrRun_sink (hfd : f.fd < 0) (ops : List BufOp) (os : Os) :
    ∃ oks f' es, (bufwrRun ops f).Returns os (oks, f') os es ∧ f'.SameBuffer f ∧
      f'.corrupted = f.corrupted ∧
      ((∀ ok ∈ oks, ok = true) ↔
        StepSystem.Along (BufOp.level f.max) (BufOp.Below f.max) ops f.cur) ∧
      ((∀ e ∈ es, e.onNegative = false) ↔
        StepSystem.Along (BufOp.level f.max) (BufOp.Below f.max) ops f.cur) := by
  induction ops generalizing f with
  | nil =>
    exact ⟨[], f, [], rfl, .refl f, rfl, iff_of_true (fun _ h => (List.not_mem_nil h).elim) trivial,
      iff_of_true (fun _ h => (List.not_mem_nil h).elim) trivial⟩
  | cons op ops ih =>
    obtain ⟨ok, f₁, es₁, hop, hsinks⟩ := BufOp.run_sink hfd op os
    have hsame := hsinks.same
    obtain ⟨oks, f', es₂, hops, hsame', hcorrupted, hoks, hcalls⟩ := ih (hsame.fd ▸ hfd)
    rw [hsame.max, hsinks.cur] at hoks hcalls
    refine ⟨ok :: oks, f', _, returns_bufwrRun_cons.mpr ⟨_, _, _, _, _, _, hop, hops, rfl, rfl⟩,
      hsame'.trans hsame, hcorrupted.trans hsinks.corrupted, ?_, ?_⟩
    · rw [List.forall_mem_cons, hsinks.ok_iff, hoks]
      rfl
    · rw [List.forall_mem_append, hsinks.calls_iff, hcalls]
      rfl

/-- Freeing makes no call on a descriptor. -/
theorem returns_free (block : Option Nat) (os : Os) :
    ∃ es, (free block).Returns os () os es ∧ ∀ e ∈ es, e.onNegative = false := by
  cases block with
  | none => exact ⟨[], rfl, fun _ he => (List.not_mem_nil he).elim⟩
  | some block => exact ⟨[.free block], rfl, fun e he => List.mem_singleton.mp he ▸ rfl⟩

/-- A sink is closed without a call on its descriptor. -/
theorem close_sink (p : BufwrPtr) (hfd : p.bufwr.fd < 0) (sync : Bool) (os : Os) :
    ∃ es, (BufwrPtr.close (some p) sync).Returns os true os es ∧
      ∀ e ∈ es, e.onNegative = false := by
  have hnot : ¬ p.bufwr.fd ≥ 0 := not_le.mpr hfd
  obtain ⟨es₁, hbuf, hcalls₁⟩ := returns_free p.bufwr.buf os
  obtain ⟨es₂, hblock, hcalls₂⟩ := returns_free (some p.block) os
  have hopen : (pure true : SysM Bool).Returns os true os [] :=
    Program.returns_pure.mpr ⟨rfl, rfl, rfl⟩
  have hclose : (bufwrClose p.bufwr sync).Returns os (true, { p.bufwr with cur := 0 }) os
      ([] ++ ([] ++ (es₁ ++ []))) := by
    refine (bufwrFlush_sink hfd os).bind ?_
    simp only [if_neg hnot]
    exact hopen.bind (hbuf.bind (Program.returns_pure.mpr ⟨rfl, rfl, rfl⟩))
  refine ⟨_, hclose.bind (hblock.bind (Program.returns_pure.mpr ⟨rfl, rfl, rfl⟩)), ?_⟩
  simpa [or_imp, forall_and] using ⟨hcalls₁, hcalls₂⟩

/-- **Sink**: on a writer with a negative descriptor all calls succeed, the writer
    is not marked, and no call is made on the descriptor, if no write is so long
    that it goes past the buffer. -/
theorem sink_iff (p : BufwrPtr) (hfd : p.bufwr.fd < 0) (ops : List BufOp) (closing : Option Bool)
    (os : Os) :
    (∃ oks f' os' es, (p.use ops closing).Returns os (oks, f') os' es ∧
      (∀ ok ∈ oks, ok = true) ∧
      (p.bufwr.corrupted = false → f'.corrupted = false) ∧
      ∀ e ∈ es, e.onNegative = false) ↔
    StepSystem.Along (BufOp.level p.bufwr.max) (BufOp.Below p.bufwr.max) ops p.bufwr.cur := by
  obtain ⟨oks, f₁, es₁, hrun, hsame, hcorrupted, hoks, hcalls⟩ := bufwrRun_sink hfd ops os
  have huse : ∃ closed es₂, (p.use ops closing).Returns os (oks ++ closed, f₁) os (es₁ ++ es₂) ∧
      (∀ ok ∈ closed, ok = true) ∧ ∀ e ∈ es₂, e.onNegative = false := by
    cases closing with
    | none =>
      refine ⟨[], [], hrun.bind (Program.returns_pure.mpr ⟨?_, rfl, rfl⟩), by simp, by simp⟩
      rw [List.append_nil]
    | some sync =>
      obtain ⟨es₂, hclose, hcalls₂⟩ :=
        close_sink { p with bufwr := f₁ } (hsame.fd.symm ▸ hfd) sync os
      refine ⟨[true], es₂ ++ [], hrun.bind (hclose.bind
        (Program.returns_pure.mpr ⟨rfl, rfl, rfl⟩)), by simp, ?_⟩
      rwa [List.append_nil]
  obtain ⟨closed, es₂, huse, hclosed, hcalls₂⟩ := huse
  constructor
  · rintro ⟨oks', f', os', es', hret, hall, -, -⟩
    obtain ⟨hret, -, -⟩ := huse.unique hret
    obtain ⟨rfl, rfl⟩ := Prod.mk.inj hret
    exact hoks.mp (List.forall_mem_append.mp hall).1
  · intro halong
    refine ⟨_, f₁, os, _, huse, ?_, fun h => hcorrupted.trans h, ?_⟩
    · exact List.forall_mem_append.mpr ⟨hoks.mpr halong, hclosed⟩
    · exact List.forall_mem_append.mpr ⟨hcalls.mpr halong, hcalls₂⟩

/-- A writer with a buffer of two bytes, after `bufwr__leak_fd`. -/
def leakedSample : BufwrPtr := ⟨0, bufwrLeakFd ⟨some 1, fun _ => 0, 0, 2, 3, false⟩⟩

/-- It takes a byte, a flush and `bufwr_close`. -/
theorem sink_leaked :
    ∃ oks f' os' es, (leakedSample.use [.write [0x11], .flush] (some true)).Returns roomy
      (oks, f') os' es ∧ (∀ ok ∈ oks, ok = true) ∧ f'.corrupted = false ∧
      ∀ e ∈ es, e.onNegative = false := by
  obtain ⟨oks, f', os', es, hrun, hoks, hcorrupted, hcalls⟩ :=
    (sink_iff leakedSample (by decide) [.write [0x11], .flush] (some true) roomy).mpr (by decide)
  exact ⟨oks, f', os', es, hrun, hoks, hcorrupted rfl, hcalls⟩

/-- Two bytes do not fit into a sink with a buffer of one. -/
theorem large_write_on_sink : ¬ ∀ (p : BufwrPtr), p.bufwr.Reachable → p.bufwr.fd < 0 →
    ∀ (ops : List BufOp) (closing : Option Bool) (os : Os),
      ∃ oks f' os' es, (p.use ops closing).Returns os (oks, f') os' es ∧
        (∀ ok ∈ oks, ok = true) ∧ (p.bufwr.corrupted = false → f'.corrupted = false) ∧
        ∀ e ∈ es, e.onNegative = false := by
  intro h
  have hinit : (bufwrInit (-1) 1).Returns roomy ⟨some 0, fun _ => 0, 0, 1, -1, false⟩
      { roomy with replies := [.ok 0], blocks := 1 } [.malloc 1 (some 0)] := rfl
  have hfails : ∃ f' es, (BufwrPtr.use ⟨1, ⟨some 0, fun _ => 0, 0, 1, -1, false⟩⟩
      [.write [0x11, 0x22]] none).Returns roomy ([false], f') roomy es := ⟨_, _, rfl⟩
  obtain ⟨f'', es', hfails⟩ := hfails
  obtain ⟨oks, f', os', es, hrun, hoks, -⟩ := h ⟨1, _⟩ (.init hinit (Option.some_ne_none _))
    (by decide) [.write [0x11, 0x22]] none roomy
  obtain ⟨hret, -, -⟩ := hrun.unique hfails
  obtain ⟨rfl, -⟩ := Prod.mk.inj hret
  exact absurd (hoks false (List.mem_singleton_self _)) Bool.false_ne_true

end Sink

end SpuKit
