import SpuKit.File.Bufwr
import SpuKit.Lib.StepSystem

/-!
# Buffered writing keeps the byte stream

A writer is used for any number of writes and flushes, on a descriptor that
never fails for good. The bytes written and the bytes held are then the
arguments in order, unless a write goes past an empty buffer: `large_write`
flushes it without looking, `write` of no bytes returns 0, and the call fails.

## Main definitions

- `BufOp`, `bufwrSession` — a writer is created and used
- `NeverFails` — the replies of a descriptor that never fails for good
- `Delivers` — every call succeeds and the byte stream is kept

## Main results

- `buffered_writes_iff` — a session delivers just when no write bypasses an
  empty buffer
-/

namespace SpuKit

/-- What a program does with a writer. -/
inductive BufOp where
  /-- `bufwr_write` -/
  | write (bytes : List Byte)
  /-- `bufwr_flush` -/
  | flush
  deriving DecidableEq

/-- The bytes an operation is to write. -/
def BufOp.bytes : BufOp → List Byte
  | .write bytes => bytes
  | .flush => []

def BufOp.run : BufOp → Bufwr → SysM (Bool × Bufwr)
  | .write bytes, f => bufwrWrite f bytes
  | .flush, f => bufwrFlush f

/-- All operations, with what they return. -/
def bufwrRun : List BufOp → Bufwr → SysM (List Bool × Bufwr)
  | [], f => pure ([], f)
  | op :: ops, f => do
    let (ok, f) ← op.run f
    let (oks, f) ← bufwrRun ops f
    pure (ok :: oks, f)

/-- A writer is created and used. -/
def bufwrSession (fd : Int) (size : Nat) (ops : List BufOp) : SysM (List Bool × Bufwr) := do
  let f ← bufwrInit fd size
  bufwrRun ops f

/-- The replies of a descriptor that never fails for good: each is an
    interruption or moves at least a byte, and not all are interruptions from
    some point on. -/
structure NeverFails (replies : Nat → Reply) : Prop where
  moves : ∀ i, replies i = .err .eintr ∨ ∃ ret, 0 < ret ∧ replies i = .ok ret
  resumes : ∀ i, ∃ j, i ≤ j ∧ replies j ≠ .err .eintr

/-- The outcome of a session: every call returned true, the bytes written and
    those held are the arguments in order, and a last flush left none held. -/
def Delivers (fd : Int) (ops : List BufOp)
    (outcome : Traced SysEvent (Option ((List Bool × Bufwr) × Os))) : Prop :=
  ∃ oks f os', outcome.val = some ((oks, f), os') ∧ (∀ ok ∈ oks, ok = true) ∧
    written fd outcome.events ++ f.held = ops.flatMap BufOp.bytes ∧
    (ops.getLast? = some .flush → f.held = [])

/-- How many bytes a buffer of `max` bytes holds after an operation that
    succeeds. -/
def BufOp.level (max : Nat) : BufOp → Nat → Traced Empty Nat
  | .write bytes, cur => pure (writeLevel max cur bytes.length)
  | .flush, _ => pure 0

/-- The operation is no write past an empty buffer. -/
def BufOp.Buffered (max : Nat) : BufOp → Nat → Prop
  | .write bytes, cur => ¬ bypasses max cur bytes.length
  | .flush, _ => True

variable {f f' : Bufwr} {os os' : Os} {es : List SysEvent} {ok : Bool} {op : BufOp}
  {ops : List BufOp} {oks : List Bool}

-- ════════════════════════════════════════════════════════════════════════
-- What a session that succeeds did
-- ════════════════════════════════════════════════════════════════════════

/-- **Step**: an operation keeps the buffer, and when it succeeds it puts its
    bytes after those written and held. -/
theorem BufOp.run_rule (hfd : 0 ≤ f.fd) (hcur : f.cur ≤ f.max)
    (h : (op.run f).Returns os (ok, f') os' es) :
    (f'.SameBuffer f ∧ f'.cur ≤ f.max) ∧
      (ok = true → written f.fd es ++ f'.held = f.held ++ op.bytes ∧
        f'.cur = (op.level f.max f.cur).val ∧ op.Buffered f.max f.cur) := by
  cases op with
  | write bytes => exact (bufwrWrite_rule hfd hcur h).2.2
  | flush =>
    obtain ⟨-, -, ⟨hsame, hle⟩, hdone⟩ := bufwrFlush_rule hfd h
    refine ⟨⟨hsame, hle.trans hcur⟩, fun hok => ?_⟩
    obtain ⟨hwritten, hzero, -⟩ := hdone hok
    exact ⟨by rw [hwritten, Bufwr.held_of_cur_eq_zero hzero]; rfl, hzero, trivial⟩

theorem returns_bufwrRun_nil :
    (bufwrRun [] f).Returns os (oks, f') os' es ↔ oks = [] ∧ f' = f ∧ os' = os ∧ es = [] := by
  rw [bufwrRun, Program.returns_pure, Prod.mk.injEq, and_assoc]

/-- A run is its first operation and a run of the others. -/
theorem returns_bufwrRun_cons :
    (bufwrRun (op :: ops) f).Returns os (oks, f') os' es ↔
      ∃ ok oks' f₁ os₁ es₁ es₂, (op.run f).Returns os (ok, f₁) os₁ es₁ ∧
        (bufwrRun ops f₁).Returns os₁ (oks', f') os' es₂ ∧ oks = ok :: oks' ∧ es = es₁ ++ es₂ := by
  constructor
  · intro h
    obtain ⟨⟨ok, f₁⟩, os₁, es₁, _, hop, hrest, rfl⟩ := Program.returns_bind.mp h
    obtain ⟨⟨oks', f₂⟩, os₂, es₂, _, hops, hpure, rfl⟩ := Program.returns_bind.mp hrest
    obtain ⟨hret, rfl, rfl⟩ := Program.returns_pure.mp hpure
    obtain ⟨rfl, rfl⟩ := Prod.mk.inj hret
    rw [List.append_nil]
    exact ⟨ok, oks', f₁, os₁, es₁, es₂, hop, hops, rfl, rfl⟩
  · rintro ⟨ok, oks', f₁, os₁, es₁, es₂, hop, hops, rfl, rfl⟩
    rw [← List.append_nil es₂]
    exact hop.bind (hops.bind (Program.returns_pure.mpr ⟨rfl, rfl, rfl⟩))

/-- **Run**: when all operations succeed, their bytes are put after those
    written and held, and none was a write past an empty buffer. -/
theorem bufwrRun_rule (hfd : 0 ≤ f.fd) (hcur : f.cur ≤ f.max)
    (h : (bufwrRun ops f).Returns os (oks, f') os' es) (hoks : ∀ ok ∈ oks, ok = true) :
    written f.fd es ++ f'.held = f.held ++ ops.flatMap BufOp.bytes ∧
      (ops.getLast? = some .flush → f'.held = []) ∧
      StepSystem.Along (BufOp.level f.max) (BufOp.Buffered f.max) ops f.cur := by
  induction ops generalizing f os es oks with
  | nil =>
    obtain ⟨rfl, rfl, rfl, rfl⟩ := returns_bufwrRun_nil.mp h
    exact ⟨by simp, by simp, trivial⟩
  | cons op ops ih =>
    obtain ⟨ok, oks', f₁, os₁, es₁, es₂, hop, hops, rfl, rfl⟩ := returns_bufwrRun_cons.mp h
    obtain ⟨hok, hoks'⟩ := List.forall_mem_cons.mp hoks
    obtain ⟨⟨hsame, hle⟩, hdone⟩ := BufOp.run_rule hfd hcur hop
    obtain ⟨hstream, hlevel, hbuffered⟩ := hdone hok
    obtain ⟨hstream', hlast, halong⟩ :=
      ih (hsame.fd ▸ hfd) (hsame.max.symm ▸ hle) hops hoks'
    rw [hsame.fd] at hstream'
    rw [hsame.max, hlevel] at halong
    refine ⟨?_, fun hflush => ?_, hbuffered, halong⟩
    · calc written f.fd (es₁ ++ es₂) ++ f'.held
          = written f.fd es₁ ++ (written f.fd es₂ ++ f'.held) := by simp
        _ = (written f.fd es₁ ++ f₁.held) ++ ops.flatMap BufOp.bytes := by simp [hstream']
        _ = f.held ++ (op :: ops).flatMap BufOp.bytes := by simp [hstream]
    · cases ops with
      | nil =>
        obtain rfl : op = .flush := by simpa using hflush
        obtain ⟨-, rfl, -, -⟩ := returns_bufwrRun_nil.mp hops
        exact Bufwr.held_of_cur_eq_zero hlevel
      | cons op' ops' => exact hlast (by simpa using hflush)

-- ════════════════════════════════════════════════════════════════════════
-- A descriptor that never fails lets a session return
-- ════════════════════════════════════════════════════════════════════════

variable {α β : Type} {replies : Nat → Reply} {i j k : Nat}

/-- The replies from `i` on, up to `n`. -/
def segment (replies : Nat → Reply) (i n : Nat) : List Reply :=
  (List.range' i (n - i)).map replies

theorem segment_cons (h : i < j) :
    segment replies i j = replies i :: segment replies (i + 1) j := by
  rw [segment, ← Nat.succ_pred_eq_of_pos (Nat.sub_pos_of_lt h), List.range'_succ, List.map_cons,
    segment]
  congr 3

/-- The program returns `a` once the replies from `i` to `j` are there, and
    takes these. -/
def Settles (replies : Nat → Reply) (i j : Nat) (x : SysM α) (a : α) : Prop :=
  i ≤ j ∧ ∀ n, j ≤ n → ∀ os : Os, os.replies = segment replies i n →
    ∃ es, x.Returns os a { os with replies := segment replies j n } es

theorem Settles.bind {x : SysM α} {g : α → SysM β} {a : α} {b : β}
    (hx : Settles replies i j x a) (hg : Settles replies j k (g a) b) :
    Settles replies i k (x >>= g) b := by
  refine ⟨hx.1.trans hg.1, fun n hn os hos => ?_⟩
  obtain ⟨es₁, h₁⟩ := hx.2 n (hg.1.trans hn) os hos
  obtain ⟨es₂, h₂⟩ := hg.2 n hn { os with replies := segment replies j n } rfl
  exact ⟨_, h₁.bind h₂⟩

/-- A program that makes no call settles at once. -/
theorem Settles.of_returns {x : SysM α} {a : α} (h : ∀ os, ∃ es, x.Returns os a os es) :
    Settles replies i i x a := by
  refine ⟨le_rfl, fun n _ os hos => ?_⟩
  obtain ⟨es, hes⟩ := h os
  refine ⟨es, ?_⟩
  rwa [← hos]

theorem Settles.pure (a : α) : Settles replies i i (Pure.pure a : SysM α) a :=
  .of_returns fun _ => ⟨[], Program.returns_pure.mpr ⟨rfl, rfl, rfl⟩⟩

/-- Interruptions end, and then at least a byte is moved, until all are. -/
theorem NeverFails.transfers (h : NeverFails replies) (len i : Nat) :
    ∃ j, i ≤ j ∧ ∀ n, j ≤ n → Transfers len (segment replies i n) (segment replies j n) := by
  induction len using Nat.strong_induction_on generalizing i with
  | _ len ih =>
    obtain rfl | hlen := Nat.eq_zero_or_pos len
    · exact ⟨i, le_rfl, fun n _ => .done _⟩
    have hmoved : ∀ i, replies i ≠ .err .eintr → ∃ j, i ≤ j ∧
        ∀ n, j ≤ n → Transfers len (segment replies i n) (segment replies j n) := by
      intro i hintr
      obtain ⟨ret, hret, hmoves⟩ := (h.moves i).resolve_left hintr
      have hssize : 0 < ssizeMax := by decide
      obtain ⟨j, hij, hj⟩ := ih (len - min ret (min len ssizeMax)) (by omega) (i + 1)
      refine ⟨j, by omega, fun n hn => ?_⟩
      rw [segment_cons (by omega), hmoves]
      exact .moved hlen hret (hj n hn)
    obtain ⟨m, him, hm⟩ := h.resumes i
    induction hd : m - i generalizing i with
    | zero =>
      obtain rfl : i = m := by omega
      exact hmoved i hm
    | succ d ihd =>
      by_cases hintr : replies i = .err .eintr
      · obtain ⟨j, hij, hj⟩ := ihd (i + 1) (by omega) (by omega)
        refine ⟨j, by omega, fun n hn => ?_⟩
        rw [segment_cons (by omega), hintr]
        exact .interrupted hlen (hj n hn)
      · exact hmoved i hintr

theorem NeverFails.fdWrite (h : NeverFails replies) {fd : Int} {buf : List Byte} (hfd : 0 ≤ fd)
    (hbuf : 0 < buf.length) (i : Nat) : ∃ j, Settles replies i j (fdWrite fd buf) true := by
  obtain ⟨j, hij, hj⟩ := h.transfers buf.length i
  refine ⟨j, hij, fun n hn os hos => fdWrite_of_transfers hfd hbuf ?_⟩
  rw [hos]
  exact hj n hn

theorem NeverFails.flush (h : NeverFails replies) (hfd : 0 ≤ f.fd) (hcur : 0 < f.cur) (i : Nat) :
    ∃ j, Settles replies i j (flush f) (true, { f with cur := 0 }) := by
  obtain ⟨j, hij, hj⟩ := h.transfers f.cur i
  refine ⟨j, hij, fun n hn os hos => flush_of_transfers hfd hcur ?_⟩
  rw [hos]
  exact hj n hn

theorem settles_bufwrCopy (f : Bufwr) (ptr : List Byte) :
    Settles replies i i (bufwrCopy f ptr) (true, f.copied ptr) :=
  .of_returns fun _ => ⟨_, returns_bufwrCopy.mpr ⟨rfl, rfl, rfl, rfl⟩⟩

theorem settles_copy (f : Bufwr) (ptr : List Byte) :
    Settles replies i i (f.copy ptr) (f.copied ptr) :=
  .of_returns fun _ => ⟨_, Bufwr.returns_copy.mpr ⟨rfl, rfl, rfl⟩⟩

theorem NeverFails.bufwrWrite (h : NeverFails replies) {bytes : List Byte} (hfd : 0 ≤ f.fd)
    (hcur : f.cur ≤ f.max) (hmax : 0 < f.max) (hbuffered : ¬ bypasses f.max f.cur bytes.length)
    (i : Nat) : ∃ j f', Settles replies i j (bufwrWrite f bytes) (true, f') := by
  rw [SpuKit.bufwrWrite]
  by_cases hlarge : bytes.length ≥ f.max - f.cur + f.max
  · simp only [if_pos hlarge]
    have hpos : 0 < f.cur := by
      by_contra hzero
      exact hbuffered ⟨by omega, by omega⟩
    obtain ⟨j, hflush⟩ := h.flush hfd hpos i
    obtain ⟨k, hwrite⟩ := h.fdWrite hfd (by omega : 0 < bytes.length) j
    exact ⟨k, _, hflush.bind (hwrite.bind (.pure _))⟩
  by_cases hfill : bytes.length > f.max - f.cur
  · simp only [if_neg hlarge, if_pos hfill]
    have hfd' : 0 ≤ (f.copied (bytes.take (f.max - f.cur))).fd := hfd
    have hpos : 0 < (f.copied (bytes.take (f.max - f.cur))).cur := by
      rw [Bufwr.copied_cur, List.length_take]
      omega
    obtain ⟨j, hflush⟩ := h.flush hfd' hpos i
    exact ⟨j, _, (settles_copy f _).bind (hflush.bind (settles_bufwrCopy _ _))⟩
  · simp only [if_neg hlarge, if_neg hfill]
    exact ⟨i, _, settles_bufwrCopy f bytes⟩

/-- **Step**: on a descriptor that never fails an operation settles and
    succeeds, unless it is a write past an empty buffer. -/
theorem NeverFails.opRun (h : NeverFails replies) (hfd : 0 ≤ f.fd) (hcur : f.cur ≤ f.max)
    (hmax : 0 < f.max) (hbuffered : op.Buffered f.max f.cur) (i : Nat) :
    ∃ j f', Settles replies i j (op.run f) (true, f') := by
  cases op with
  | write bytes => exact h.bufwrWrite hfd hcur hmax hbuffered i
  | flush =>
    by_cases hzero : f.cur = 0
    · refine ⟨i, f, .of_returns fun os => ⟨[], ?_⟩⟩
      rw [BufOp.run, bufwrFlush, if_pos hzero]
      exact Program.returns_pure.mpr ⟨rfl, rfl, rfl⟩
    · obtain ⟨j, hflush⟩ := h.flush hfd (Nat.pos_of_ne_zero hzero) i
      refine ⟨j, { f with cur := 0 }, ?_⟩
      rw [BufOp.run, bufwrFlush, if_neg hzero]
      exact hflush

/-- **Run**: on a descriptor that never fails all operations settle and
    succeed, when none is a write past an empty buffer. -/
theorem NeverFails.run (h : NeverFails replies) (hfd : 0 ≤ f.fd) (hcur : f.cur ≤ f.max)
    (hmax : 0 < f.max)
    (halong : StepSystem.Along (BufOp.level f.max) (BufOp.Buffered f.max) ops f.cur) (i : Nat) :
    ∃ j oks f', Settles replies i j (bufwrRun ops f) (oks, f') ∧ ∀ ok ∈ oks, ok = true := by
  induction ops generalizing f i with
  | nil => exact ⟨i, [], f, .pure _, by simp⟩
  | cons op ops ih =>
    obtain ⟨j, f₁, hop⟩ := h.opRun hfd hcur hmax halong.1 i
    obtain ⟨es, hes⟩ := hop.2 j le_rfl ⟨segment replies i j, 0, fun _ _ => 0⟩ rfl
    obtain ⟨⟨hsame, hle⟩, hdone⟩ := BufOp.run_rule hfd hcur hes
    obtain ⟨-, hlevel, -⟩ := hdone rfl
    have halong' : StepSystem.Along (BufOp.level f₁.max) (BufOp.Buffered f₁.max) ops f₁.cur := by
      rw [hsame.max, hlevel]
      exact halong.2
    obtain ⟨k, oks, f', hops, hoks⟩ :=
      ih (hsame.fd ▸ hfd) (hsame.max.symm ▸ hle) (hsame.max.symm ▸ hmax) halong' j
    exact ⟨k, true :: oks, f', hop.bind (hops.bind (.pure _)), by simpa using hoks⟩

variable {fd : Int} {size : Nat}

/-- Creating a writer of an honest size takes one reply and writes nothing. -/
theorem returns_bufwrInit_of_size (fd : Int) (hsize : 0 < size) (hmax : size < 2 ^ 32) (os : Os) :
    ∃ f es, f.fd = fd ∧ f.cur = 0 ∧ f.max = size ∧ written fd es = [] ∧
      ∀ rest, (bufwrInit fd size).Returns { os with replies := .ok 0 :: rest } f
        { os with replies := rest, blocks := os.blocks + 1 } es := by
  have hbuffer : bufferSize size % 2 ^ 32 = size := by
    rw [bufferSize, if_neg (by omega), if_pos hsize.ne']
    exact Nat.mod_eq_of_lt hmax
  refine ⟨⟨some os.blocks, os.garbage os.blocks, 0, bufferSize size % 2 ^ 32, fd, false⟩,
    [.malloc (bufferSize size) (some os.blocks)], rfl, rfl, hbuffer, rfl, fun rest => ?_⟩
  exact returns_bufwrInit.mpr ⟨some os.blocks,
    returns_malloc.mpr (.inl ⟨0, rest, rfl, rfl, rfl, rfl⟩), rfl⟩

/-- In a session that delivers, no write went past an empty buffer. -/
theorem Delivers.along (os : Os) (hfd : 0 ≤ fd) (hsize : 0 < size) (hmax : size < 2 ^ 32)
    {replies : List Reply}
    (h : Delivers fd ops ((bufwrSession fd size ops).exec
      { os with replies := .ok 0 :: replies })) :
    StepSystem.Along (BufOp.level size) (BufOp.Buffered size) ops 0 := by
  obtain ⟨f, es, rfl, hcur, rfl, -, hinit⟩ := returns_bufwrInit_of_size fd hsize hmax os
  obtain ⟨oks, f', os', hval, hoks, -, -⟩ := h
  have hsession : (bufwrSession f.fd f.max ops).Returns _ (oks, f') os' _ := Traced.ext hval rfl
  obtain ⟨f₁, os₁, es₁, es₂, hf₁, hrun, -⟩ := Program.returns_bind.mp hsession
  obtain ⟨rfl, rfl, rfl⟩ := (hinit _).unique hf₁
  rw [← hcur]
  exact (bufwrRun_rule hfd (hcur.le.trans hsize.le) hrun hoks).2.2

/-- **Buffered writing keeps the byte stream.** On a descriptor that never fails
    for good, a session with a buffer of `size` bytes returns, all its calls
    succeed and the bytes written and held are the arguments in order, just
    when no write of at least twice the size of the buffer finds it empty. -/
theorem buffered_writes_iff (h : NeverFails replies) (hfd : 0 ≤ fd) (hsize : 0 < size)
    (hmax : size < 2 ^ 32) (ops : List BufOp) (os : Os) :
    (∃ n₀, ∀ n, n₀ ≤ n → Delivers fd ops ((bufwrSession fd size ops).exec
      { os with replies := .ok 0 :: segment replies 0 n })) ↔
      StepSystem.Along (BufOp.level size) (BufOp.Buffered size) ops 0 := by
  constructor
  · rintro ⟨n, hn⟩
    exact Delivers.along os hfd hsize hmax (hn n le_rfl)
  · intro halong
    obtain ⟨f, es, rfl, hcur, rfl, hwritten, hinit⟩ := returns_bufwrInit_of_size fd hsize hmax os
    rw [← hcur] at halong
    obtain ⟨j, oks, f', hrun, hoks⟩ := h.run hfd (hcur.le.trans hsize.le) hsize halong 0
    refine ⟨j, fun n hn => ?_⟩
    obtain ⟨es', hes'⟩ := hrun.2 n hn
      { os with replies := segment replies 0 n, blocks := os.blocks + 1 } rfl
    have hsession : (bufwrSession f.fd f.max ops).Returns _ (oks, f') _ (es ++ es') :=
      (hinit _).bind hes'
    obtain ⟨hstream, hlast, -⟩ := bufwrRun_rule hfd (hcur.le.trans hsize.le) hes' hoks
    rw [Bufwr.held_of_cur_eq_zero hcur, List.nil_append] at hstream
    refine ⟨oks, f', _, congrArg Traced.val hsession, hoks, ?_, hlast⟩
    rw [congrArg Traced.events hsession, written_append, hwritten, List.nil_append, hstream]

/-- Three bytes through a buffer of two, by writes of a byte and an
    interruption. -/
theorem buffered_writes_short :
    ∃ n₀, ∀ n, n₀ ≤ n → Delivers 3 [.write [0x11, 0x22, 0x33], .flush]
      ((bufwrSession 3 2 [.write [0x11, 0x22, 0x33], .flush]).exec
        ⟨.ok 0 :: segment (fun i => if i = 1 then .err .eintr else .ok 1) 0 n, 0,
          fun _ _ => 0⟩) := by
  have hnever : NeverFails fun i => if i = 1 then .err .eintr else .ok 1 :=
    ⟨fun i => by by_cases h : i = 1 <;> simp [h], fun i => ⟨i + 2, by simp⟩⟩
  exact (buffered_writes_iff hnever (by decide) (by decide) (by decide) _
    ⟨[], 0, fun _ _ => 0⟩).mpr (by simp [StepSystem.Along, BufOp.Buffered, bypasses])

/-- Two bytes go past an empty buffer of one byte: whatever the descriptor
    would take, the write fails. -/
theorem large_write_on_empty_buffer :
    NeverFails (fun _ => .ok 1) ∧
      ¬ ∃ n₀, ∀ n, n₀ ≤ n → Delivers 3 [.write [0x11, 0x22]]
        ((bufwrSession 3 1 [.write [0x11, 0x22]]).exec
          ⟨.ok 0 :: segment (fun _ => .ok 1) 0 n, 0, fun _ _ => 0⟩) := by
  refine ⟨⟨fun _ => .inr ⟨1, by decide, rfl⟩, fun i => ⟨i, le_rfl, by decide⟩⟩, ?_⟩
  rintro ⟨n, hn⟩
  have halong := Delivers.along ⟨[], 0, fun _ _ => 0⟩ (by decide) (by decide) (by decide)
    (hn n le_rfl)
  exact halong.1 ⟨rfl, by decide⟩

end SpuKit
