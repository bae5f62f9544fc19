import SpuKit.File.BufferedWrites

/-!
# The capacity of a buffer

A writer fills its buffer up to `max`, which is meant to be the size of the
allocation. A size that does not fit into 32 bits is replaced by `MAX_BUF_SIZE`,
which does not fit either: `max` is then 0.

## Main definitions

- `SysEvent.Within` — a `memcpy` into the buffer stays inside the allocation
- `Confined` — what holds of all operations on a writer with its allocation
- `Bufwr.Reachable` — the writers a program can have

## Main results

- `BufOp.run_keeps`, `bufwrRun_keeps` — the buffer stays the same and is never
  filled beyond `max`, on any descriptor
- `bufwrRun_within` — nothing is copied beyond `max`
- `bufwrNew_confined_iff` — the sizes for which `max` is the allocation
-/

namespace SpuKit

open Program (exec always_bind always_emit always_loop always_pure)

/-- A `memcpy` into the buffer stays inside the allocation. -/
def SysEvent.Within (alloc : Nat) : SysEvent → Prop
  | .memcpy off len => off + len ≤ alloc
  | _ => True

-- ════════════════════════════════════════════════════════════════════════
-- What a call leaves
-- ════════════════════════════════════════════════════════════════════════

section Keeps

variable {f f' : Bufwr} {os os' : Os} {es : List SysEvent} {ok : Bool} {buf : List Byte}
  {op : BufOp} {ops : List BufOp} {oks : List Bool}

/-- A flush empties the buffer or marks the writer. -/
theorem flush_cases (h : (flush f).Returns os (ok, f') os' es) :
    (ok = true ∧ f' = { f with cur := 0 }) ∨ (ok = false ∧ f' = { f with corrupted := true }) := by
  obtain hfd | hfd := lt_or_ge f.fd 0
  · rw [flush, if_pos hfd] at h
    obtain ⟨hret, -, -⟩ := Program.returns_pure.mp h
    exact .inl (Prod.mk.inj hret)
  · obtain ⟨-, rfl⟩ := (returns_flush hfd).mp h
    cases ok with
    | true => exact .inl ⟨rfl, rfl⟩
    | false => exact .inr ⟨rfl, rfl⟩

theorem flush_keeps (h : (flush f).Returns os (ok, f') os' es) :
    f'.SameBuffer f ∧ f'.cur ≤ f.cur := by
  obtain ⟨-, rfl⟩ | ⟨-, rfl⟩ := flush_cases h
  · exact ⟨⟨rfl, rfl, rfl⟩, Nat.zero_le _⟩
  · exact ⟨⟨rfl, rfl, rfl⟩, le_rfl⟩

theorem largeWrite_keeps (h : (largeWrite f buf).Returns os (ok, f') os' es) :
    f'.SameBuffer f ∧ f'.cur ≤ f.cur := by
  obtain ⟨-, hflush⟩ | ⟨_, _, _, hflush, -⟩ := largeWrite_cases h
  · exact flush_keeps hflush
  · exact flush_keeps hflush

theorem bufwrWrite_keeps (hcur : f.cur ≤ f.max)
    (h : (bufwrWrite f buf).Returns os (ok, f') os' es) : f'.SameBuffer f ∧ f'.cur ≤ f.max := by
  obtain ⟨-, h⟩ | ⟨-, hfill, -, _, hflush, -⟩ | ⟨hbelow, hfill, -, f₁, _, hflush, rfl, -⟩ |
    ⟨-, hfits, -, rfl, -, -⟩ := bufwrWrite_cases h
  · obtain ⟨hsame, hle⟩ := largeWrite_keeps h
    exact ⟨hsame, hle.trans hcur⟩
  · obtain ⟨hsame, hle⟩ := flush_keeps hflush
    rw [Bufwr.cur_of_filled hcur hfill.le] at hle
    exact ⟨hsame.trans (f.sameBuffer_copied _), hle⟩
  · obtain ⟨-, rfl⟩ | ⟨htrue, -⟩ := flush_cases hflush
    · refine ⟨⟨rfl, rfl, rfl⟩, ?_⟩
      rw [Bufwr.copied_cur, List.length_drop]
      show 0 + (buf.length - (f.max - f.cur)) ≤ f.max
      omega
    · cases htrue
  · refine ⟨f.sameBuffer_copied buf, ?_⟩
    rw [Bufwr.copied_cur]
    omega

/-- **Step**: an operation keeps the buffer, and fills it up to `max` at most. -/
theorem BufOp.run_keeps (hcur : f.cur ≤ f.max) (h : (op.run f).Returns os (ok, f') os' es) :
    f'.SameBuffer f ∧ f'.cur ≤ f'.max := by
  cases op with
  | write bytes =>
    obtain ⟨hsame, hle⟩ := bufwrWrite_keeps hcur h
    exact ⟨hsame, hsame.max ▸ hle⟩
  | flush =>
    obtain ⟨-, -, rfl, -, -⟩ | ⟨-, hflush⟩ := bufwrFlush_cases h
    · exact ⟨.refl f', hcur⟩
    · obtain ⟨hsame, hle⟩ := flush_keeps hflush
      exact ⟨hsame, hsame.max ▸ hle.trans hcur⟩

/-- **Run**: so do all operations. -/
theorem bufwrRun_keeps (hcur : f.cur ≤ f.max)
    (h : (bufwrRun ops f).Returns os (oks, f') os' es) : f'.SameBuffer f ∧ f'.cur ≤ f'.max := by
  induction ops generalizing f os os' es oks with
  | nil =>
    obtain ⟨-, rfl, -, -⟩ := returns_bufwrRun_nil.mp h
    exact ⟨.refl f', hcur⟩
  | cons op ops ih =>
    obtain ⟨ok, oks', f₁, _, _, _, hop, hops, -, -⟩ := returns_bufwrRun_cons.mp h
    obtain ⟨hsame, hle⟩ := BufOp.run_keeps hcur hop
    obtain ⟨hsame', hle'⟩ := ih hle hops
    exact ⟨hsame'.trans hsame, hle'⟩

end Keeps

-- ════════════════════════════════════════════════════════════════════════
-- What a call copies
-- ════════════════════════════════════════════════════════════════════════

section Events

variable {P : SysEvent → Prop} {fd : Int}

theorem always_nextReply (os : Os) : (exec nextReply os).Always P := by
  rcases os with ⟨_ | ⟨reply, replies⟩, blocks, garbage⟩ <;>
    exact fun e he => (List.not_mem_nil he).elim

/-- A transfer emits what it records. -/
theorem always_transfer {count : Nat} {record : Reply → SysEvent} (h : ∀ reply, P (record reply))
    (os : Os) : (exec (transfer fd count record) os).Always P := by
  have hreply : (exec (transferReply fd count) os).Always P := by
    rw [transferReply]
    split
    · exact always_pure _ _
    · exact always_bind.mpr ⟨always_nextReply os, fun _ _ _ _ => always_pure _ _⟩
  refine always_bind.mpr ⟨hreply, fun reply _ _ _ => ?_⟩
  exact always_bind.mpr ⟨always_emit (h reply) _, fun _ _ _ _ => always_pure _ _⟩

theorem always_waitRound (h : P (.poll fd)) (u : Unit) (os : Os) :
    (exec (waitRound fd u) os).Always P := by
  have hpoll : (exec (poll fd) os).Always P :=
    always_bind.mpr ⟨always_nextReply os, fun _ _ _ _ =>
      always_bind.mpr ⟨always_emit h _, fun _ _ _ _ => always_pure _ _⟩⟩
  refine always_bind.mpr ⟨hpoll, fun reply _ _ _ => ?_⟩
  split <;> exact always_pure _ _

/-- The transfer loop emits what its calls record, and polls. -/
theorem always_transferAll {call : Nat → Nat → SysM Reply} {len : Nat} (hpoll : P (.poll fd))
    (hcall : ∀ sent n os, (exec (call sent n) os).Always P) (os : Os) :
    (exec (transferAll fd call len) os).Always P := by
  refine always_loop (fun sent os => ?_) _ _
  refine always_bind.mpr ⟨hcall _ _ _, fun reply _ _ _ => ?_⟩
  split
  · exact always_pure _ _
  · refine always_bind.mpr
      ⟨always_loop (fun u os => always_waitRound hpoll u os) _ _, fun ready _ _ _ => ?_⟩
    split <;> exact always_pure _ _
  · exact always_pure _ _
  · exact always_pure _ _
  · split <;> exact always_pure _ _

variable {alloc : Nat} {f : Bufwr} {buf : List Byte} {op : BufOp} {ops : List BufOp}

theorem fdWrite_within (fd : Int) (buf : List Byte) (os : Os) :
    (exec (fdWrite fd buf) os).Always (SysEvent.Within alloc) :=
  always_transferAll True.intro (fun _ _ os => always_transfer (fun _ => True.intro) os) os

theorem flush_within (f : Bufwr) (os : Os) :
    (exec (flush f) os).Always (SysEvent.Within alloc) := by
  rw [flush]
  split
  · exact always_pure _ _
  · refine always_bind.mpr ⟨fdWrite_within _ _ os, fun done _ _ _ => ?_⟩
    split <;> exact always_pure _ _

theorem largeWrite_within (f : Bufwr) (buf : List Byte) (os : Os) :
    (exec (largeWrite f buf) os).Always (SysEvent.Within alloc) := by
  refine always_bind.mpr ⟨flush_within f os, fun r _ _ _ => ?_⟩
  obtain ⟨flushed, f₁⟩ := r
  show (exec (if ¬ flushed = true then _ else _) _).Always _
  split
  · exact always_pure _ _
  · exact always_bind.mpr ⟨fdWrite_within _ _ _, fun _ _ _ _ => always_pure _ _⟩

theorem copy_within (h : f.cur + buf.length ≤ alloc) (os : Os) :
    (exec (f.copy buf) os).Always (SysEvent.Within alloc) := by
  have hcopy : SysEvent.Within alloc (.memcpy f.cur buf.length) := h
  exact always_bind.mpr
    ⟨always_emit hcopy os, fun _ _ _ _ => always_pure _ _⟩

theorem bufwrCopy_within (h : f.cur + buf.length ≤ alloc) (os : Os) :
    (exec (bufwrCopy f buf) os).Always (SysEvent.Within alloc) := by
  refine always_bind.mpr ⟨copy_within h os, fun _ _ _ _ => ?_⟩
  exact always_bind.mpr ⟨always_emit True.intro _, fun _ _ _ _ => always_pure _ _⟩

theorem bufwrWrite_within (hcur : f.cur ≤ f.max) (buf : List Byte) (os : Os) :
    (exec (bufwrWrite f buf) os).Always (SysEvent.Within f.max) := by
  rw [bufwrWrite]
  by_cases hlarge : buf.length ≥ f.max - f.cur + f.max
  · simp only [if_pos hlarge]
    exact largeWrite_within f buf os
  by_cases hfill : buf.length > f.max - f.cur
  · simp only [if_neg hlarge, if_pos hfill]
    have hlen : (buf.take (f.max - f.cur)).length = f.max - f.cur := by
      rw [List.length_take]
      omega
    refine always_bind.mpr ⟨copy_within (by omega) os, fun f₁ os₁ es hcopy => ?_⟩
    refine always_bind.mpr ⟨flush_within _ _, fun r _ _ hflush => ?_⟩
    obtain ⟨flushed, f₂⟩ := r
    obtain ⟨hok, rfl⟩ | ⟨hok, rfl⟩ := flush_cases hflush
    · subst hok
      refine bufwrCopy_within ?_ _
      show 0 + (buf.drop (f.max - f.cur)).length ≤ f.max
      rw [List.length_drop]
      omega
    · subst hok
      exact always_pure _ _
  · simp only [if_neg hlarge, if_neg hfill]
    exact bufwrCopy_within (by omega) os

/-- **Step**: an operation copies nothing beyond `max`. -/
theorem BufOp.run_within (hcur : f.cur ≤ f.max) (op : BufOp) (os : Os) :
    (exec (op.run f) os).Always (SysEvent.Within f.max) := by
  cases op with
  | write bytes => exact bufwrWrite_within hcur bytes os
  | flush =>
    rw [BufOp.run, bufwrFlush]
    split
    · exact always_pure _ _
    · exact flush_within f os

/-- **Run**: nor do all operations, also when one of them never returns. -/
theorem bufwrRun_within (hcur : f.cur ≤ f.max) (ops : List BufOp) (os : Os) :
    (exec (bufwrRun ops f) os).Always (SysEvent.Within f.max) := by
  induction ops generalizing f os with
  | nil => exact always_pure _ _
  | cons op ops ih =>
    refine always_bind.mpr ⟨BufOp.run_within hcur op os, fun r os₁ _ hop => ?_⟩
    obtain ⟨ok, f₁⟩ := r
    obtain ⟨hsame, hle⟩ := BufOp.run_keeps hcur hop
    refine always_bind.mpr ⟨?_, fun _ _ _ _ => always_pure _ _⟩
    rw [← hsame.max]
    exact ih hle os₁

end Events

-- ════════════════════════════════════════════════════════════════════════
-- New writers
-- ════════════════════════════════════════════════════════════════════════

/-- The writers a program can have: those that `bufwr__init` finds memory for, and
    what operations and `bufwr__leak_fd` make of them. -/
inductive Bufwr.Reachable : Bufwr → Prop where
  | init {fd : Int} {size : Nat} {os os' : Os} {es : List SysEvent} {f : Bufwr} :
      (bufwrInit fd size).Returns os f os' es → f.buf ≠ none → Reachable f
  | run {op : BufOp} {ok : Bool} {os os' : Os} {es : List SysEvent} {f f' : Bufwr} :
      Reachable f → (op.run f).Returns os (ok, f') os' es → Reachable f'
  | leak {f : Bufwr} : Reachable f → Reachable (bufwrLeakFd f)

section New

variable {fd : Int} {size : Nat} {os os' : Os} {es : List SysEvent} {f : Bufwr} {p : BufwrPtr}

/-- A buffer is never filled beyond `max`. -/
theorem Bufwr.Reachable.cur_le (h : f.Reachable) : f.cur ≤ f.max := by
  induction h with
  | init hinit _ =>
    obtain ⟨_, -, rfl⟩ := returns_bufwrInit.mp hinit
    exact Nat.zero_le _
  | run _ hop ih => exact (BufOp.run_keeps ih hop).2
  | leak _ ih => exact ih

/-- A new writer has a block of its own, and another one for its buffer. -/
theorem returns_bufwrNew (h : (bufwrNew fd size).Returns os (some p) os' es) :
    p.bufwr.Reachable ∧ p.bufwr.cur = 0 ∧ p.bufwr.max = bufferSize size % 2 ^ 32 ∧
      p.bufwr.buf = some (os.blocks + 1) ∧
      es = [.malloc sizeofBufwr (some os.blocks),
        .malloc (bufferSize size) (some (os.blocks + 1))] := by
  obtain ⟨block, os₁, es₁, es₂, hmalloc, hrest, rfl⟩ := Program.returns_bind.mp h
  obtain ⟨_, _, -, rfl, rfl, rfl⟩ | ⟨_, _, -, rfl, -, -⟩ := returns_malloc.mp hmalloc
  · obtain ⟨f, os₂, es₂, es₃, hinit, hrest, rfl⟩ := Program.returns_bind.mp hrest
    obtain ⟨block, hbuf, hf⟩ := returns_bufwrInit.mp hinit
    obtain ⟨_, _, -, rfl, rfl, rfl⟩ | ⟨_, _, -, rfl, rfl, rfl⟩ := returns_malloc.mp hbuf
    · subst hf
      obtain ⟨hp, -, rfl⟩ := Program.returns_pure.mp hrest
      obtain rfl := Option.some.inj hp
      exact ⟨.init hinit (Option.some_ne_none _), rfl, rfl, rfl, rfl⟩
    · subst hf
      obtain ⟨_, _, _, _, -, hpure, -⟩ := Program.returns_bind.mp hrest
      obtain ⟨hp, -, -⟩ := Program.returns_pure.mp hpure
      cases hp
  · obtain ⟨hp, -, -⟩ := Program.returns_pure.mp hrest
    cases hp

/-- All that operations do with a writer whose buffer was allocated with so many
    bytes: nothing is copied outside of it, and when they return, `max` is the
    size of the allocation and the buffer is not filled beyond it. -/
def Confined (alloc : Nat) (f : Bufwr) (ops : List BufOp) (os : Os) : Prop :=
  (exec (bufwrRun ops f) os).Always (SysEvent.Within alloc) ∧
    ∀ oks f' os' es, (bufwrRun ops f).Returns os (oks, f') os' es →
      0 < f'.max ∧ f'.max = alloc ∧ f'.cur ≤ f'.max

/-- **Capacity**: after any operations on a new writer, with any replies, `max` is
    positive and the size of the allocation, the buffer is not filled beyond it,
    and nothing is copied outside of it, if the size fits into 32 bits. -/
theorem bufwrNew_confined_iff (h : (bufwrNew fd size).Returns os (some p) os' es) :
    (∃ alloc, SysEvent.malloc alloc p.bufwr.buf ∈ es ∧
      ∀ (ops : List BufOp) (os : Os), Confined alloc p.bufwr ops os) ↔ size ≤ 0xffffffff := by
  obtain ⟨hreach, -, hmax, hbuf, rfl⟩ := returns_bufwrNew h
  constructor
  · rintro ⟨alloc, -, hconfined⟩
    by_contra hlarge
    have hzero : p.bufwr.max = 0 := by
      rw [hmax, bufferSize, if_pos (by omega)]
      rfl
    have hpos := ((hconfined [] os').2 [] p.bufwr os' [] rfl).1
    omega
  · intro hsize
    have halloc : p.bufwr.max = bufferSize size ∧ 0 < bufferSize size := by
      rw [hmax, bufferSize, if_neg (by omega), defaultBufSize]
      split <;> omega
    refine ⟨bufferSize size, ?_, fun ops os => ⟨?_, fun oks f' os' es hrun => ?_⟩⟩
    · rw [hbuf]
      exact List.mem_cons_of_mem _ (List.mem_singleton_self _)
    · rw [← halloc.1]
      exact bufwrRun_within hreach.cur_le ops os
    · obtain ⟨hsame, hle⟩ := bufwrRun_keeps hreach.cur_le hrun
      rw [hsame.max, halloc.1]
      exact ⟨halloc.2, rfl, by rwa [hsame.max, halloc.1] at hle⟩

/-- Two allocations succeed. -/
def roomy : Os := { replies := [.ok 0, .ok 0], blocks := 0, garbage := fun _ _ => 0 }

/-- A writer with a buffer of two bytes. -/
theorem bufwrNew_two :
    (bufwrNew 3 2).Returns roomy (some ⟨0, ⟨some 1, fun _ => 0, 0, 2, 3, false⟩⟩)
      { roomy with replies := [], blocks := 2 }
      [.malloc 24 (some 0), .malloc 2 (some 1)] := rfl

theorem bufwrNew_confined_two :
    ∃ alloc, SysEvent.malloc alloc (some 1) ∈ [.malloc 24 (some 0), .malloc 2 (some 1)] ∧
      ∀ (ops : List BufOp) (os : Os),
        Confined alloc ⟨some 1, fun _ => 0, 0, 2, 3, false⟩ ops os :=
  (bufwrNew_confined_iff bufwrNew_two).mpr (by decide)

/-- A size of 2^32 allocates 2^35 bytes, of which a write may use none. -/
theorem bufwrNew_truncates : ¬ ∀ (fd : Int) (size : Nat) (os os' : Os) (es : List SysEvent)
    (p : BufwrPtr), (bufwrNew fd size).Returns os (some p) os' es →
    ∃ alloc, SysEvent.malloc alloc p.bufwr.buf ∈ es ∧
      ∀ (ops : List BufOp) (os : Os), Confined alloc p.bufwr ops os := by
  intro h
  obtain ⟨alloc, -, hconfined⟩ := h 3 0x100000000 roomy { roomy with replies := [], blocks := 2 }
    [.malloc 24 (some 0), .malloc 0x800000000 (some 1)]
    ⟨0, ⟨some 1, fun _ => 0, 0, 0, 3, false⟩⟩ rfl
  have hpos := ((hconfined [] roomy).2 [] _ roomy [] rfl).1
  exact absurd hpos (Nat.lt_irrefl 0)

end New

end SpuKit
