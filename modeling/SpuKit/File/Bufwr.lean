import SpuKit.File.Fd

/-!
# The buffered writer

`struct bufwr` collects the bytes to be written to a descriptor in a buffer.
Translated from `bufwr.c`. The writer holds the bytes of its buffer, and a
function that changes the writer returns it.

## Main definitions

- `Bufwr` — `struct bufwr`
- `Bufwr.held` — the bytes waiting in the buffer
- `bufwrInit`, `flush`, `largeWrite`, `bufwrWrite`, `bufwrFlush`
- `bufwrFini`, `bufwrAbort`, `bufwrClose`, `bufwrLeakFd`
- `BufwrPtr`, `bufwrNew`, `BufwrPtr.close` — a writer in a block of its own

## Main results

- `largeWrite_cases`, `bufwrWrite_cases`, `bufwrFlush_cases` — the cases of a call
- `flush_rule`, `bufwrWrite_rule`, `bufwrFlush_rule` — what a call does to the
  bytes written and held
- `bufwrClose_rule` — what closing releases
-/

namespace SpuKit

/-- `DEFAULT_BUF_SIZE` -/
def defaultBufSize : Nat := 8192

/-- `MAX_BUF_SIZE` -/
def maxBufSize : Nat := 0x800000000

def bufferSize (bufSize : Nat) : Nat :=
  if bufSize > 0xffffffff then maxBufSize
  else if bufSize ≠ 0 then bufSize
  else defaultBufSize

/-- `struct bufwr`, with the bytes of the block `buf` -/
structure Bufwr where
  buf : Option Nat
  bytes : Nat → Byte
  cur : Nat
  max : Nat
  fd : Int
  corrupted : Bool

/-- `memcpy` to an offset of a block -/
def blit (src : List Byte) (off : Nat) (bytes : Nat → Byte) : Nat → Byte :=
  fun i => if off ≤ i then src.getD (i - off) (bytes i) else bytes i

namespace Bufwr

/-- `buf[0..cur)` -/
def held (f : Bufwr) : List Byte := (List.range f.cur).map f.bytes

/-- The writer after bytes were copied. -/
def copied (f : Bufwr) (ptr : List Byte) : Bufwr :=
  { f with bytes := blit ptr f.cur f.bytes, cur := f.cur + ptr.length }

/-- `memcpy(f->buf + f->cur, ptr, len)` and `f->cur += len` -/
def copy (f : Bufwr) (ptr : List Byte) : SysM Bufwr := do
  Program.emit (.memcpy f.cur ptr.length)
  pure (f.copied ptr)

end Bufwr

/-- `bufwr__init`. `max` is a `uint32_t`. -/
def bufwrInit (fd : Int) (bufSize : Nat) : SysM Bufwr := do
  let bufsz := bufferSize bufSize
  let buf ← malloc bufsz
  let os ← get
  pure
    { fd := fd
      buf := buf
      bytes := buf.elim (fun _ => 0) os.garbage
      cur := 0
      max := bufsz % 2 ^ 32
      corrupted := false }

/-- A negative descriptor takes everything. -/
def flush (f : Bufwr) : SysM (Bool × Bufwr) := do
  if f.fd < 0 then
    pure (true, { f with cur := 0 })
  else if ← fdWrite f.fd f.held then
    pure (true, { f with cur := 0 })
  else
    pure (false, { f with corrupted := true })

def largeWrite (f : Bufwr) (buf : List Byte) : SysM (Bool × Bufwr) := do
  let (ok, f) ← flush f
  if ¬ ok then
    pure (false, f)
  else
    let ok ← fdWrite f.fd buf
    pure (ok, f)

/-- The end of `bufwr_write`, where the rest of the argument is copied. -/
def bufwrCopy (f : Bufwr) (ptr : List Byte) : SysM (Bool × Bufwr) := do
  let f ← f.copy ptr
  Program.emit (.assertion (f.cur ≤ f.max))
  pure (true, f)

def bufwrWrite (f : Bufwr) (buf : List Byte) : SysM (Bool × Bufwr) := do
  let space := f.max - f.cur
  if buf.length ≥ space + f.max then
    largeWrite f buf
  else if buf.length > space then
    let f ← f.copy (buf.take space)
    let (ok, f) ← flush f
    if ¬ ok then
      pure (false, f)
    else
      bufwrCopy f (buf.drop space)
  else
    bufwrCopy f buf

def bufwrFlush (f : Bufwr) : SysM (Bool × Bufwr) :=
  if f.cur = 0 then pure (true, f) else flush f

/-- `bufwr__fini` -/
def bufwrFini (f : Bufwr) : SysM Unit := free f.buf

/-- `bufwr__abort` -/
def bufwrAbort (f : Bufwr) : SysM Unit := do
  if f.fd ≥ 0 then
    let _ ← closeFile f.fd
  bufwrFini f

/-- Does a reply to `fsync` count as success? File systems without it do not
    fail it. -/
def Reply.synced : Reply → Bool
  | .ok _ => true
  | .err errno => errno == .erofs || errno == .einval

/-- Is it a success? -/
def Reply.isOk : Reply → Bool
  | .ok _ => true
  | .err _ => false

/-- `fsync` and `close` in `bufwr__close` -/
def closeSynced (fd : Int) (sync : Bool) : SysM Bool := do
  let synced ← if sync then Reply.synced <$> fsync fd else pure true
  let closed ← closeFile fd
  pure (synced && closed.isOk)

/-- `bufwr__close` -/
def bufwrClose (f : Bufwr) (sync : Bool) : SysM (Bool × Bufwr) := do
  let (flushed, f) ← bufwrFlush f
  let closed ← if f.fd ≥ 0 then closeSynced f.fd sync else pure true
  bufwrFini f
  pure (flushed && closed, f)

/-- `bufwr__leak_fd` -/
def bufwrLeakFd (f : Bufwr) : Bufwr := { f with fd := -1 }

/-- `sizeof(struct bufwr)` -/
def sizeofBufwr : Nat := 24

/-- `bufwr_t *` that is not `NULL`: the block, with the writer in it -/
structure BufwrPtr where
  block : Nat
  bufwr : Bufwr

/-- `bufwr_new`: the new writer, or `NULL` -/
def bufwrNew (fd : Int) (bufSize : Nat) : SysM (Option BufwrPtr) := do
  match ← malloc sizeofBufwr with
  | none => pure none
  | some block =>
    let f ← bufwrInit fd bufSize
    match f.buf with
    | none =>
      free (some block)
      pure none
    | some _ => pure (some { block := block, bufwr := f })

/-- `bufwr_close` -/
def BufwrPtr.close : Option BufwrPtr → Bool → SysM Bool
  | none, _ => pure true
  | some p, sync => do
    let (ok, _) ← bufwrClose p.bufwr sync
    free (some p.block)
    pure ok

variable {f f' : Bufwr} {os os' : Os} {es : List SysEvent} {ok : Bool} {buf : List Byte}
  {rest : List Reply}

theorem blit_of_lt {src : List Byte} {off i : Nat} (bytes : Nat → Byte) (h : i < off) :
    blit src off bytes i = bytes i :=
  if_neg (by omega)

theorem blit_add (src : List Byte) (off i : Nat) (bytes : Nat → Byte) (h : i < src.length) :
    blit src off bytes (off + i) = src[i] := by
  rw [blit, if_pos (Nat.le_add_right off i), Nat.add_sub_cancel_left,
    List.getD_eq_getElem?_getD, List.getElem?_eq_getElem h, Option.getD_some]

@[simp] theorem Bufwr.held_length (f : Bufwr) : f.held.length = f.cur := by
  simp [held]

theorem Bufwr.held_of_cur_eq_zero (h : f.cur = 0) : f.held = [] := by
  simp [held, h]

@[simp] theorem Bufwr.copied_cur (f : Bufwr) (ptr : List Byte) :
    (f.copied ptr).cur = f.cur + ptr.length := rfl

/-- Copying puts the bytes after those held. -/
theorem Bufwr.held_copied (f : Bufwr) (ptr : List Byte) :
    (f.copied ptr).held = f.held ++ ptr := by
  simp only [held, copied, List.range_add, List.map_append, List.map_map]
  congr 1
  · refine List.map_congr_left fun i hi => ?_
    exact blit_of_lt f.bytes (List.mem_range.mp hi)
  · refine List.ext_getElem (by simp) fun i h _ => ?_
    simp only [List.getElem_map, List.getElem_range, Function.comp_apply]
    exact blit_add ptr f.cur i f.bytes (by simpa using h)

theorem returns_bufwrInit {fd : Int} {size : Nat} :
    (bufwrInit fd size).Returns os f os' es ↔
      ∃ block, (malloc (bufferSize size)).Returns os block os' es ∧
        f = { fd := fd
              buf := block
              bytes := block.elim (fun _ => 0) os'.garbage
              cur := 0
              max := bufferSize size % 2 ^ 32
              corrupted := false } := by
  simp only [bufwrInit, bind_pure_comp, Program.returns_bind, Program.returns_map,
    Program.returns_get]
  constructor
  · rintro ⟨block, _, _, _, hmalloc, ⟨_, ⟨rfl, rfl, rfl⟩, rfl⟩, rfl⟩
    exact ⟨block, by rwa [List.append_nil], rfl⟩
  · rintro ⟨block, hmalloc, rfl⟩
    exact ⟨block, os', es, [], hmalloc, ⟨os', ⟨rfl, rfl, rfl⟩, rfl⟩, (List.append_nil es).symm⟩

theorem Bufwr.returns_copy :
    (f.copy buf).Returns os f' os' es ↔
      f' = f.copied buf ∧ os' = os ∧ es = [.memcpy f.cur buf.length] := by
  simp only [copy, bind_pure_comp, Program.returns_map, Program.returns_emit]
  constructor
  · rintro ⟨_, ⟨rfl, rfl⟩, rfl⟩
    exact ⟨rfl, rfl, rfl⟩
  · rintro ⟨rfl, rfl, rfl⟩
    exact ⟨(), ⟨rfl, rfl⟩, rfl⟩

/-- The buffer and the descriptor are the same. -/
structure Bufwr.SameBuffer (f' f : Bufwr) : Prop where
  buf : f'.buf = f.buf
  fd : f'.fd = f.fd
  max : f'.max = f.max

theorem Bufwr.SameBuffer.refl (f : Bufwr) : f.SameBuffer f := ⟨rfl, rfl, rfl⟩

theorem Bufwr.SameBuffer.trans {f'' : Bufwr} (h' : f''.SameBuffer f') (h : f'.SameBuffer f) :
    f''.SameBuffer f :=
  ⟨h'.buf.trans h.buf, h'.fd.trans h.fd, h'.max.trans h.max⟩

theorem Bufwr.sameBuffer_copied (f : Bufwr) (ptr : List Byte) : (f.copied ptr).SameBuffer f :=
  ⟨rfl, rfl, rfl⟩

/-- On a descriptor a flush is a transfer of the bytes held. -/
theorem returns_flush (hfd : 0 ≤ f.fd) :
    (flush f).Returns os (ok, f') os' es ↔
      (fdWrite f.fd f.held).Returns os ok os' es ∧
        f' = if ok then { f with cur := 0 } else { f with corrupted := true } := by
  rw [flush, if_neg (not_lt.mpr hfd), Program.returns_bind]
  constructor
  · rintro ⟨done, _, es₁, _, hwrite, hpure, rfl⟩
    rw [← apply_ite Pure.pure, Program.returns_pure] at hpure
    obtain ⟨hret, rfl, rfl⟩ := hpure
    rw [List.append_nil]
    cases done with
    | true =>
      obtain ⟨rfl, rfl⟩ := Prod.mk.inj hret
      exact ⟨hwrite, rfl⟩
    | false =>
      obtain ⟨rfl, rfl⟩ := Prod.mk.inj hret
      exact ⟨hwrite, rfl⟩
  · rintro ⟨hwrite, rfl⟩
    refine ⟨ok, os', es, [], hwrite, ?_, (List.append_nil es).symm⟩
    cases ok <;> exact Program.returns_pure.mpr ⟨rfl, rfl, rfl⟩

/-- Flushing writes what is held, and fails when that is nothing. -/
theorem flush_rule (hfd : 0 ≤ f.fd) (h : (flush f).Returns os (ok, f') os' es) :
    os.Calls os' ∧ (∀ e ∈ es, e.isWrite = true) ∧ (f'.SameBuffer f ∧ f'.cur ≤ f.cur) ∧
      (ok = true → 0 < f.cur ∧ f'.cur = 0 ∧ written f.fd es = f.held ∧
        Transfers f.cur os.replies os'.replies) := by
  obtain ⟨hwrite, rfl⟩ := (returns_flush hfd).mp h
  obtain ⟨hos, hkind, hdone⟩ := fdWrite_rule hfd hwrite
  rw [Bufwr.held_length] at hdone
  cases ok with
  | true =>
    obtain ⟨hwritten, hcur, htransfers⟩ := hdone rfl
    exact ⟨hos, hkind, ⟨⟨rfl, rfl, rfl⟩, Nat.zero_le _⟩, fun _ => ⟨hcur, rfl, hwritten, htransfers⟩⟩
  | false =>
    exact ⟨hos, hkind, ⟨⟨rfl, rfl, rfl⟩, le_rfl⟩, fun htrue => absurd htrue Bool.false_ne_true⟩

theorem flush_begins (hfd : 0 ≤ f.fd) (h : (flush f).Returns os (ok, f') os' es) :
    written f.fd es <+: f.held :=
  fdWrite_begins hfd ((returns_flush hfd).mp h).1

theorem flush_of_transfers (hfd : 0 ≤ f.fd) (hcur : 0 < f.cur)
    (h : Transfers f.cur os.replies rest) :
    ∃ es, (flush f).Returns os (true, { f with cur := 0 }) { os with replies := rest } es := by
  rw [← Bufwr.held_length] at hcur h
  obtain ⟨es, hes⟩ := fdWrite_of_transfers hfd hcur h
  exact ⟨es, (returns_flush hfd).mpr ⟨hes, rfl⟩⟩

/-- **The cases of a large write**: the flush fails, or the argument is written after
    it. -/
theorem largeWrite_cases (h : (largeWrite f buf).Returns os (ok, f') os' es) :
    (ok = false ∧ (flush f).Returns os (false, f') os' es) ∨
    (∃ os₁ es₁ es₂, (flush f).Returns os (true, f') os₁ es₁ ∧
      (fdWrite f'.fd buf).Returns os₁ ok os' es₂ ∧ es = es₁ ++ es₂) := by
  obtain ⟨⟨flushed, f₁⟩, os₁, es₁, es₂, hflush, hrest, rfl⟩ := Program.returns_bind.mp h
  cases flushed with
  | false =>
    obtain ⟨hret, rfl, rfl⟩ := Program.returns_pure.mp hrest
    obtain ⟨rfl, rfl⟩ := Prod.mk.inj hret
    rw [List.append_nil]
    exact .inl ⟨rfl, hflush⟩
  | true =>
    obtain ⟨done, _, es₂, _, hwrite, hpure, rfl⟩ := Program.returns_bind.mp hrest
    obtain ⟨hret, rfl, rfl⟩ := Program.returns_pure.mp hpure
    obtain ⟨rfl, rfl⟩ := Prod.mk.inj hret
    rw [List.append_nil]
    exact .inr ⟨os₁, es₁, es₂, hflush, hwrite, rfl⟩

/-- A large write goes past the buffer, which is flushed first. -/
theorem largeWrite_rule (hfd : 0 ≤ f.fd) (h : (largeWrite f buf).Returns os (ok, f') os' es) :
    os.Calls os' ∧ (∀ e ∈ es, e.isWrite = true) ∧ (f'.SameBuffer f ∧ f'.cur ≤ f.cur) ∧
      (ok = true → 0 < f.cur ∧ f'.cur = 0 ∧ written f.fd es = f.held ++ buf) := by
  obtain ⟨rfl, hflush⟩ | ⟨os₁, es₁, es₂, hflush, hwrite, rfl⟩ := largeWrite_cases h
  · obtain ⟨hos, hkind, hsame, -⟩ := flush_rule hfd hflush
    exact ⟨hos, hkind, hsame, fun htrue => absurd htrue Bool.false_ne_true⟩
  · obtain ⟨hos₁, hkind₁, hsame, hdone⟩ := flush_rule hfd hflush
    obtain ⟨hcur, hzero, hwritten, -⟩ := hdone rfl
    obtain ⟨hos₂, hkind₂, hdone₂⟩ := fdWrite_rule (hsame.1.fd ▸ hfd) hwrite
    refine ⟨hos₁.trans hos₂, fun e he => ?_, hsame, fun hok => ?_⟩
    · exact (List.mem_append.mp he).elim (hkind₁ e) (hkind₂ e)
    · have hwritten₂ := (hdone₂ hok).1
      rw [hsame.1.fd] at hwritten₂
      rw [written_append, hwritten, hwritten₂]
      exact ⟨hcur, hzero, rfl⟩

theorem largeWrite_begins (hfd : 0 ≤ f.fd) (h : (largeWrite f buf).Returns os (ok, f') os' es) :
    written f.fd es <+: f.held ++ buf := by
  obtain ⟨-, hflush⟩ | ⟨os₁, es₁, es₂, hflush, hwrite, rfl⟩ := largeWrite_cases h
  · exact (flush_begins hfd hflush).trans (List.prefix_append _ _)
  · obtain ⟨-, -, ⟨hsame, -⟩, hdone⟩ := flush_rule hfd hflush
    have hrest := fdWrite_begins (hsame.fd ▸ hfd) hwrite
    rw [hsame.fd] at hrest
    rw [written_append, (hdone rfl).2.2.1]
    exact (List.prefix_append_right_inj _).mpr hrest

/-- The copy at the end never fails. -/
theorem returns_bufwrCopy :
    (bufwrCopy f buf).Returns os (ok, f') os' es ↔
      ok = true ∧ f' = f.copied buf ∧ os' = os ∧
        es = [.memcpy f.cur buf.length, .assertion (f.cur + buf.length ≤ f.max)] := by
  simp only [bufwrCopy, bind_pure_comp, Program.returns_bind, Program.returns_map,
    Program.returns_emit, Bufwr.returns_copy]
  constructor
  · rintro ⟨_, _, _, _, ⟨rfl, rfl, rfl⟩, ⟨_, ⟨rfl, rfl⟩, hret⟩, rfl⟩
    obtain ⟨rfl, rfl⟩ := Prod.mk.inj hret
    exact ⟨rfl, rfl, rfl, rfl⟩
  · rintro ⟨rfl, rfl, rfl, rfl⟩
    exact ⟨_, _, _, _, ⟨rfl, rfl, rfl⟩, ⟨(), ⟨rfl, rfl⟩, rfl⟩, rfl⟩

/-- How many bytes are held after a write that succeeds. -/
def writeLevel (max cur len : Nat) : Nat :=
  if len ≥ max - cur + max then 0
  else if len > max - cur then len - (max - cur)
  else cur + len

/-- Would the write go past an empty buffer? -/
def bypasses (max cur len : Nat) : Prop := cur = 0 ∧ 2 * max ≤ len

/-- A write that does not go past the buffer does not do so when it is empty. -/
theorem not_bypasses {max cur len : Nat} (h : len < max - cur + max) : ¬ bypasses max cur len := by
  rintro ⟨hzero, hlen⟩
  omega

/-- **The cases of a write**: its argument goes past the buffer, it fills the buffer up
    and the flush fails or the rest is copied, or it fits into the buffer. -/
theorem bufwrWrite_cases (h : (bufwrWrite f buf).Returns os (ok, f') os' es) :
    (f.max - f.cur + f.max ≤ buf.length ∧ (largeWrite f buf).Returns os (ok, f') os' es) ∨
    (buf.length < f.max - f.cur + f.max ∧ f.max - f.cur < buf.length ∧ ok = false ∧
      ∃ es₁, (flush (f.copied (buf.take (f.max - f.cur)))).Returns os (false, f') os' es₁ ∧
        es = .memcpy f.cur (buf.take (f.max - f.cur)).length :: es₁) ∨
    (buf.length < f.max - f.cur + f.max ∧ f.max - f.cur < buf.length ∧ ok = true ∧
      ∃ f₁ es₁, (flush (f.copied (buf.take (f.max - f.cur)))).Returns os (true, f₁) os' es₁ ∧
        f' = f₁.copied (buf.drop (f.max - f.cur)) ∧
        es = .memcpy f.cur (buf.take (f.max - f.cur)).length :: (es₁ ++
          [.memcpy f₁.cur (buf.drop (f.max - f.cur)).length,
            .assertion (f₁.cur + (buf.drop (f.max - f.cur)).length ≤ f₁.max)])) ∨
    (buf.length < f.max - f.cur + f.max ∧ buf.length ≤ f.max - f.cur ∧ ok = true ∧
      f' = f.copied buf ∧ os' = os ∧
      es = [.memcpy f.cur buf.length, .assertion (f.cur + buf.length ≤ f.max)]) := by
  rw [bufwrWrite] at h
  by_cases hlarge : buf.length ≥ f.max - f.cur + f.max
  · simp only [if_pos hlarge] at h
    exact .inl ⟨hlarge, h⟩
  have hbelow := not_le.mp hlarge
  by_cases hfill : buf.length > f.max - f.cur
  · simp only [if_neg hlarge, if_pos hfill] at h
    obtain ⟨_, _, _, _, hcopy, hrest, rfl⟩ := Program.returns_bind.mp h
    obtain ⟨rfl, rfl, rfl⟩ := Bufwr.returns_copy.mp hcopy
    obtain ⟨⟨flushed, f₁⟩, _, es₁, _, hflush, hrest, rfl⟩ := Program.returns_bind.mp hrest
    cases flushed with
    | false =>
      obtain ⟨hret, rfl, rfl⟩ := Program.returns_pure.mp hrest
      obtain ⟨rfl, rfl⟩ := Prod.mk.inj hret
      rw [List.append_nil]
      exact .inr (.inl ⟨hbelow, hfill, rfl, es₁, hflush, rfl⟩)
    | true =>
      obtain ⟨rfl, rfl, rfl, rfl⟩ := returns_bufwrCopy.mp hrest
      exact .inr (.inr (.inl ⟨hbelow, hfill, rfl, f₁, es₁, hflush, rfl, rfl⟩))
  · simp only [if_neg hlarge, if_neg hfill] at h
    exact .inr (.inr (.inr ⟨hbelow, not_lt.mp hfill, returns_bufwrCopy.mp h⟩))

/-- A buffer that is filled up is full. -/
theorem Bufwr.cur_of_filled (hcur : f.cur ≤ f.max) (hfill : f.max - f.cur ≤ buf.length) :
    (f.copied (buf.take (f.max - f.cur))).cur = f.max := by
  rw [copied_cur, List.length_take, Nat.min_eq_left hfill, Nat.add_sub_cancel' hcur]

/-- **A write that fills the buffer up** writes it out and holds the rest. -/
theorem fillBuffer_rule {f₁ : Bufwr} (hfd : 0 ≤ f.fd)
    (h : (flush (f.copied (buf.take (f.max - f.cur)))).Returns os (true, f₁) os' es) :
    (f₁.copied (buf.drop (f.max - f.cur))).cur = buf.length - (f.max - f.cur) ∧
      written f.fd es ++ (f₁.copied (buf.drop (f.max - f.cur))).held = f.held ++ buf := by
  have hfd' : 0 ≤ (f.copied (buf.take (f.max - f.cur))).fd := hfd
  obtain ⟨-, -, -, hdone⟩ := flush_rule hfd' h
  obtain ⟨-, hzero, hwritten, -⟩ := hdone rfl
  have hwritten' : written f.fd es = f.held ++ buf.take (f.max - f.cur) := by
    rw [← Bufwr.held_copied]
    exact hwritten
  constructor
  · rw [Bufwr.copied_cur, hzero, List.length_drop, Nat.zero_add]
  · rw [Bufwr.held_copied, Bufwr.held_of_cur_eq_zero hzero, hwritten', List.nil_append,
      List.append_assoc, List.take_append_drop]

/-- **A write** puts its argument after what was written and held. Past an empty
    buffer it fails. -/
theorem bufwrWrite_rule (hfd : 0 ≤ f.fd) (hcur : f.cur ≤ f.max)
    (h : (bufwrWrite f buf).Returns os (ok, f') os' es) :
    os.Calls os' ∧ (∀ e ∈ es, e.isWrite = true) ∧ (f'.SameBuffer f ∧ f'.cur ≤ f.max) ∧
      (ok = true → written f.fd es ++ f'.held = f.held ++ buf ∧
        f'.cur = writeLevel f.max f.cur buf.length ∧ ¬ bypasses f.max f.cur buf.length) := by
  obtain ⟨hlarge, h⟩ | ⟨-, hfill, rfl, es₁, hflush, rfl⟩ |
    ⟨hbelow, hfill, rfl, f₁, es₁, hflush, rfl, rfl⟩ | ⟨hbelow, hfits, rfl, rfl, rfl, rfl⟩ :=
    bufwrWrite_cases h
  · obtain ⟨hos, hkind, ⟨hsame, hle⟩, hdone⟩ := largeWrite_rule hfd h
    refine ⟨hos, hkind, ⟨hsame, hle.trans hcur⟩, fun hok => ?_⟩
    obtain ⟨hpos, hzero, hwritten⟩ := hdone hok
    refine ⟨?_, ?_, fun hbypass => ?_⟩
    · rw [hwritten, Bufwr.held_of_cur_eq_zero hzero, List.append_nil]
    · rw [hzero, writeLevel, if_pos hlarge]
    · exact absurd hbypass.1 hpos.ne'
  · have hfd' : 0 ≤ (f.copied (buf.take (f.max - f.cur))).fd := hfd
    obtain ⟨hos, hkind, ⟨hsame, hle⟩, -⟩ := flush_rule hfd' hflush
    rw [Bufwr.cur_of_filled hcur hfill.le] at hle
    refine ⟨hos, ?_, ⟨hsame.trans (f.sameBuffer_copied _), hle⟩,
      fun htrue => absurd htrue Bool.false_ne_true⟩
    simpa [SysEvent.isWrite] using hkind
  · have hfd' : 0 ≤ (f.copied (buf.take (f.max - f.cur))).fd := hfd
    obtain ⟨hos, hkind, ⟨hsame, -⟩, -⟩ := flush_rule hfd' hflush
    obtain ⟨hlevel, hheld⟩ := fillBuffer_rule hfd hflush
    refine ⟨hos, ?_, ⟨(f₁.sameBuffer_copied _).trans (hsame.trans (f.sameBuffer_copied _)), ?_⟩,
      fun _ => ⟨?_, ?_, not_bypasses hbelow⟩⟩
    · simpa [SysEvent.isWrite, or_imp, forall_and] using hkind
    · omega
    · simpa [SysEvent.written] using hheld
    · rw [hlevel, writeLevel, if_neg (not_le.mpr hbelow), if_pos hfill]
  · refine ⟨.refl os', by simp [SysEvent.isWrite], ⟨⟨rfl, rfl, rfl⟩, ?_⟩,
      fun _ => ⟨?_, ?_, not_bypasses hbelow⟩⟩
    · rw [Bufwr.copied_cur]
      omega
    · rw [Bufwr.held_copied]
      simp [SysEvent.written]
    · rw [Bufwr.copied_cur, writeLevel, if_neg (not_le.mpr hbelow), if_neg (not_lt.mpr hfits)]

/-- However a write ends, a beginning of what was held and its argument is written. -/
theorem bufwrWrite_begins (hfd : 0 ≤ f.fd) (hcur : f.cur ≤ f.max)
    (h : (bufwrWrite f buf).Returns os (ok, f') os' es) : written f.fd es <+: f.held ++ buf := by
  cases ok with
  | true =>
    obtain ⟨-, -, -, hdone⟩ := bufwrWrite_rule hfd hcur h
    rw [← (hdone rfl).1]
    exact List.prefix_append _ _
  | false =>
    obtain ⟨-, h⟩ | ⟨-, -, -, es₁, hflush, rfl⟩ | ⟨-, -, hok, -⟩ | ⟨-, -, hok, -⟩ :=
      bufwrWrite_cases h
    · exact largeWrite_begins hfd h
    · have hfd' : 0 ≤ (f.copied (buf.take (f.max - f.cur))).fd := hfd
      have hfilled : written f.fd es₁ <+: (f.copied (buf.take (f.max - f.cur))).held :=
        flush_begins hfd' hflush
      rw [Bufwr.held_copied] at hfilled
      rw [written_cons]
      exact hfilled.trans ((List.prefix_append_right_inj _).mpr (List.take_prefix _ _))
    · cases hok
    · cases hok

/-- A write that fits into the buffer is copied. -/
theorem bufwrWrite_of_fits (hspace : buf.length ≤ f.max - f.cur)
    (hmax : 0 < f.max) : bufwrWrite f buf = bufwrCopy f buf := by
  rw [bufwrWrite]
  simp only [if_neg (show ¬ buf.length ≥ f.max - f.cur + f.max by omega),
    if_neg (show ¬ buf.length > f.max - f.cur by omega)]

/-- **The cases of a flush**: nothing is held, or the buffer is flushed. -/
theorem bufwrFlush_cases (h : (bufwrFlush f).Returns os (ok, f') os' es) :
    (f.cur = 0 ∧ ok = true ∧ f' = f ∧ os' = os ∧ es = []) ∨
    (f.cur ≠ 0 ∧ (flush f).Returns os (ok, f') os' es) := by
  by_cases hzero : f.cur = 0
  · rw [bufwrFlush, if_pos hzero] at h
    obtain ⟨hret, rfl, rfl⟩ := Program.returns_pure.mp h
    obtain ⟨rfl, rfl⟩ := Prod.mk.inj hret
    exact .inl ⟨hzero, rfl, rfl, rfl, rfl⟩
  · rw [bufwrFlush, if_neg hzero] at h
    exact .inr ⟨hzero, h⟩

/-- **A flush** writes what is held. -/
theorem bufwrFlush_rule (hfd : 0 ≤ f.fd) (h : (bufwrFlush f).Returns os (ok, f') os' es) :
    os.Calls os' ∧ (∀ e ∈ es, e.isWrite = true) ∧ (f'.SameBuffer f ∧ f'.cur ≤ f.cur) ∧
      (ok = true → written f.fd es = f.held ∧ f'.cur = 0 ∧
        Transfers f.cur os.replies os'.replies) := by
  obtain ⟨hzero, rfl, rfl, rfl, rfl⟩ | ⟨-, hflush⟩ := bufwrFlush_cases h
  · refine ⟨.refl os', by simp, ⟨⟨rfl, rfl, rfl⟩, le_rfl⟩, fun _ => ⟨?_, hzero, ?_⟩⟩
    · rw [Bufwr.held_of_cur_eq_zero hzero, written_nil]
    · rw [hzero]
      exact .done _
  · obtain ⟨hos, hkind, hsame, hdone⟩ := flush_rule hfd hflush
    refine ⟨hos, hkind, hsame, fun hok => ?_⟩
    obtain ⟨-, hempty, hwritten, htransfers⟩ := hdone hok
    exact ⟨hwritten, hempty, htransfers⟩

theorem bufwrFlush_begins (hfd : 0 ≤ f.fd) (h : (bufwrFlush f).Returns os (ok, f') os' es) :
    written f.fd es <+: f.held := by
  obtain ⟨-, -, -, -, rfl⟩ | ⟨-, hflush⟩ := bufwrFlush_cases h
  · exact List.nil_prefix
  · exact flush_begins hfd hflush

theorem bufwrFlush_of_transfers (hfd : 0 ≤ f.fd) (h : Transfers f.cur os.replies rest) :
    ∃ es f', (bufwrFlush f).Returns os (true, f') { os with replies := rest } es := by
  by_cases hzero : f.cur = 0
  · rw [hzero] at h
    obtain rfl := h.eq_of_zero
    refine ⟨[], f, ?_⟩
    rw [bufwrFlush, if_pos hzero]
    exact Program.returns_pure.mpr ⟨rfl, rfl, rfl⟩
  · obtain ⟨es, hes⟩ := flush_of_transfers hfd (Nat.pos_of_ne_zero hzero) h
    exact ⟨es, _, by rw [bufwrFlush, if_neg hzero]; exact hes⟩

/-- The replies decide whether a flush succeeds. -/
theorem bufwrFlush_transfers_iff (rest : List Reply) (hfd : 0 ≤ f.fd)
    (h : (bufwrFlush f).Returns os (ok, f') os' es) :
    Transfers f.cur os.replies rest ↔ ok = true ∧ rest = os'.replies := by
  constructor
  · intro htransfers
    obtain ⟨es', f'', hes'⟩ := bufwrFlush_of_transfers hfd htransfers
    obtain ⟨hret, rfl, -⟩ := h.unique hes'
    exact ⟨(Prod.mk.inj hret).1, rfl⟩
  · rintro ⟨hok, rfl⟩
    exact ((bufwrFlush_rule hfd h).2.2.2 hok).2.2

/-- Without syncing, a descriptor is closed by one call. -/
theorem closeSynced_rule {fd : Int} (h : (closeSynced fd false).Returns os ok os' es) :
    es = [.close fd] := by
  simp only [closeSynced, Bool.false_eq_true, if_false, bind_pure_comp, Program.returns_bind,
    Program.returns_map, Program.returns_pure, closeFile, returns_systemCall] at h
  obtain ⟨_, _, _, _, ⟨rfl, rfl, rfl⟩, ⟨_, ⟨_, -, rfl, rfl⟩, rfl⟩, rfl⟩ := h
  rfl

/-- With nothing held, closing a writer closes its descriptor and frees its
    buffer. -/
theorem bufwrClose_rule {block : Nat} (hfd : 0 ≤ f.fd) (hcur : f.cur = 0)
    (hbuf : f.buf = some block) (h : (bufwrClose f false).Returns os (ok, f') os' es) :
    es = [.close f.fd, .free block] := by
  obtain ⟨⟨flushed, f₁⟩, _, _, es₁, hflush, hrest, rfl⟩ := Program.returns_bind.mp h
  obtain ⟨-, rfl, rfl, rfl, rfl⟩ := (bufwrFlush_cases hflush).resolve_right fun hne => hne.1 hcur
  simp only [ge_iff_le, if_pos hfd] at hrest
  obtain ⟨closed, _, _, es₂, hclose, hrest', rfl⟩ := Program.returns_bind.mp hrest
  obtain rfl := closeSynced_rule hclose
  obtain ⟨_, _, _, es₃, hfree, hpure, rfl⟩ := Program.returns_bind.mp hrest'
  rw [bufwrFini, hbuf] at hfree
  obtain ⟨rfl, rfl⟩ := Program.returns_emit.mp hfree
  obtain ⟨-, -, rfl⟩ := Program.returns_pure.mp hpure
  rfl

end SpuKit
