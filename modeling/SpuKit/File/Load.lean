import SpuKit.File.Bufwr

/-!
# Loading a file

`load` reads a file over the static `struct spc_file`, with as many calls of
`read` as it takes. The environment decides how much each call reads, but can
only hand out what is in the file. There is no second try: an interrupted call
fails the load, as does the end of the file.

## Main definitions

- `LoadEvent`, `Loader` — the calls, and the environment with the static variable
- `readInto`, `fillBuf`, `load`

## Main results

- `fillBuf_rule` — the buffer is filled with the file, from the start
- `load_fills` — a load fills the variable from the front with the file, as far
  as it was read, and succeeds when nothing is missing
- `load_asserts` — every assertion holds, in every execution
- `load_calls` — every descriptor is closed
- `load_rule` — the three together
- `load_of_readable` — a file that can be read is loaded when it is long enough
-/

namespace SpuKit

/-- The calls behind `load`. -/
inductive LoadEvent where
  | openFile (name : String) (reply : Reply)
  | read (fd count : Nat) (reply : Reply)
  | close (fd : Nat)
  /-- an `xassert` is evaluated -/
  | assertion (holds : Bool)
  deriving DecidableEq

/-- Does the call open this descriptor? -/
def LoadEvent.opens (fd : Nat) : LoadEvent → Bool
  | .openFile _ (.ok ret) => ret == fd
  | _ => false

/-- The environment with the static variable `spc`. There is one open file at a
    time, and `unread` is what is left of it. -/
structure Loader where
  replies : List Reply
  files : String → List Byte
  unread : List Byte
  spc : Nat → Byte

/-- A program that loads files. -/
abbrev LoadM := Program LoadEvent Loader

/-- The next reply. -/
def takeReply : LoadM Reply := do
  let os ← get
  match os.replies with
  | [] => Program.stop
  | reply :: replies =>
    set { os with replies := replies }
    pure reply

/-- `open` with `O_RDONLY` -/
def openRead (fn : String) : LoadM Reply := do
  let reply ← takeReply
  Program.emit (.openFile fn reply)
  modify fun os => if reply.isOk then { os with unread := os.files fn } else os
  pure reply

def closeRead (fd : Nat) : LoadM Unit := do
  let _ ← takeReply
  Program.emit (.close fd)

/-- The bytes that a call of `read` moves to an offset of `spc`. -/
def Loader.moved (os : Loader) (ret count : Nat) : List Byte := os.unread.take (min ret count)

/-- The environment after a call of `read`. -/
def Loader.afterRead (os : Loader) (off ret count : Nat) : Loader :=
  { os with
    unread := os.unread.drop (min ret count)
    spc := blit (os.moved ret count) off os.spc }

/-- `read` to an offset of `spc` -/
def readInto (fd off count : Nat) : LoadM Reply := do
  match ← takeReply with
  | .err errno =>
    Program.emit (.read fd count (.err errno))
    pure (.err errno)
  | .ok ret =>
    let os ← get
    set (os.afterRead off ret count)
    Program.emit (.read fd count (.ok (os.moved ret count).length))
    pure (.ok (os.moved ret count).length)

/-- One round of `fill_buf`, with `sent` bytes of `len` there. -/
def fillRound (fd len sent : Nat) : LoadM (Nat ⊕ Bool) := do
  if len - sent = 0 then
    pure (.inr true)
  else
    match ← readInto fd sent (len - sent) with
    | .err _ => pure (.inr false)
    | .ok 0 => pure (.inr false)
    | .ok ret =>
      Program.emit (.assertion (decide (ret ≤ len - sent)))
      if ret ≤ len - sent then pure (.inl (sent + ret)) else Program.stop

/-- Every round takes a reply. -/
def loadRepliesLeft (os : Loader) : Nat := os.replies.length + 1

def fillBuf (fd len : Nat) : LoadM Bool := Program.loop (fillRound fd len) loadRepliesLeft 0

/-- `sizeof(struct spc_file)` -/
def sizeofSpcFile : Nat := 0x10200

def load (fn : String) : LoadM Bool := do
  match ← openRead fn with
  | .err _ => pure false
  | .ok fd =>
    let ret ← fillBuf fd sizeofSpcFile
    closeRead fd
    pure ret

variable {os os' : Loader} {es : List LoadEvent} {reply : Reply} {fd off count len sent : Nat}
  {fn : String} {ok : Bool}

theorem returns_readInto_err (os : Loader) (errno : Errno) (rest : List Reply) :
    (readInto fd off count).Returns { os with replies := .err errno :: rest } (.err errno)
      { os with replies := rest } [.read fd count (.err errno)] := rfl

theorem returns_readInto_ok (os : Loader) (ret : Nat) (rest : List Reply) :
    (readInto fd off count).Returns { os with replies := .ok ret :: rest }
      (.ok (os.moved ret count).length) { os.afterRead off ret count with replies := rest }
      [.read fd count (.ok (os.moved ret count).length)] := rfl

/-- A call of `read` fails, or moves bytes. -/
theorem readInto_cases (h : (readInto fd off count).Returns os reply os' es) :
    es = [.read fd count reply] ∧
      ((∃ errno rest, reply = .err errno ∧ os' = { os with replies := rest }) ∨
        ∃ ret rest, reply = .ok (os.moved ret count).length ∧
          os' = { os.afterRead off ret count with replies := rest }) := by
  obtain ⟨replies, files, unread, spc⟩ := os
  rcases replies with _ | ⟨ret | errno, rest⟩
  · cases (Traced.mk.inj h).1
  · obtain ⟨rfl, rfl, rfl⟩ := h.unique (returns_readInto_ok ⟨[], files, unread, spc⟩ ret rest)
    exact ⟨rfl, .inr ⟨ret, rest, rfl, rfl⟩⟩
  · obtain ⟨rfl, rfl, rfl⟩ := h.unique (returns_readInto_err ⟨[], files, unread, spc⟩ errno rest)
    exact ⟨rfl, .inl ⟨errno, rest, rfl, rfl⟩⟩

/-- Bytes are copied behind the ones before them. -/
theorem blit_blit (bytes : List Byte) (sent k : Nat) (mem : Nat → Byte) :
    blit ((bytes.drop sent).take k) sent (blit (bytes.take sent) 0 mem) =
      blit (bytes.take (sent + k)) 0 mem := by
  funext i
  simp only [blit, List.getD_eq_getElem?_getD, List.getElem?_take, List.getElem?_drop, Nat.sub_zero,
    Nat.zero_le, if_true]
  by_cases hi : sent ≤ i
  · have hat : sent + (i - sent) = i := by omega
    have hk : i - sent < k ↔ i < sent + k := by omega
    rw [if_pos hi, if_neg (Nat.not_lt.mpr hi), hat, if_congr hk rfl rfl]
    rfl
  · rw [if_neg hi, if_pos (Nat.lt_of_not_le hi), if_pos (by omega)]

/-- What `fill_buf` has done: the first bytes of the file are there. -/
structure Filled (start : Loader) (sent : Nat) (os : Loader) : Prop where
  inFile : sent ≤ start.unread.length
  files : os.files = start.files
  unread : os.unread = start.unread.drop sent
  spc : os.spc = blit (start.unread.take sent) 0 start.spc

theorem Filled.start (os : Loader) : Filled os 0 os where
  inFile := Nat.zero_le _
  files := rfl
  unread := rfl
  spc := by
    funext i
    rfl

theorem Filled.withReplies {start : Loader} (h : Filled start sent os) (rest : List Reply) :
    Filled start sent { os with replies := rest } := ⟨h.inFile, h.files, h.unread, h.spc⟩

/-- **Step**: another call of `read` -/
theorem Filled.afterRead {start : Loader} (h : Filled start sent os) (ret count : Nat)
    (rest : List Reply) :
    Filled start (sent + (os.moved ret count).length)
      { os.afterRead sent ret count with replies := rest } := by
  have hlen : (os.moved ret count).length =
      min (min ret count) (start.unread.length - sent) := by
    rw [Loader.moved, h.unread, List.length_take, List.length_drop]
  have hin := h.inFile
  refine ⟨by omega, h.files, ?_, ?_⟩
  · show os.unread.drop (min ret count) = _
    rw [h.unread, List.drop_drop, hlen]
    by_cases hle : min ret count ≤ start.unread.length - sent
    · rw [Nat.min_eq_left hle]
    · rw [List.drop_eq_nil_of_le (by omega), List.drop_eq_nil_of_le (by omega)]
  · show blit (os.moved ret count) sent os.spc = _
    rw [hlen, Loader.moved, h.unread, h.spc, blit_blit]
    congr 1
    by_cases hle : min ret count ≤ start.unread.length - sent
    · rw [Nat.min_eq_left hle]
    · rw [List.take_of_length_le (by omega), List.take_of_length_le (by omega)]

/-- A round of `fill_buf` reads once. -/
def isRead (fd : Nat) : LoadEvent → Bool
  | .read fd' _ _ => fd' == fd
  | .assertion holds => holds
  | _ => false

/-- What a round of `fill_buf` leaves: it goes on with more bytes, or it is done,
    with all of them if it succeeds. -/
def FilledUpTo (start : Loader) (len : Nat) : Nat ⊕ Bool → Loader → Prop
  | .inl sent, os => sent ≤ len ∧ Filled start sent os
  | .inr ok, os => ∃ sent, sent ≤ len ∧ Filled start sent os ∧ (ok = true → sent = len)

/-- **Step**: a round of `fill_buf` -/
theorem fillRound_rule {start : Loader} {r : Nat ⊕ Bool} (hsent : sent ≤ len)
    (hfilled : Filled start sent os) (h : (fillRound fd len sent).Returns os r os' es) :
    (∀ e ∈ es, isRead fd e = true) ∧
      FilledUpTo start len r os' := by
  rw [fillRound] at h
  split at h
  · next hdone =>
    obtain ⟨rfl, rfl, rfl⟩ := Program.returns_pure.mp h
    exact ⟨fun e he => (List.not_mem_nil he).elim, sent, hsent, hfilled, fun _ => by omega⟩
  · obtain ⟨reply, os₁, es₁, es₂, hread, hrest, rfl⟩ := Program.returns_bind.mp h
    obtain ⟨rfl, ⟨errno, rest, rfl, rfl⟩ | ⟨ret, rest, rfl, rfl⟩⟩ := readInto_cases hread
    · obtain ⟨rfl, rfl, rfl⟩ := Program.returns_pure.mp hrest
      refine ⟨fun e he => ?_, sent, hsent, hfilled.withReplies rest, fun h => Bool.noConfusion h⟩
      rw [List.append_nil, List.mem_singleton] at he
      rw [he, isRead, beq_self_eq_true]
    · have hnext := hfilled.afterRead ret (len - sent) rest
      have hmoved : (os.moved ret (len - sent)).length ≤ len - sent :=
        (List.length_take_le _ _).trans (Nat.min_le_right _ _)
      cases hn : (os.moved ret (len - sent)).length with
      | zero =>
        rw [hn] at hrest hnext
        obtain ⟨rfl, rfl, rfl⟩ := Program.returns_pure.mp hrest
        refine ⟨fun e he => ?_, sent, hsent, hnext, fun h => Bool.noConfusion h⟩
        rw [List.append_nil, List.mem_singleton] at he
        rw [he, isRead, beq_self_eq_true]
      | succ n =>
        rw [hn] at hrest hnext hmoved
        obtain ⟨_, os₂, es₃, es₄, hassert, hadd, rfl⟩ := Program.returns_bind.mp hrest
        obtain ⟨rfl, rfl⟩ := Program.returns_emit.mp hassert
        rw [if_pos hmoved] at hadd
        obtain ⟨rfl, rfl, rfl⟩ := Program.returns_pure.mp hadd
        refine ⟨fun e he => ?_, by omega, hnext⟩
        rw [List.append_nil, decide_eq_true hmoved] at he
        obtain rfl | rfl := List.mem_pair.mp he
        · rw [isRead, beq_self_eq_true]
        · rfl

/-- **Loop**: the buffer is filled from the start of what is left of the file, up to
    its end if the loop succeeds. -/
theorem fillBuf_rule (h : (fillBuf fd len).Returns os ok os' es) :
    (∀ e ∈ es, isRead fd e = true) ∧
      ∃ sent, sent ≤ len ∧ Filled os sent os' ∧ (ok = true → sent = len) := by
  refine Program.Returns.loop_rule
    (fun sent os' es => (∀ e ∈ es, isRead fd e = true) ∧ sent ≤ len ∧ Filled os sent os')
    (fun ok os' es => (∀ e ∈ es, isRead fd e = true) ∧
      ∃ sent, sent ≤ len ∧ Filled os sent os' ∧ (ok = true → sent = len)) ?_ ?_ h
    ⟨fun e he => (List.not_mem_nil he).elim, Nat.zero_le _, .start os⟩
  · rintro sent sent' os₁ os₂ es₁ es₂ ⟨hes, hsent, hfilled⟩ hround
    obtain ⟨hes', hnext⟩ := fillRound_rule hsent hfilled hround
    exact ⟨fun e he => (List.mem_append.mp he).elim (hes e) (hes' e), hnext⟩
  · rintro sent ok os₁ os₂ es₁ es₂ ⟨hes, hsent, hfilled⟩ hround
    obtain ⟨hes', hdone⟩ := fillRound_rule hsent hfilled hround
    exact ⟨fun e he => (List.mem_append.mp he).elim (hes e) (hes' e), hdone⟩

theorem returns_openRead_ok (os : Loader) (fd : Nat) (rest : List Reply) :
    (openRead fn).Returns { os with replies := .ok fd :: rest } (.ok fd)
      { os with replies := rest, unread := os.files fn } [.openFile fn (.ok fd)] := rfl

theorem returns_openRead_err (os : Loader) (errno : Errno) (rest : List Reply) :
    (openRead fn).Returns { os with replies := .err errno :: rest } (.err errno)
      { os with replies := rest } [.openFile fn (.err errno)] := rfl

theorem returns_closeRead (fd : Nat) (os : Loader) (reply : Reply) (rest : List Reply) :
    (closeRead fd).Returns { os with replies := reply :: rest } ()
      { os with replies := rest } [.close fd] := rfl

theorem openRead_cases (h : (openRead fn).Returns os reply os' es) :
    es = [.openFile fn reply] ∧
      ((∃ errno rest, reply = .err errno ∧ os' = { os with replies := rest }) ∨
        ∃ fd rest, reply = .ok fd ∧
          os' = { os with replies := rest, unread := os.files fn }) := by
  obtain ⟨replies, files, unread, spc⟩ := os
  rcases replies with _ | ⟨ret | errno, rest⟩
  · cases (Traced.mk.inj h).1
  · obtain ⟨rfl, rfl, rfl⟩ := h.unique (returns_openRead_ok ⟨[], files, unread, spc⟩ ret rest)
    exact ⟨rfl, .inr ⟨ret, rest, rfl, rfl⟩⟩
  · obtain ⟨rfl, rfl, rfl⟩ := h.unique (returns_openRead_err ⟨[], files, unread, spc⟩ errno rest)
    exact ⟨rfl, .inl ⟨errno, rest, rfl, rfl⟩⟩

theorem closeRead_cases {u : Unit} (h : (closeRead fd).Returns os u os' es) :
    es = [.close fd] ∧ ∃ rest, os' = { os with replies := rest } := by
  obtain ⟨replies, files, unread, spc⟩ := os
  rcases replies with _ | ⟨reply, rest⟩
  · cases (Traced.mk.inj h).1
  · obtain ⟨-, rfl, rfl⟩ := h.unique (returns_closeRead fd ⟨[], files, unread, spc⟩ reply rest)
    exact ⟨rfl, rest, rfl⟩

/-- Reading opens and closes nothing. -/
theorem count_isRead (h : ∀ e ∈ es, isRead fd e = true) (fd' : Nat) :
    es.countP (LoadEvent.opens fd') = 0 ∧ es.count (.close fd') = 0 := by
  rw [List.countP_eq_zero, List.count_eq_zero]
  refine ⟨fun e he hopens => ?_, fun hmem => ?_⟩
  · cases e with
    | openFile name reply => cases h _ he
    | read | close | assertion => cases hopens
  · cases h _ hmem

/-- The cases of a load: there is no descriptor, or the file is read from it. -/
theorem load_cases (h : (load fn).Returns os ok os' es) :
    (∃ errno rest, ok = false ∧ os' = { os with replies := rest } ∧
        es = [.openFile fn (.err errno)]) ∨
      ∃ fd rest rest' os₁ es₁,
        (fillBuf fd sizeofSpcFile).Returns { os with replies := rest, unread := os.files fn }
          ok os₁ es₁ ∧
        os' = { os₁ with replies := rest' } ∧
        es = .openFile fn (.ok fd) :: (es₁ ++ [.close fd]) := by
  obtain ⟨reply, os₁, es₁, es₂, hopen, hrest, rfl⟩ := Program.returns_bind.mp h
  obtain ⟨rfl, ⟨errno, rest, rfl, rfl⟩ | ⟨fd, rest, rfl, rfl⟩⟩ := openRead_cases hopen
  · obtain ⟨rfl, rfl, rfl⟩ := Program.returns_pure.mp hrest
    exact .inl ⟨errno, rest, rfl, rfl, rfl⟩
  · obtain ⟨ret, os₂, es₃, es₄, hfill, hclosed, rfl⟩ := Program.returns_bind.mp hrest
    obtain ⟨_, os₃, es₅, es₆, hclose, hpure, rfl⟩ := Program.returns_bind.mp hclosed
    obtain ⟨rfl, rfl, rfl⟩ := Program.returns_pure.mp hpure
    obtain ⟨rfl, rest', rfl⟩ := closeRead_cases hclose
    exact .inr ⟨fd, rest, rest', os₂, es₃, hfill, rfl, rfl⟩

/-- The variable is replaced by the start of the file when the load succeeds, and
    by a part of it otherwise. -/
theorem load_fills (h : (load fn).Returns os ok os' es) :
    os'.files = os.files ∧
      ∃ sent, sent ≤ (os.files fn).length ∧ sent ≤ sizeofSpcFile ∧
        os'.spc = blit ((os.files fn).take sent) 0 os.spc ∧ (ok = true → sent = sizeofSpcFile) := by
  obtain ⟨errno, rest, rfl, rfl, -⟩ | ⟨fd, rest, rest', os₁, es₁, hfill, rfl, -⟩ := load_cases h
  · refine ⟨rfl, 0, Nat.zero_le _, Nat.zero_le _, ?_, fun h => Bool.noConfusion h⟩
    funext i
    rfl
  · obtain ⟨-, sent, hsent, hfilled, hall⟩ := fillBuf_rule hfill
    exact ⟨hfilled.files, sent, hfilled.inFile, hsent, hfilled.spc, hall⟩

/-- A load that returns closes what it opens. -/
theorem load_calls (h : (load fn).Returns os ok os' es) (fd : Nat) :
    es.countP (LoadEvent.opens fd) = es.count (.close fd) := by
  obtain ⟨errno, rest, -, -, rfl⟩ | ⟨fd', rest, rest', os₁, es₁, hfill, -, rfl⟩ := load_cases h
  · rfl
  · obtain ⟨hreads, -⟩ := fillBuf_rule hfill
    obtain ⟨hopens, hcloses⟩ := count_isRead hreads fd
    rw [List.countP_cons, List.countP_append, List.count_cons, List.count_append, hopens, hcloses]
    by_cases hfd : fd' = fd <;> simp [LoadEvent.opens, hfd]

section Assertions

open Program (exec always_bind always_pure always_emit)

theorem always_takeReply {P : LoadEvent → Prop} (os : Loader) :
    (exec takeReply os).Always P := by
  rcases os with ⟨_ | ⟨reply, replies⟩, files, unread, spc⟩ <;>
    exact fun e he => (List.not_mem_nil he).elim

theorem always_readInto {P : LoadEvent → Prop} (h : ∀ reply, P (.read fd count reply))
    (os : Loader) : (exec (readInto fd off count) os).Always P := by
  refine always_bind.mpr ⟨always_takeReply os, fun reply os₁ _ _ => ?_⟩
  cases reply with
  | err errno => exact always_bind.mpr ⟨always_emit (h _) os₁, fun _ _ _ _ => always_pure _ _⟩
  | ok ret =>
    intro e he
    exact List.mem_singleton.mp he ▸ h _

/-- A call of `read` returns no more than it was asked for, so the assertion of
    the round holds. -/
theorem fillRound_asserts (fd len sent : Nat) (os : Loader) :
    (exec (fillRound fd len sent) os).Always (· ≠ .assertion false) := by
  rw [fillRound]
  split
  · exact always_pure _ os
  · refine always_bind.mpr ⟨always_readInto (fun _ => LoadEvent.noConfusion) os, ?_⟩
    intro reply os₁ es hread
    obtain ⟨-, ⟨errno, rest, rfl, -⟩ | ⟨ret, rest, rfl, -⟩⟩ := readInto_cases hread
    · exact always_pure _ os₁
    · have hmoved : (os.moved ret (len - sent)).length ≤ len - sent :=
        (List.length_take_le _ _).trans (Nat.min_le_right _ _)
      cases hn : (os.moved ret (len - sent)).length with
      | zero => exact always_pure _ os₁
      | succ n =>
        rw [hn] at hmoved
        show (exec (Program.emit _ >>= _) os₁).Always _
        rw [decide_eq_true hmoved, if_pos hmoved]
        exact always_bind.mpr
          ⟨always_emit (by simp) os₁, fun _ _ _ _ => always_pure _ _⟩

/-- **No assertion fails**, in whatever way a load ends. -/
theorem load_asserts (fn : String) (os : Loader) :
    (exec (load fn) os).Always (· ≠ .assertion false) := by
  have hopen : (exec (openRead fn) os).Always (· ≠ .assertion false) :=
    always_bind.mpr ⟨always_takeReply os, fun reply os₁ _ _ =>
      always_bind.mpr ⟨always_emit LoadEvent.noConfusion os₁, fun _ _ _ _ e he =>
        (List.not_mem_nil he).elim⟩⟩
  have hclose : ∀ fd os, (exec (closeRead fd) os).Always (· ≠ .assertion false) := fun fd os =>
    always_bind.mpr ⟨always_takeReply os, fun _ os₁ _ _ => always_emit LoadEvent.noConfusion os₁⟩
  refine always_bind.mpr ⟨hopen, fun reply os₁ _ _ => ?_⟩
  cases reply with
  | err errno => exact always_pure _ os₁
  | ok fd =>
    refine always_bind.mpr ⟨Program.always_loop (fillRound_asserts fd _) _ _, ?_⟩
    intro ret os₂ _ _
    exact always_bind.mpr ⟨hclose fd os₂, fun _ _ _ _ => always_pure _ _⟩

end Assertions

/-- **Load**: no assertion fails. When a load returns, the variable is replaced by
    the start of the file if it succeeds, and by a part of it otherwise, and the
    descriptor is closed if there is one. -/
theorem load_rule (fn : String) (os : Loader) :
    (Program.exec (load fn) os).Always (· ≠ .assertion false) ∧
      ∀ ok os' es, (load fn).Returns os ok os' es →
        os'.files = os.files ∧
        (∃ sent, sent ≤ (os.files fn).length ∧ sent ≤ sizeofSpcFile ∧
          os'.spc = blit ((os.files fn).take sent) 0 os.spc ∧
          (ok = true → sent = sizeofSpcFile)) ∧
        ∀ fd, es.countP (LoadEvent.opens fd) = es.count (.close fd) := by
  refine ⟨load_asserts fn os, fun ok os' es h => ?_⟩
  obtain ⟨hfiles, hspc⟩ := load_fills h
  exact ⟨hfiles, hspc, load_calls h⟩

/-- A file of three bytes, in two calls. -/
theorem load_rule_short :
    ∃ os' es, (load "a.spc").Returns
        ⟨[.ok 3, .ok 2, .ok 5, .ok 1, .ok 0], fun _ => [1, 2, 3], [], fun _ => 0⟩ false os' es ∧
      .assertion false ∉ es ∧
      ∃ sent, sent ≤ 3 ∧ os'.spc = blit ([1, 2, 3].take sent) 0 (fun _ => 0) ∧
        ∀ fd, es.countP (LoadEvent.opens fd) = es.count (.close fd) := by
  have hrun : (load "a.spc").Returns
      ⟨[.ok 3, .ok 2, .ok 5, .ok 1, .ok 0], fun _ => [1, 2, 3], [], fun _ => 0⟩ false _ _ := rfl
  obtain ⟨hasserts, hreturns⟩ := load_rule "a.spc"
    ⟨[.ok 3, .ok 2, .ok 5, .ok 1, .ok 0], fun _ => [1, 2, 3], [], fun _ => 0⟩
  obtain ⟨-, ⟨sent, hsent, -, hspc, -⟩, hclosed⟩ := hreturns _ _ _ hrun
  exact ⟨_, _, hrun, fun hmem => hasserts _ hmem rfl, sent, hsent, hspc, hclosed⟩

-- ════════════════════════════════════════════════════════════════════════
-- Files that can be read
-- ════════════════════════════════════════════════════════════════════════

/-- The replies of a file that can be read: a call moves something while there is
    something left. -/
def Readable (replies : List Reply) : Prop := ∀ reply ∈ replies, ∃ ret, 0 < ret ∧ reply = .ok ret

theorem Readable.tail {replies : List Reply} (h : Readable (reply :: replies)) :
    Readable replies :=
  fun r hr => h r (List.mem_cons_of_mem _ hr)

/-- A round that moves bytes goes on behind them. -/
theorem returns_fillRound_ok (fd : Nat) (os : Loader) (ret : Nat) (rest : List Reply)
    (hlen : len - sent ≠ 0) (hmoved : (os.moved ret (len - sent)).length ≠ 0) :
    ∃ es, (fillRound fd len sent).Returns { os with replies := .ok ret :: rest }
      (.inl (sent + (os.moved ret (len - sent)).length))
      { os.afterRead sent ret (len - sent) with replies := rest } es := by
  have hle : (os.moved ret (len - sent)).length ≤ len - sent :=
    (List.length_take_le _ _).trans (Nat.min_le_right _ _)
  have hread : (readInto fd sent (len - sent)).Returns { os with replies := .ok ret :: rest }
      (.ok (os.moved ret (len - sent)).length)
      { os.afterRead sent ret (len - sent) with replies := rest } _ :=
    returns_readInto_ok os ret rest
  obtain ⟨n, hn⟩ := Nat.exists_eq_succ_of_ne_zero hmoved
  rw [hn] at hle hread ⊢
  rw [fillRound, if_neg hlen]
  have hadd : (if n + 1 ≤ len - sent then pure (.inl (sent + (n + 1))) else Program.stop :
      LoadM (Nat ⊕ Bool)).Returns { os.afterRead sent ret (len - sent) with replies := rest }
      (.inl (sent + (n + 1))) { os.afterRead sent ret (len - sent) with replies := rest } [] := by
    rw [if_pos hle]
    exact Program.returns_pure.mpr ⟨rfl, rfl, rfl⟩
  have hassert : ∀ (t : Loader) (e : LoadEvent), (Program.emit e).Returns t () t [e] :=
    fun _ _ => rfl
  exact ⟨_, hread.bind ((hassert _ _).bind hadd)⟩

/-- At the end of the file a round fails. -/
theorem returns_fillRound_eof (fd : Nat) (os : Loader) (ret : Nat) (rest : List Reply)
    (hlen : len - sent ≠ 0) (hmoved : (os.moved ret (len - sent)).length = 0) :
    ∃ es, (fillRound fd len sent).Returns { os with replies := .ok ret :: rest } (.inr false)
      { os.afterRead sent ret (len - sent) with replies := rest } es := by
  have hread : (readInto fd sent (len - sent)).Returns { os with replies := .ok ret :: rest }
      (.ok (os.moved ret (len - sent)).length)
      { os.afterRead sent ret (len - sent) with replies := rest } _ :=
    returns_readInto_ok os ret rest
  rw [hmoved] at hread
  rw [fillRound, if_neg hlen]
  exact ⟨_, hread.bind (Program.returns_pure.mpr ⟨rfl, rfl, rfl⟩)⟩

/-- With enough replies the loop ends, and succeeds if there is enough left of the
    file. -/
theorem fillBuf_of_readable (d : Nat) (hd : len - sent = d) (hreplies : Readable os.replies)
    (hlen : d < os.replies.length) :
    ∃ os' es, (Program.loop (fillRound fd len) loadRepliesLeft sent).Returns os
        (decide (d ≤ os.unread.length)) os' es ∧
      os.replies.length ≤ os'.replies.length + (d + 1) := by
  induction d using Nat.strong_induction_on generalizing sent os with
  | _ d ih =>
    by_cases hzero : len - sent = 0
    · obtain rfl : d = 0 := hd.symm.trans hzero
      refine ⟨os, [], ?_, Nat.le_succ _⟩
      refine Program.Returns.loop_done (Nat.succ_pos _) ?_
      rw [fillRound, if_pos hzero]
      exact Program.returns_pure.mpr ⟨rfl, rfl, rfl⟩
    · obtain ⟨replies, files, unread, spc⟩ := os
      obtain ⟨reply, rest, rfl⟩ := List.exists_cons_of_length_pos (Nat.zero_lt_of_lt hlen)
      obtain ⟨ret, hret, rfl⟩ := hreplies reply (List.mem_cons_self ..)
      have hlength : (Loader.moved ⟨rest, files, unread, spc⟩ ret (len - sent)).length =
          min (min ret (len - sent)) unread.length := List.length_take
      have hrest : d < rest.length + 1 := hlen
      by_cases heof : unread.length = 0
      · have hstop : (Loader.moved ⟨rest, files, unread, spc⟩ ret (len - sent)).length = 0 := by
          omega
        obtain ⟨es, hround⟩ :=
          returns_fillRound_eof fd ⟨rest, files, unread, spc⟩ ret rest hzero hstop
        have hfuel : 0 < loadRepliesLeft ⟨.ok ret :: rest, files, unread, spc⟩ := Nat.succ_pos _
        have hloop := Program.Returns.loop_done hfuel hround
        have hshort : decide (d ≤ unread.length) = false := decide_eq_false (by omega)
        rw [← hshort] at hloop
        exact ⟨_, es, hloop, by show rest.length + 1 ≤ rest.length + (d + 1); omega⟩
      · have hpos : (Loader.moved ⟨rest, files, unread, spc⟩ ret (len - sent)).length ≠ 0 := by
          omega
        obtain ⟨es, hround⟩ :=
          returns_fillRound_ok fd ⟨rest, files, unread, spc⟩ ret rest hzero hpos
        rw [hlength] at hround
        have hreplies' : Readable { Loader.afterRead ⟨rest, files, unread, spc⟩ sent ret
            (len - sent) with replies := rest }.replies := hreplies.tail
        have hlen' : len - (sent + min (min ret (len - sent)) unread.length) < rest.length := by
          omega
        obtain ⟨os', es', hloop, hleft⟩ := ih _ (by omega) rfl hreplies' hlen'
        have hagain := Program.Returns.loop_again hround (Nat.lt_succ_self _) hloop
        have henough : decide (len - (sent + min (min ret (len - sent)) unread.length) ≤
            (unread.drop (min ret (len - sent))).length) = decide (d ≤ unread.length) := by
          rw [decide_eq_decide, List.length_drop]
          omega
        have hleft' : rest.length ≤ os'.replies.length +
            (len - (sent + min (min ret (len - sent)) unread.length) + 1) := hleft
        refine ⟨os', es ++ es', ?_, ?_⟩
        · show (Program.loop (fillRound fd len) loadRepliesLeft sent).Returns _
            (decide (d ≤ unread.length)) _ _
          rw [← henough]
          exact hagain
        · show rest.length + 1 ≤ os'.replies.length + (d + 1)
          omega

/-- **Files that can be read** are loaded when they are long enough, however the
    calls split them. -/
theorem load_of_readable (fn : String) (os : Loader) (fd : Nat) {replies : List Reply}
    (hreplies : Readable replies) (hlen : sizeofSpcFile + 2 ≤ replies.length) :
    ∃ os' es, (load fn).Returns { os with replies := .ok fd :: replies }
      (decide (sizeofSpcFile ≤ (os.files fn).length)) os' es := by
  obtain ⟨os₁, es₁, hfill, hleft⟩ : ∃ os' es,
      (fillBuf fd sizeofSpcFile).Returns { os with replies := replies, unread := os.files fn }
        (decide (sizeofSpcFile ≤ (os.files fn).length)) os' es ∧
      replies.length ≤ os'.replies.length + (sizeofSpcFile + 1) :=
    fillBuf_of_readable sizeofSpcFile rfl hreplies (Nat.lt_of_succ_lt hlen)
  obtain ⟨replies₁, files, unread, spc⟩ := os₁
  have hpos : 0 < replies₁.length := by
    have hleft' : replies.length ≤ replies₁.length + (sizeofSpcFile + 1) := hleft
    omega
  obtain ⟨reply, rest, rfl⟩ := List.exists_cons_of_length_pos hpos
  have hclose := returns_closeRead fd ⟨[], files, unread, spc⟩ reply rest
  exact ⟨_, _, (returns_openRead_ok os fd replies).bind
    (hfill.bind (hclose.bind (Program.returns_pure.mpr ⟨rfl, rfl, rfl⟩)))⟩

end SpuKit
