import SpuKit.File.Fd

/-!
# The contents of a file

What the calls on a descriptor make of the file behind it. `open` with
`O_TRUNC` empties it, `write` goes to the position of the descriptor and moves
it on, `pwrite` goes to the offset given.

## Main definitions

- `FileState` — the bytes of a file and the position of its descriptor
- `overwrite` — bytes are written at an offset
- `SysEvent.apply` — the file after a call
- `fileContent` — the bytes of the file after all calls

## Main results

- `foldl_apply_writes` — writes append
- `fdPwrite_complete` — `fd_pwrite` in one call overwrites
-/

namespace SpuKit

structure FileState where
  content : List Byte
  pos : Nat

/-- Bytes are written at an offset. A gap before it reads as zeros. -/
def overwrite (content : List Byte) (off : Nat) (bytes : List Byte) : List Byte :=
  if bytes = [] then content
  else content.take off ++ List.replicate (off - content.length) 0 ++ bytes ++
    content.drop (off + bytes.length)

/-- The file after a call, if it is one on its descriptor. -/
def SysEvent.apply (fd : Int) (file : FileState) : SysEvent → FileState
  | .openFile _ (.ok ret) => if (ret : Int) = fd then { content := [], pos := 0 } else file
  | .write fd' bytes reply =>
    if fd' = fd then
      { content := overwrite file.content file.pos (reply.moved bytes)
        pos := file.pos + (reply.moved bytes).length }
    else file
  | .pwrite fd' off bytes reply =>
    if fd' = fd then { file with content := overwrite file.content off (reply.moved bytes) }
    else file
  | _ => file

/-- The bytes of the file after all calls. -/
def fileContent (fd : Int) (es : List SysEvent) : List Byte :=
  (es.foldl (SysEvent.apply fd) { content := [], pos := 0 }).content

/-- Did a `pwrite` that moved bytes move them all? -/
def SysEvent.isComplete : SysEvent → Bool
  | .pwrite _ _ bytes (.ok ret) => ret == bytes.length
  | _ => true

variable {fd : Int} {os os' : Os} {es : List SysEvent}

@[simp] theorem overwrite_nil (content : List Byte) (off : Nat) :
    overwrite content off [] = content :=
  if_pos rfl

theorem overwrite_length (content bytes : List Byte) :
    overwrite content content.length bytes = content ++ bytes := by
  rw [overwrite]
  split
  · next h => rw [h, List.append_nil]
  · simp

theorem overwrite_zero (content bytes : List Byte) :
    overwrite content 0 bytes = bytes ++ content.drop bytes.length := by
  rw [overwrite]
  split
  · next h => simp [h]
  · simp

/-- Writes at the end of a file append to it. -/
theorem foldl_apply_writes (hes : ∀ e ∈ es, e.isWrite = true) (content : List Byte) :
    es.foldl (SysEvent.apply fd) { content := content, pos := content.length } =
      { content := content ++ written fd es, pos := (content ++ written fd es).length } := by
  induction es generalizing content with
  | nil => simp
  | cons e es ih =>
    obtain ⟨he, hes⟩ := List.forall_mem_cons.mp hes
    have hone : SysEvent.apply fd { content := content, pos := content.length } e =
        { content := content ++ e.written fd, pos := (content ++ e.written fd).length } := by
      cases e with
      | write fd' bytes reply =>
        by_cases hfd : fd' = fd <;> simp [SysEvent.apply, SysEvent.written, hfd, overwrite_length]
      | poll | memcpy | assertion => simp [SysEvent.apply, SysEvent.written]
      | malloc | free | openFile | close | fsync | pwrite => cases he
    rw [List.foldl_cons, hone, ih hes, written_cons, List.append_assoc]

/-- A call that fails leaves the file alone. -/
theorem apply_pwrite_failed (file : FileState) (fd' : Int) (off : Nat) (bytes : List Byte)
    (errno : Errno) : SysEvent.apply fd file (.pwrite fd' off bytes (.err errno)) = file := by
  show (if fd' = fd then { file with content := overwrite file.content off [] } else file) = file
  rw [overwrite_nil, ite_self]

/-- The file after complete `pwrite` calls that moved `sent` bytes: none or all
    of the buffer is there. -/
def Overwritten (fd : Int) (off : Nat) (buf : List Byte) (file : FileState) (sent : Nat)
    (es : List SysEvent) : Prop :=
  (∀ e ∈ es, e.isComplete = true) →
    (sent = 0 ∧ es.foldl (SysEvent.apply fd) file = file) ∨
    (sent = buf.length ∧ es.foldl (SysEvent.apply fd) file =
      { file with content := overwrite file.content off buf })

section Overwritten

variable {off sent : Nat} {buf : List Byte} {file : FileState}

/-- A call that moves bytes moves the whole buffer, and it is the only one. -/
theorem Overwritten.moved {n : Nat} (hsize : buf.length ≤ ssizeMax)
    (hn : n ≤ min (buf.length - sent) ssizeMax) (h : Overwritten fd off buf file sent es) :
    Overwritten fd off buf file (sent + n) (es ++ [.pwrite fd (off + sent)
      (buf.take (min (buf.length - sent) ssizeMax)) (.ok n)]) := by
  intro hcomplete
  obtain ⟨hes, hlast⟩ := List.forall_mem_append.mp hcomplete
  have hall : n = (buf.take (min (buf.length - sent) ssizeMax)).length :=
    eq_of_beq (hlast _ (List.mem_singleton_self _))
  rw [List.length_take, Nat.min_eq_left (by omega)] at hall
  rw [List.foldl_append, List.foldl_cons, List.foldl_nil]
  obtain ⟨rfl, hfile⟩ | ⟨rfl, hfile⟩ := h hes
  · have hbuf : n = buf.length := by omega
    refine .inr ⟨by omega, ?_⟩
    rw [hfile, hbuf, Nat.sub_zero, Nat.min_eq_left hsize]
    simp [SysEvent.apply, Reply.moved]
  · have hzero : n = 0 := by omega
    refine .inr ⟨by omega, ?_⟩
    rw [hfile, hzero]
    simp [SysEvent.apply, Reply.moved]

theorem Overwritten.failed {errno : Errno} {bytes : List Byte} {off' : Nat}
    (h : Overwritten fd off buf file sent es) :
    Overwritten fd off buf file sent (es ++ [.pwrite fd off' bytes (.err errno)]) := by
  intro hcomplete
  obtain ⟨hes, -⟩ := List.forall_mem_append.mp hcomplete
  rw [List.foldl_append, List.foldl_cons, List.foldl_nil, apply_pwrite_failed]
  exact h hes

theorem Overwritten.polled (h : Overwritten fd off buf file sent es) :
    Overwritten fd off buf file sent (es ++ [.poll fd]) := by
  intro hcomplete
  obtain ⟨hes, -⟩ := List.forall_mem_append.mp hcomplete
  rw [List.foldl_append]
  exact h hes

/-- `fd_pwrite` overwrites, when no call moves fewer bytes than asked. -/
theorem fdPwrite_complete (hfd : 0 ≤ fd) (hsize : buf.length ≤ ssizeMax)
    (h : (fdPwrite fd off buf).Returns os true os' es) (hcomplete : ∀ e ∈ es, e.isComplete = true)
    (file : FileState) :
    es.foldl (SysEvent.apply fd) file =
      { file with content := overwrite file.content off buf } := by
  obtain ⟨-, ⟨sent, -, hinv, hdone⟩, hpos⟩ := transferAll_rule
    (fun sent => .pwrite fd (off + sent) (buf.take (min (buf.length - sent) ssizeMax)))
    (Overwritten fd off buf file) hfd (fun _ _ => pwriteFile_eq) (fun _ => .inl ⟨rfl, rfl⟩)
    ⟨fun _ _ _ hn h => h.moved hsize hn, fun _ _ _ h => h.failed, fun _ _ h => h.polled⟩ h
  obtain ⟨hzero, -⟩ | ⟨-, hcontent⟩ := hinv hcomplete
  · have hlen := (hpos rfl).1
    rw [← hdone rfl, hzero] at hlen
    exact absurd hlen (Nat.lt_irrefl 0)
  · exact hcontent

end Overwritten

end SpuKit
