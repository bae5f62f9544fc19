import SpuKit.CTypes
import SpuKit.Lib.Program

/-!
# The operating system

The library and system calls behind the WAV writer. The environment decides how
each call ends: it holds a list of replies, and every call takes the next one.
A call that finds no reply left never returns.

## Main definitions

- `Reply`, `Errno` — how a call ends
- `SysEvent` — a call with its arguments and its reply
- `Os` — the replies to come
- `malloc`, `free`, `openFile`, `closeFile`, `fsync`, `writeFile`, `pwriteFile`, `poll`
-/

namespace SpuKit

/-- The values of `errno` the source tells apart. -/
inductive Errno where
  | eintr
  | eagain
  | ebadf
  | erofs
  | einval
  | other
  deriving DecidableEq

/-- How a call ends: it returns a number, or it fails. -/
inductive Reply where
  | ok (ret : Nat)
  | err (errno : Errno)
  deriving DecidableEq

/-- A call with its arguments and its result. -/
inductive SysEvent where
  | malloc (size : Nat) (block : Option Nat)
  | free (block : Nat)
  | openFile (name : String) (reply : Reply)
  | close (fd : Int)
  | fsync (fd : Int)
  | write (fd : Int) (bytes : List Byte) (reply : Reply)
  | pwrite (fd : Int) (off : Nat) (bytes : List Byte) (reply : Reply)
  | poll (fd : Int)
  /-- `memcpy` into the buffer of a buffered writer -/
  | memcpy (off len : Nat)
  /-- an `xassert` is evaluated -/
  | assertion (holds : Bool)
  deriving DecidableEq

/-- The bytes a call moved. -/
def Reply.moved (bytes : List Byte) : Reply → List Byte
  | .ok ret => bytes.take ret
  | .err _ => []

/-- The bytes a call wrote at the position of the descriptor. -/
def SysEvent.written (fd : Int) : SysEvent → List Byte
  | .write fd' bytes reply => if fd' = fd then reply.moved bytes else []
  | _ => []

/-- The bytes the calls wrote at the position of the descriptor. -/
def written (fd : Int) (es : List SysEvent) : List Byte := es.flatMap (SysEvent.written fd)

/-- Is this a step of a buffered write? -/
def SysEvent.isWrite : SysEvent → Bool
  | .write .. | .poll .. | .memcpy .. | .assertion .. => true
  | _ => false

/-- Does this acquire or release memory or a descriptor? -/
def SysEvent.isResource : SysEvent → Bool
  | .malloc .. | .free .. | .openFile .. | .close .. => true
  | _ => false

theorem SysEvent.not_isResource_of_isWrite {e : SysEvent} (h : e.isWrite = true) :
    e.isResource = false := by
  cases e <;> simp_all [isWrite, isResource]

/-- The environment. `malloc` numbers its blocks, and `garbage` is what a new
    block holds. -/
structure Os where
  replies : List Reply
  blocks : Nat
  garbage : Nat → Nat → Byte

/-- Only the replies left differ. -/
def Os.Calls (os os' : Os) : Prop := ∃ replies, os' = { os with replies := replies }

theorem Os.Calls.refl (os : Os) : os.Calls os := ⟨os.replies, rfl⟩

theorem Os.Calls.trans {os os' os'' : Os} (h : os.Calls os') (h' : os'.Calls os'') :
    os.Calls os'' := by
  obtain ⟨replies, rfl⟩ := h
  obtain ⟨replies', rfl⟩ := h'
  exact ⟨replies', rfl⟩

/-- A program that makes calls. -/
abbrev SysM := Program SysEvent Os

/-- The next reply. -/
def nextReply : SysM Reply := do
  let os ← get
  match os.replies with
  | [] => Program.stop
  | reply :: replies =>
    set { os with replies := replies }
    pure reply

/-- `malloc`: the new block, or `NULL` -/
def malloc (size : Nat) : SysM (Option Nat) := do
  match ← nextReply with
  | .ok _ =>
    let os ← get
    set { os with blocks := os.blocks + 1 }
    Program.emit (.malloc size (some os.blocks))
    pure (some os.blocks)
  | .err _ =>
    Program.emit (.malloc size none)
    pure none

/-- `free(NULL)` does nothing. -/
def free : Option Nat → SysM Unit
  | none => pure ()
  | some block => Program.emit (.free block)

/-- A system call, with the event to record. -/
def systemCall (record : Reply → SysEvent) : SysM Reply := do
  let reply ← nextReply
  Program.emit (record reply)
  pure reply

/-- `open` with `O_WRONLY | O_CREAT | O_TRUNC` -/
def openFile (name : String) : SysM Reply := systemCall (.openFile name)

def closeFile (fd : Int) : SysM Reply := systemCall fun _ => .close fd

def fsync (fd : Int) : SysM Reply := systemCall fun _ => .fsync fd

def poll (fd : Int) : SysM Reply := systemCall fun _ => .poll fd

/-- No more is moved than was asked for. -/
def Reply.clip (count : Nat) : Reply → Reply
  | .ok ret => .ok (min ret count)
  | .err errno => .err errno

/-- The reply to a transfer of `count` bytes. A negative descriptor is none. -/
def transferReply (fd : Int) (count : Nat) : SysM Reply :=
  if fd < 0 then pure (.err .ebadf)
  else do
    let reply ← nextReply
    pure (reply.clip count)

/-- A transfer, with the event to record. -/
def transfer (fd : Int) (count : Nat) (record : Reply → SysEvent) : SysM Reply := do
  let reply ← transferReply fd count
  Program.emit (record reply)
  pure reply

def writeFile (fd : Int) (bytes : List Byte) : SysM Reply :=
  transfer fd bytes.length (.write fd bytes)

def pwriteFile (fd : Int) (off : Nat) (bytes : List Byte) : SysM Reply :=
  transfer fd bytes.length (.pwrite fd off bytes)

@[simp] theorem written_nil (fd : Int) : written fd [] = [] := rfl

@[simp] theorem written_append (fd : Int) (es es' : List SysEvent) :
    written fd (es ++ es') = written fd es ++ written fd es' :=
  List.flatMap_append

@[simp] theorem written_cons (fd : Int) (e : SysEvent) (es : List SysEvent) :
    written fd (e :: es) = e.written fd ++ written fd es := rfl

variable {fd : Int} {os os' : Os} {reply : Reply} {es : List SysEvent}

theorem returns_nextReply :
    nextReply.Returns os reply os' es ↔
      ∃ rest, os.replies = reply :: rest ∧ os' = { os with replies := rest } ∧ es = [] := by
  simp only [nextReply, Program.returns_bind, Program.returns_get]
  constructor
  · rintro ⟨_, _, _, _, ⟨rfl, rfl, rfl⟩, hrest, rfl⟩
    cases hreplies : Os.replies _ with
    | nil => simp [hreplies] at hrest
    | cons r rs =>
      simp only [hreplies, bind_pure_comp, Program.returns_map, Program.returns_set] at hrest
      obtain ⟨_, ⟨hos, rfl⟩, rfl⟩ := hrest
      exact ⟨rs, rfl, hos, rfl⟩
  · rintro ⟨rest, hreplies, rfl, rfl⟩
    exact ⟨os, os, [], [], ⟨rfl, rfl, rfl⟩, by simp [hreplies], rfl⟩

theorem returns_transfer (hfd : 0 ≤ fd) {count : Nat} {record : Reply → SysEvent} :
    (transfer fd count record).Returns os reply os' es ↔
      ∃ r rest, os.replies = r :: rest ∧ os' = { os with replies := rest } ∧
        reply = r.clip count ∧ es = [record reply] := by
  simp only [transfer, transferReply, if_neg (not_lt.mpr hfd), bind_pure_comp,
    Program.returns_bind, Program.returns_map, Program.returns_emit, returns_nextReply]
  constructor
  · rintro ⟨_, _, _, _, ⟨r, ⟨rest, hrest, rfl, rfl⟩, rfl⟩, ⟨_, ⟨rfl, rfl⟩, rfl⟩, rfl⟩
    exact ⟨r, rest, hrest, rfl, rfl, rfl⟩
  · rintro ⟨r, rest, hrest, rfl, rfl, rfl⟩
    exact ⟨_, _, [], _, ⟨r, ⟨rest, hrest, rfl, rfl⟩, rfl⟩, ⟨(), ⟨rfl, rfl⟩, rfl⟩, rfl⟩

theorem returns_systemCall {record : Reply → SysEvent} :
    (systemCall record).Returns os reply os' es ↔
      ∃ rest, os.replies = reply :: rest ∧ os' = { os with replies := rest } ∧
        es = [record reply] := by
  simp only [systemCall, bind_pure_comp, Program.returns_bind, Program.returns_map,
    Program.returns_emit, returns_nextReply]
  constructor
  · rintro ⟨_, _, _, _, ⟨rest, hrest, rfl, rfl⟩, ⟨_, ⟨rfl, rfl⟩, rfl⟩, rfl⟩
    exact ⟨rest, hrest, rfl, rfl⟩
  · rintro ⟨rest, hrest, rfl, rfl⟩
    exact ⟨_, _, [], _, ⟨rest, hrest, rfl, rfl⟩, ⟨(), ⟨rfl, rfl⟩, rfl⟩, rfl⟩

theorem returns_malloc {size : Nat} {block : Option Nat} :
    (malloc size).Returns os block os' es ↔
      (∃ ret rest, os.replies = .ok ret :: rest ∧ block = some os.blocks ∧
        os' = { os with replies := rest, blocks := os.blocks + 1 } ∧
        es = [.malloc size (some os.blocks)]) ∨
      (∃ errno rest, os.replies = .err errno :: rest ∧ block = none ∧
        os' = { os with replies := rest } ∧ es = [.malloc size none]) := by
  simp only [malloc, Program.returns_bind, returns_nextReply]
  constructor
  · rintro ⟨reply, _, _, _, ⟨rest, hrest, rfl, rfl⟩, hblock, rfl⟩
    cases reply with
    | ok ret =>
      refine .inl ⟨ret, rest, hrest, ?_⟩
      obtain ⟨_, _, _, _, hget, hrest, rfl⟩ := Program.returns_bind.mp hblock
      obtain ⟨rfl, rfl, rfl⟩ := Program.returns_get.mp hget
      obtain ⟨_, _, _, _, hset, hrest', rfl⟩ := Program.returns_bind.mp hrest
      obtain ⟨rfl, rfl⟩ := Program.returns_set.mp hset
      obtain ⟨_, _, _, _, hemit, hpure, rfl⟩ := Program.returns_bind.mp hrest'
      obtain ⟨rfl, rfl⟩ := Program.returns_emit.mp hemit
      obtain ⟨rfl, rfl, rfl⟩ := Program.returns_pure.mp hpure
      exact ⟨rfl, rfl, rfl⟩
    | err errno =>
      refine .inr ⟨errno, rest, hrest, ?_⟩
      obtain ⟨_, _, _, _, hemit, hpure, rfl⟩ := Program.returns_bind.mp hblock
      obtain ⟨rfl, rfl⟩ := Program.returns_emit.mp hemit
      obtain ⟨rfl, rfl, rfl⟩ := Program.returns_pure.mp hpure
      exact ⟨rfl, rfl, rfl⟩
  · rintro (⟨ret, rest, hrest, rfl, rfl, rfl⟩ | ⟨errno, rest, hrest, rfl, rfl, rfl⟩)
    · exact ⟨_, _, [], _, ⟨rest, hrest, rfl, rfl⟩, rfl, rfl⟩
    · exact ⟨_, _, [], _, ⟨rest, hrest, rfl, rfl⟩, rfl, rfl⟩

end SpuKit
