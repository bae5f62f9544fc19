import SpuKit.File.Os

/-!
# Complete transfers

`fd_write` and `fd_pwrite` repeat `write` and `pwrite` until the whole buffer
is transferred or a call fails for good. Translated from `fd.c`. Both are one
loop that differs in the bytes it offers.

## Main definitions

- `fdWaitSingle`, `transferAll`, `fdWrite`, `fdPwrite`
- `Waits`, `Transfers` — replies on which the loops succeed
- `transferMoves`, `Recorded` — what is moved on them, and the calls that move it

## Main results

- `transferRound_again_cases`, `transferRound_last_cases` — the cases of a round
- `transferAll_rule` — what every call of a transfer keeps
- `transferAll_of_transfers` — a transfer succeeds when the replies let it
- `fdWrite_rule` — what a transfer put in the file
-/

namespace SpuKit

/-- `SSIZE_MAX` -/
def ssizeMax : Nat := 0x7fffffffffffffff

/-- Every round of a loop takes a reply. -/
def repliesLeft (os : Os) : Nat := os.replies.length + 1

/-- One round of `fd_wait_single` -/
def waitRound (fd : Int) (_ : Unit) : SysM (Unit ⊕ Bool) := do
  match ← poll fd with
  | .ok _ => pure (.inr true)
  | .err .eintr => pure (.inl ())
  | .err _ => pure (.inr false)

def fdWaitSingle (fd : Int) : SysM Bool := Program.loop (waitRound fd) repliesLeft ()

/-- One round of `fd_write` and `fd_pwrite`. `sent` bytes are transferred, and
    `call` makes the system call for the next `wrSize`. -/
def transferRound (fd : Int) (call : Nat → Nat → SysM Reply) (len sent : Nat) :
    SysM (Nat ⊕ Bool) := do
  let remains := len - sent
  let wrSize := min remains ssizeMax
  match ← call sent wrSize with
  | .err .eintr => pure (.inl sent)
  | .err .eagain =>
    if ← fdWaitSingle fd then pure (.inl sent) else pure (.inr false)
  | .err _ => pure (.inr false)
  | .ok 0 => pure (.inr false)
  | .ok ret =>
    if remains - ret ≠ 0 then pure (.inl (sent + ret)) else pure (.inr true)

def transferAll (fd : Int) (call : Nat → Nat → SysM Reply) (len : Nat) : SysM Bool :=
  Program.loop (transferRound fd call len) repliesLeft 0

/-- `fd_write` -/
def fdWrite (fd : Int) (buf : List Byte) : SysM Bool :=
  transferAll fd (fun sent wrSize => writeFile fd ((buf.drop sent).take wrSize)) buf.length

/-- `fd_pwrite`. The offset moves on with the bytes transferred, the buffer
    does not. -/
def fdPwrite (fd : Int) (off : Nat) (buf : List Byte) : SysM Bool :=
  transferAll fd (fun sent wrSize => pwriteFile fd (off + sent) (buf.take wrSize)) buf.length

/-- The replies on which `fd_wait_single` succeeds, and those left after it. -/
inductive Waits : List Reply → List Reply → Prop where
  | ready (ret : Nat) (rest : List Reply) : Waits (.ok ret :: rest) rest
  | interrupted {replies rest : List Reply} : Waits replies rest →
      Waits (.err .eintr :: replies) rest

/-- The replies on which a transfer of so many bytes succeeds, and those left
    after it. -/
inductive Transfers : Nat → List Reply → List Reply → Prop where
  | done (rest : List Reply) : Transfers 0 rest rest
  | moved {remains ret : Nat} {replies rest : List Reply} : 0 < remains → 0 < ret →
      Transfers (remains - min ret (min remains ssizeMax)) replies rest →
      Transfers remains (.ok ret :: replies) rest
  | interrupted {remains : Nat} {replies rest : List Reply} : 0 < remains →
      Transfers remains replies rest → Transfers remains (.err .eintr :: replies) rest
  | again {remains : Nat} {replies replies' rest : List Reply} : 0 < remains →
      Waits replies replies' → Transfers remains replies' rest →
      Transfers remains (.err .eagain :: replies) rest

/-- The sizes of the moves that the replies split a transfer of so many bytes into.
    While the loop waits for the descriptor, the replies are those of `poll`. -/
def transferMoves (waiting : Bool) (remains : Nat) : List Reply → List Nat
  | [] => []
  | reply :: replies =>
    if remains = 0 then []
    else
      match waiting, reply with
      | true, .ok _ => transferMoves false remains replies
      | false, .ok ret =>
        let moved := min ret (min remains ssizeMax)
        moved :: transferMoves false (remains - moved) replies
      | _, .err .eintr => transferMoves waiting remains replies
      | false, .err .eagain => transferMoves true remains replies
      | _, .err _ => []

variable {fd : Int} {os os' : Os} {es : List SysEvent} {ok : Bool} {rest : List Reply}

section Moves

variable {waiting : Bool} {remains : Nat} {replies : List Reply}

@[simp] theorem transferMoves_zero : transferMoves waiting 0 replies = [] := by
  cases replies <;> rfl

theorem transferMoves_ok (hpos : 0 < remains) {ret : Nat} :
    transferMoves false remains (.ok ret :: replies) = min ret (min remains ssizeMax) ::
      transferMoves false (remains - min ret (min remains ssizeMax)) replies := by
  rw [transferMoves, if_neg (Nat.ne_of_gt hpos)]

theorem transferMoves_interrupted :
    transferMoves waiting remains (.err .eintr :: replies) =
      transferMoves waiting remains replies := by
  obtain rfl | hpos := Nat.eq_zero_or_pos remains
  · rw [transferMoves_zero, transferMoves_zero]
  · rw [transferMoves, if_neg (Nat.ne_of_gt hpos)]

theorem transferMoves_again :
    transferMoves false remains (.err .eagain :: replies) = transferMoves true remains replies := by
  obtain rfl | hpos := Nat.eq_zero_or_pos remains
  · rw [transferMoves_zero, transferMoves_zero]
  · rw [transferMoves, if_neg (Nat.ne_of_gt hpos)]

/-- Waiting moves nothing. -/
theorem Waits.moves (h : Waits replies rest) :
    transferMoves true remains replies = transferMoves false remains rest := by
  induction h with
  | ready ret rest =>
    obtain rfl | hpos := Nat.eq_zero_or_pos remains
    · rw [transferMoves_zero, transferMoves_zero]
    · rw [transferMoves, if_neg (Nat.ne_of_gt hpos)]
  | interrupted _ ih => rw [transferMoves_interrupted, ih]

end Moves

theorem Waits.length_lt {replies : List Reply} (h : Waits replies rest) :
    rest.length < replies.length := by
  induction h with
  | ready ret rest => exact Nat.lt_succ_self _
  | interrupted _ ih => exact Nat.lt_succ_of_lt ih

/-- A round of waiting polls once. -/
theorem returns_waitRound {r : Unit ⊕ Bool} :
    (waitRound fd ()).Returns os r os' es ↔
      ∃ reply rest, os.replies = reply :: rest ∧ os' = { os with replies := rest } ∧
        es = [.poll fd] ∧
        r = match reply with
          | .ok _ => .inr true
          | .err .eintr => .inl ()
          | .err _ => .inr false := by
  simp only [waitRound, Program.returns_bind, poll, returns_systemCall]
  constructor
  · rintro ⟨reply, _, _, _, ⟨rest, hrest, rfl, rfl⟩, hpure, rfl⟩
    refine ⟨reply, rest, hrest, ?_⟩
    rcases reply with _ | (_ | _) <;> simp_all
  · rintro ⟨reply, rest, hrest, rfl, rfl, rfl⟩
    refine ⟨reply, _, _, [], ⟨rest, hrest, rfl, rfl⟩, ?_, rfl⟩
    rcases reply with _ | (_ | _) <;> simp

theorem Transfers.eq_of_zero {replies : List Reply} (h : Transfers 0 replies rest) :
    rest = replies := by
  cases h with
  | done => rfl
  | moved hpos => exact absurd hpos (Nat.lt_irrefl 0)
  | interrupted hpos => exact absurd hpos (Nat.lt_irrefl 0)
  | again hpos => exact absurd hpos (Nat.lt_irrefl 0)

/-- Waiting takes replies and polls. -/
theorem fdWaitSingle_rule (h : (fdWaitSingle fd).Returns os ok os' es) :
    os.Calls os' ∧ (∀ e ∈ es, e = .poll fd) ∧
      (ok = true → Waits os.replies os'.replies) := by
  refine Program.Returns.loop_rule
    (fun _ os' es => os.Calls os' ∧
      (∀ e ∈ es, e = .poll fd) ∧
      ∀ rest, Waits os'.replies rest → Waits os.replies rest)
    (fun ok os' es => os.Calls os' ∧
      (∀ e ∈ es, e = .poll fd) ∧ (ok = true → Waits os.replies os'.replies))
    ?_ ?_ h ⟨.refl os, by simp, fun rest hrest => hrest⟩
  · rintro _ _ _ s' es es' ⟨⟨replies, rfl⟩, hes, hwaits⟩ hround
    obtain ⟨reply, rest, hrest, rfl, rfl, hr⟩ := returns_waitRound.mp hround
    rcases reply with _ | (_ | _) <;> cases hr
    refine ⟨⟨rest, rfl⟩, by simpa [or_imp, forall_and] using hes, fun r hr => hwaits r ?_⟩
    rw [hrest]
    exact .interrupted hr
  · rintro _ b _ s' es es' ⟨⟨replies, rfl⟩, hes, hwaits⟩ hround
    obtain ⟨reply, rest, hrest, rfl, rfl, hr⟩ := returns_waitRound.mp hround
    refine ⟨⟨rest, rfl⟩, by simpa [or_imp, forall_and] using hes, fun hb => hwaits rest ?_⟩
    rw [hrest]
    rcases reply with _ | (_ | _) <;> cases hr
    all_goals first | exact .ready _ _ | cases hb

theorem fdWaitSingle_of_waits (fd : Int) {replies : List Reply} (h : Waits replies rest) :
    ∀ os : Os, os.replies = replies →
      ∃ es, (fdWaitSingle fd).Returns os true { os with replies := rest } es := by
  induction h with
  | ready ret rest =>
    intro os hos
    exact ⟨_, Program.Returns.loop_done (Nat.succ_pos _)
      (returns_waitRound.mpr ⟨_, _, hos, rfl, rfl, rfl⟩)⟩
  | @interrupted replies rest h ih =>
    intro os hos
    obtain ⟨es, hes⟩ := ih { os with replies := replies } rfl
    exact ⟨_, Program.Returns.loop_again (returns_waitRound.mpr ⟨_, _, hos, rfl, rfl, rfl⟩)
      (by simp [repliesLeft, hos]) hes⟩

-- ════════════════════════════════════════════════════════════════════════
-- The transfer loop
-- ════════════════════════════════════════════════════════════════════════

section Transfer

variable {call : Nat → Nat → SysM Reply} (record : Nat → Reply → SysEvent) {len sent : Nat}

/-- **The cases of a round**: bytes are moved, the call fails, or the loop waits
    for the descriptor. -/
theorem returns_transferRound {r : Nat ⊕ Bool} (hfd : 0 ≤ fd)
    (hcall : call sent (min (len - sent) ssizeMax) =
      transfer fd (min (len - sent) ssizeMax) (record sent)) :
    (transferRound fd call len sent).Returns os r os' es ↔
      (∃ ret rest, os.replies = .ok ret :: rest ∧ os' = { os with replies := rest } ∧
        es = [record sent (.ok (min ret (min (len - sent) ssizeMax)))] ∧
        r = if min ret (min (len - sent) ssizeMax) = 0 then .inr false
          else if len - sent - min ret (min (len - sent) ssizeMax) ≠ 0 then
            .inl (sent + min ret (min (len - sent) ssizeMax))
          else .inr true) ∨
      (∃ errno rest, os.replies = .err errno :: rest ∧ errno ≠ .eagain ∧
        os' = { os with replies := rest } ∧ es = [record sent (.err errno)] ∧
        r = if errno = .eintr then .inl sent else .inr false) ∨
      (∃ rest polls ready, os.replies = .err .eagain :: rest ∧
        (fdWaitSingle fd).Returns { os with replies := rest } ready os' polls ∧
        es = record sent (.err .eagain) :: polls ∧
        r = if ready then .inl sent else .inr false) := by
  simp only [transferRound, hcall, Program.returns_bind, returns_transfer hfd]
  constructor
  · rintro ⟨reply, _, _, es₂, ⟨raw, rest, hrest, rfl, rfl, rfl⟩, hround, rfl⟩
    rcases raw with ret | errno
    · refine .inl ⟨ret, rest, hrest, ?_⟩
      simp only [Reply.clip] at hround ⊢
      cases hmoved : min ret (min (len - sent) ssizeMax) with
      | zero => simp_all
      | succ n =>
        simp only [hmoved] at hround
        split at hround <;> simp_all
    · by_cases hagain : errno = .eagain
      · subst hagain
        obtain ⟨ready, _, polls, _, hwait, hpure, rfl⟩ := Program.returns_bind.mp hround
        refine .inr (.inr ⟨rest, polls, ready, hrest, ?_⟩)
        cases ready <;> simp_all [Reply.clip]
      · refine .inr (.inl ⟨errno, rest, hrest, hagain, ?_⟩)
        cases errno <;> simp_all [Reply.clip]
  · rintro (⟨ret, rest, hrest, rfl, rfl, rfl⟩ | ⟨errno, rest, hrest, hagain, rfl, rfl, rfl⟩ |
      ⟨rest, polls, ready, hrest, hwait, rfl, rfl⟩)
    · refine ⟨_, _, _, [], ⟨_, rest, hrest, rfl, rfl, rfl⟩, ?_, rfl⟩
      simp only [Reply.clip]
      cases hmoved : min ret (min (len - sent) ssizeMax) with
      | zero => simp
      | succ n => by_cases hlast : len - sent - (n + 1) = 0 <;> simp [hlast]
    · refine ⟨_, _, _, [], ⟨_, rest, hrest, rfl, rfl, rfl⟩, ?_, rfl⟩
      cases errno <;> simp_all [Reply.clip]
    · refine ⟨_, _, _, polls, ⟨_, rest, hrest, rfl, rfl, rfl⟩, ?_, rfl⟩
      rw [← List.append_nil polls]
      refine hwait.bind ?_
      cases ready <;> simp

/-- **A round after which the transfer goes on**: bytes were moved, but not the last
    ones, the call was interrupted, or the loop has waited for the descriptor. -/
theorem transferRound_again_cases {sent' : Nat} (hfd : 0 ≤ fd)
    (hcall : call sent (min (len - sent) ssizeMax) =
      transfer fd (min (len - sent) ssizeMax) (record sent))
    (h : (transferRound fd call len sent).Returns os (.inl sent') os' es) :
    (∃ ret rest, os.replies = .ok ret :: rest ∧ os' = { os with replies := rest } ∧
      es = [record sent (.ok (min ret (min (len - sent) ssizeMax)))] ∧
      min ret (min (len - sent) ssizeMax) ≠ 0 ∧
      len - sent - min ret (min (len - sent) ssizeMax) ≠ 0 ∧
      sent' = sent + min ret (min (len - sent) ssizeMax)) ∨
    (∃ rest, os.replies = .err .eintr :: rest ∧ os' = { os with replies := rest } ∧
      es = [record sent (.err .eintr)] ∧ sent' = sent) ∨
    (∃ rest polls, os.replies = .err .eagain :: rest ∧
      (fdWaitSingle fd).Returns { os with replies := rest } true os' polls ∧
      es = record sent (.err .eagain) :: polls ∧ sent' = sent) := by
  obtain ⟨ret, rest, hrest, hos, hes, hr⟩ | ⟨errno, rest, hrest, -, hos, hes, hr⟩ |
    ⟨rest, polls, ready, hrest, hwait, hes, hr⟩ := (returns_transferRound record hfd hcall).mp h
  · split at hr
    · cases hr
    next hzero =>
    split at hr
    next hmore => exact .inl ⟨ret, rest, hrest, hos, hes, hzero, hmore, Sum.inl.inj hr⟩
    · cases hr
  · split at hr
    next heintr =>
      subst heintr
      exact .inr (.inl ⟨rest, hrest, hos, hes, Sum.inl.inj hr⟩)
    · cases hr
  · cases ready with
    | false => cases hr
    | true => exact .inr (.inr ⟨rest, polls, hrest, hwait, hes, Sum.inl.inj hr⟩)

/-- **A round that ends the transfer**: the last bytes were moved, none were moved,
    the call failed, or waiting did. -/
theorem transferRound_last_cases (hfd : 0 ≤ fd)
    (hcall : call sent (min (len - sent) ssizeMax) =
      transfer fd (min (len - sent) ssizeMax) (record sent))
    (h : (transferRound fd call len sent).Returns os (.inr ok) os' es) :
    (ok = true ∧ ∃ ret rest, os.replies = .ok ret :: rest ∧ os' = { os with replies := rest } ∧
      es = [record sent (.ok (min ret (min (len - sent) ssizeMax)))] ∧
      min ret (min (len - sent) ssizeMax) ≠ 0 ∧
      len - sent - min ret (min (len - sent) ssizeMax) = 0) ∨
    (ok = false ∧ ∃ ret rest, os.replies = .ok ret :: rest ∧ os' = { os with replies := rest } ∧
      es = [record sent (.ok (min ret (min (len - sent) ssizeMax)))] ∧
      min ret (min (len - sent) ssizeMax) = 0) ∨
    (ok = false ∧ ∃ errno rest, os.replies = .err errno :: rest ∧ errno ≠ .eintr ∧
      errno ≠ .eagain ∧ os' = { os with replies := rest } ∧ es = [record sent (.err errno)]) ∨
    (ok = false ∧ ∃ rest polls, os.replies = .err .eagain :: rest ∧
      (fdWaitSingle fd).Returns { os with replies := rest } false os' polls ∧
      es = record sent (.err .eagain) :: polls) := by
  obtain ⟨ret, rest, hrest, hos, hes, hr⟩ | ⟨errno, rest, hrest, hagain, hos, hes, hr⟩ |
    ⟨rest, polls, ready, hrest, hwait, hes, hr⟩ := (returns_transferRound record hfd hcall).mp h
  · split at hr
    next hzero => exact .inr (.inl ⟨Sum.inr.inj hr, ret, rest, hrest, hos, hes, hzero⟩)
    next hzero =>
    split at hr
    · cases hr
    next hlast =>
      exact .inl ⟨Sum.inr.inj hr, ret, rest, hrest, hos, hes, hzero, not_not.mp hlast⟩
  · split at hr
    · cases hr
    next hintr =>
      exact .inr (.inr (.inl ⟨Sum.inr.inj hr, errno, rest, hrest, hintr, hagain, hos, hes⟩))
  · cases ready with
    | true => cases hr
    | false => exact .inr (.inr (.inr ⟨Sum.inr.inj hr, rest, polls, hrest, hwait, hes⟩))

/-- An invariant of the events of a transfer, by the number of bytes transferred. -/
structure KeepsTransfer (fd : Int) (len : Nat) (Inv : Nat → List SysEvent → Prop) : Prop where
  moved : ∀ sent n es, n ≤ min (len - sent) ssizeMax → Inv sent es →
    Inv (sent + n) (es ++ [record sent (.ok n)])
  failed : ∀ sent errno es, Inv sent es → Inv sent (es ++ [record sent (.err errno)])
  poll : ∀ sent es, Inv sent es → Inv sent (es ++ [.poll fd])

/-- What holds between the rounds of a transfer that began in `os`. -/
structure Transferring (len : Nat) (Inv : Nat → List SysEvent → Prop) (os : Os) (sent : Nat)
    (os' : Os) (es : List SysEvent) : Prop where
  calls : os.Calls os'
  sent_le : sent ≤ len
  inv : Inv sent es
  more : 0 < len → sent < len ∧
    ∀ rest, Transfers (len - sent) os'.replies rest → Transfers len os.replies rest

/-- What holds after a transfer that began in `os`. -/
structure Transferred (len : Nat) (Inv : Nat → List SysEvent → Prop) (os : Os) (ok : Bool)
    (os' : Os) (es : List SysEvent) : Prop where
  calls : os.Calls os'
  sent : ∃ sent, sent ≤ len ∧ Inv sent es ∧ (ok = true → sent = len)
  transfers : ok = true → 0 < len ∧ Transfers len os.replies os'.replies

section Rounds

variable {record} {Inv : Nat → List SysEvent → Prop} {s s' : Os} {es' : List SysEvent}

theorem KeepsTransfer.polls (hkeeps : KeepsTransfer record fd len Inv) {polls : List SysEvent}
    (hpolls : ∀ e ∈ polls, e = .poll fd) (h : Inv sent es) : Inv sent (es ++ polls) := by
  induction polls generalizing es with
  | nil =>
    rw [List.append_nil]
    exact h
  | cons e polls ih =>
    obtain ⟨rfl, hrest⟩ := List.forall_mem_cons.mp hpolls
    rw [List.append_cons]
    exact ih hrest (hkeeps.poll sent es h)

/-- A call that would block, and the polls after it. -/
theorem KeepsTransfer.blocked (hkeeps : KeepsTransfer record fd len Inv) {polls : List SysEvent}
    (hpolls : ∀ e ∈ polls, e = .poll fd) (h : Inv sent es) :
    Inv sent (es ++ record sent (.err .eagain) :: polls) := by
  rw [List.append_cons]
  exact hkeeps.polls hpolls (hkeeps.failed sent .eagain es h)

/-- **Step**: a round after which the transfer goes on. -/
theorem Transferring.again (h : Transferring len Inv os sent s es)
    (hkeeps : KeepsTransfer record fd len Inv) (hfd : 0 ≤ fd)
    (hcall : call sent (min (len - sent) ssizeMax) =
      transfer fd (min (len - sent) ssizeMax) (record sent)) {sent' : Nat}
    (hround : (transferRound fd call len sent).Returns s (.inl sent') s' es') :
    Transferring len Inv os sent' s' (es ++ es') := by
  obtain ⟨⟨replies, rfl⟩, hsent, hinv, hmore⟩ := h
  obtain ⟨ret, rest, hrest, rfl, rfl, hzero, hleft, rfl⟩ | ⟨rest, hrest, rfl, rfl, rfl⟩ |
    ⟨rest, polls, hrest, hwait, rfl, rfl⟩ := transferRound_again_cases record hfd hcall hround
  · refine ⟨⟨rest, rfl⟩, by omega, hkeeps.moved sent _ es (Nat.min_le_right ..) hinv,
      fun hlen => ⟨by omega, fun r h => (hmore hlen).2 r ?_⟩⟩
    rw [hrest]
    exact .moved (by omega) (by omega) (by rwa [Nat.sub_sub])
  · refine ⟨⟨rest, rfl⟩, hsent, hkeeps.failed sent' _ es hinv,
      fun hlen => ⟨(hmore hlen).1, fun r h => (hmore hlen).2 r ?_⟩⟩
    rw [hrest]
    exact .interrupted (Nat.sub_pos_of_lt (hmore hlen).1) h
  · obtain ⟨⟨replies', rfl⟩, hes, hwaits⟩ := fdWaitSingle_rule hwait
    refine ⟨⟨replies', rfl⟩, hsent, hkeeps.blocked hes hinv,
      fun hlen => ⟨(hmore hlen).1, fun r h => (hmore hlen).2 r ?_⟩⟩
    rw [hrest]
    exact .again (Nat.sub_pos_of_lt (hmore hlen).1) (hwaits rfl) h

/-- **Step**: a round that ends the transfer. -/
theorem Transferring.last (h : Transferring len Inv os sent s es)
    (hkeeps : KeepsTransfer record fd len Inv) (hfd : 0 ≤ fd)
    (hcall : call sent (min (len - sent) ssizeMax) =
      transfer fd (min (len - sent) ssizeMax) (record sent))
    (hround : (transferRound fd call len sent).Returns s (.inr ok) s' es') :
    Transferred len Inv os ok s' (es ++ es') := by
  obtain ⟨⟨replies, rfl⟩, hsent, hinv, hmore⟩ := h
  obtain ⟨rfl, ret, rest, hrest, rfl, rfl, hzero, hlast⟩ |
    ⟨rfl, ret, rest, hrest, rfl, rfl, hzero⟩ |
    ⟨rfl, errno, rest, hrest, -, -, rfl, rfl⟩ | ⟨rfl, rest, polls, hrest, hwait, rfl⟩ :=
    transferRound_last_cases record hfd hcall hround
  · have hlen : 0 < len := by omega
    refine ⟨⟨rest, rfl⟩, ⟨_, by omega, hkeeps.moved sent _ es (Nat.min_le_right ..) hinv,
      fun _ => by omega⟩, fun _ => ⟨hlen, (hmore hlen).2 rest ?_⟩⟩
    rw [hrest]
    exact .moved (by omega) (by omega) (by rw [hlast]; exact .done rest)
  · exact ⟨⟨rest, rfl⟩, ⟨_, by omega, hkeeps.moved sent _ es (Nat.min_le_right ..) hinv,
      fun hok => absurd hok Bool.false_ne_true⟩, fun hok => absurd hok Bool.false_ne_true⟩
  · exact ⟨⟨rest, rfl⟩, ⟨sent, hsent, hkeeps.failed sent _ es hinv,
      fun hok => absurd hok Bool.false_ne_true⟩, fun hok => absurd hok Bool.false_ne_true⟩
  · obtain ⟨⟨replies', rfl⟩, hes, -⟩ := fdWaitSingle_rule hwait
    exact ⟨⟨replies', rfl⟩, ⟨sent, hsent, hkeeps.blocked hes hinv,
      fun hok => absurd hok Bool.false_ne_true⟩, fun hok => absurd hok Bool.false_ne_true⟩

end Rounds

/-- **Transfer rule**: an invariant of the events so far, by the number of bytes
    transferred. -/
theorem transferAll_rule (Inv : Nat → List SysEvent → Prop) (hfd : 0 ≤ fd)
    (hcall : ∀ sent, sent ≤ len → call sent (min (len - sent) ssizeMax) =
      transfer fd (min (len - sent) ssizeMax) (record sent))
    (hstart : Inv 0 []) (hkeeps : KeepsTransfer record fd len Inv)
    (h : (transferAll fd call len).Returns os ok os' es) : Transferred len Inv os ok os' es := by
  refine Program.Returns.loop_rule (fun sent os' es => Transferring len Inv os sent os' es)
    (fun ok os' es => Transferred len Inv os ok os' es) ?_ ?_ h
    ⟨.refl os, Nat.zero_le len, hstart, fun hlen => ⟨hlen, fun rest hrest => hrest⟩⟩
  · intro sent sent' s s' es es' hinv hround
    exact hinv.again hkeeps hfd (hcall sent hinv.sent_le) hround
  · intro sent ok s s' es es' hinv hround
    exact hinv.last hkeeps hfd (hcall sent hinv.sent_le) hround

/-- A round that moves bytes, but not the last ones. -/
theorem transferRounds_moved (hfd : 0 ≤ fd)
    (hcall : call sent (min (len - sent) ssizeMax) =
      transfer fd (min (len - sent) ssizeMax) (record sent)) {ret : Nat}
    (hos : os.replies = .ok ret :: rest) (hret : min ret (min (len - sent) ssizeMax) ≠ 0)
    (hmore : len - sent - min ret (min (len - sent) ssizeMax) ≠ 0)
    (hloop : (Program.loop (transferRound fd call len) repliesLeft
      (sent + min ret (min (len - sent) ssizeMax))).Returns { os with replies := rest } ok os' es) :
    (Program.loop (transferRound fd call len) repliesLeft sent).Returns os ok os'
      (record sent (.ok (min ret (min (len - sent) ssizeMax))) :: es) := by
  have hround := (returns_transferRound record hfd hcall).mpr (.inl ⟨ret, rest, hos, rfl, rfl, rfl⟩)
  rw [if_neg hret, if_pos hmore] at hround
  exact Program.Returns.loop_again hround (by simp [repliesLeft, hos]) hloop

/-- A round that moves the last bytes. -/
theorem transferRounds_last (hfd : 0 ≤ fd)
    (hcall : call sent (min (len - sent) ssizeMax) =
      transfer fd (min (len - sent) ssizeMax) (record sent)) {ret : Nat}
    (hos : os.replies = .ok ret :: rest) (hret : min ret (min (len - sent) ssizeMax) ≠ 0)
    (hlast : len - sent - min ret (min (len - sent) ssizeMax) = 0) :
    (Program.loop (transferRound fd call len) repliesLeft sent).Returns os true
      { os with replies := rest } [record sent (.ok (min ret (min (len - sent) ssizeMax)))] := by
  have hround := (returns_transferRound record hfd hcall).mpr (.inl ⟨ret, rest, hos, rfl, rfl, rfl⟩)
  rw [if_neg hret, if_neg (not_not_intro hlast)] at hround
  exact Program.Returns.loop_done (Nat.succ_pos _) hround

/-- A round that is interrupted. -/
theorem transferRounds_interrupted (hfd : 0 ≤ fd)
    (hcall : call sent (min (len - sent) ssizeMax) =
      transfer fd (min (len - sent) ssizeMax) (record sent))
    (hos : os.replies = .err .eintr :: rest)
    (hloop : (Program.loop (transferRound fd call len) repliesLeft sent).Returns
      { os with replies := rest } ok os' es) :
    (Program.loop (transferRound fd call len) repliesLeft sent).Returns os ok os'
      (record sent (.err .eintr) :: es) := by
  have hround := (returns_transferRound record hfd hcall).mpr
    (.inr (.inl ⟨.eintr, rest, hos, by decide, rfl, rfl, rfl⟩))
  exact Program.Returns.loop_again hround (by simp [repliesLeft, hos]) hloop

/-- A round that waits for the descriptor. -/
theorem transferRounds_again (hfd : 0 ≤ fd)
    (hcall : call sent (min (len - sent) ssizeMax) =
      transfer fd (min (len - sent) ssizeMax) (record sent)) {replies : List Reply}
    (hos : os.replies = .err .eagain :: replies) (hwaits : Waits replies rest)
    (hloop : (Program.loop (transferRound fd call len) repliesLeft sent).Returns
      { os with replies := rest } ok os' es) :
    ∃ polls, (∀ e ∈ polls, e = .poll fd) ∧
      (Program.loop (transferRound fd call len) repliesLeft sent).Returns os ok os'
        (record sent (.err .eagain) :: polls ++ es) := by
  obtain ⟨polls, hpolls⟩ := fdWaitSingle_of_waits fd hwaits { os with replies := replies } rfl
  have hround := (returns_transferRound record hfd hcall).mpr
    (.inr (.inr ⟨replies, polls, true, hos, hpolls, rfl, rfl⟩))
  have hlt := hwaits.length_lt
  exact ⟨polls, (fdWaitSingle_rule hpolls).2.1, Program.Returns.loop_again hround
    (by simp only [repliesLeft, hos, List.length_cons]; omega) hloop⟩

/-- The calls of a transfer that goes on from `sent` and moves the sizes listed. -/
inductive Recorded (fd : Int) (len : Nat) : Nat → List Nat → List SysEvent → Prop where
  | nil (sent : Nat) : Recorded fd len sent [] []
  | moved {sent n : Nat} {ns : List Nat} {es : List SysEvent} : n ≤ min (len - sent) ssizeMax →
      Recorded fd len (sent + n) ns es → Recorded fd len sent (n :: ns) (record sent (.ok n) :: es)
  | failed {sent : Nat} {ns : List Nat} {es : List SysEvent} (errno : Errno) :
      Recorded fd len sent ns es → Recorded fd len sent ns (record sent (.err errno) :: es)
  | poll {sent : Nat} {ns : List Nat} {es : List SysEvent} :
      Recorded fd len sent ns es → Recorded fd len sent ns (.poll fd :: es)

variable {record} in
theorem Recorded.polls {ns : List Nat} (h : Recorded record fd len sent ns es)
    {polls : List SysEvent} (hpolls : ∀ e ∈ polls, e = .poll fd) :
    Recorded record fd len sent ns (polls ++ es) := by
  induction polls with
  | nil => exact h
  | cons e polls ih =>
    obtain ⟨rfl, hrest⟩ := List.forall_mem_cons.mp hpolls
    exact .poll (ih hrest)

/-- On replies that let it, the loop goes on from `sent` and succeeds. -/
theorem transferRounds_of_transfers (hfd : 0 ≤ fd)
    (hcall : ∀ sent, sent < len → call sent (min (len - sent) ssizeMax) =
      transfer fd (min (len - sent) ssizeMax) (record sent))
    {remains : Nat} {replies : List Reply} (h : Transfers remains replies rest) :
    ∀ (os : Os) (sent : Nat), os.replies = replies → 0 < remains → remains = len - sent →
      ∃ es, (Program.loop (transferRound fd call len) repliesLeft sent).Returns os true
        { os with replies := rest } es ∧
        Recorded record fd len sent (transferMoves false remains replies) es := by
  induction h with
  | done rest => intro os sent _ hpos; exact absurd hpos (Nat.lt_irrefl 0)
  | @moved remains ret replies rest hpos hret h ih =>
    rintro os sent hos - rfl
    have hssize : 0 < ssizeMax := by decide
    rw [transferMoves_ok hpos]
    by_cases hlast : len - sent - min ret (min (len - sent) ssizeMax) = 0
    · rw [hlast] at h ⊢
      obtain rfl := h.eq_of_zero
      rw [transferMoves_zero]
      exact ⟨_, transferRounds_last record hfd (hcall sent (by omega)) hos (by omega) hlast,
        .moved (Nat.min_le_right ..) (.nil _)⟩
    · obtain ⟨es, hes, hrecorded⟩ := ih { os with replies := replies } _ rfl (by omega)
        (Nat.sub_sub ..)
      exact ⟨_, transferRounds_moved record hfd (hcall sent (by omega)) hos (by omega) hlast hes,
        .moved (Nat.min_le_right ..) hrecorded⟩
  | @interrupted remains replies rest hpos h ih =>
    rintro os sent hos - rfl
    obtain ⟨es, hes, hrecorded⟩ := ih { os with replies := replies } sent rfl hpos rfl
    rw [transferMoves_interrupted]
    exact ⟨_, transferRounds_interrupted record hfd (hcall sent (by omega)) hos hes,
      .failed _ hrecorded⟩
  | @again remains replies replies' rest hpos hwaits h ih =>
    rintro os sent hos - rfl
    obtain ⟨es, hes, hrecorded⟩ := ih { os with replies := replies' } sent rfl hpos rfl
    obtain ⟨polls, hpolls, hreturns⟩ :=
      transferRounds_again record hfd (hcall sent (by omega)) hos hwaits hes
    rw [transferMoves_again, hwaits.moves]
    exact ⟨_, hreturns, .failed _ (hrecorded.polls hpolls)⟩

/-- A transfer succeeds on the replies that let it. -/
theorem transferAll_of_transfers (hfd : 0 ≤ fd)
    (hcall : ∀ sent, sent < len → call sent (min (len - sent) ssizeMax) =
      transfer fd (min (len - sent) ssizeMax) (record sent))
    (hlen : 0 < len) (h : Transfers len os.replies rest) :
    ∃ es, (transferAll fd call len).Returns os true { os with replies := rest } es ∧
      Recorded record fd len 0 (transferMoves false len os.replies) es :=
  transferRounds_of_transfers record hfd hcall h os 0 rfl hlen (Nat.sub_zero len).symm

/-- On a negative descriptor the first call fails. -/
theorem returns_transferAll_neg {event : Reply → SysEvent} (hfd : fd < 0)
    (hcall : call 0 (min (len - 0) ssizeMax) = transfer fd (min (len - 0) ssizeMax) event) :
    (transferAll fd call len).Returns os ok os' es ↔
      ok = false ∧ os' = os ∧ es = [event (.err .ebadf)] := by
  have hround : (transferRound fd call len 0).Returns os (.inr false) os [event (.err .ebadf)] := by
    rw [transferRound, hcall, transfer, transferReply, if_pos hfd]
    rfl
  have hreturns : (transferAll fd call len).Returns os false os [event (.err .ebadf)] :=
    Program.Returns.loop_done (Nat.succ_pos _) hround
  constructor
  · intro h
    obtain ⟨rfl, rfl, rfl⟩ := h.unique hreturns
    exact ⟨rfl, rfl, rfl⟩
  · rintro ⟨rfl, rfl, rfl⟩
    exact hreturns

end Transfer

-- ════════════════════════════════════════════════════════════════════════
-- The two transfers
-- ════════════════════════════════════════════════════════════════════════

variable {buf : List Byte} {off : Nat}

theorem writeFile_eq {sent : Nat} :
    writeFile fd ((buf.drop sent).take (min (buf.length - sent) ssizeMax)) =
      transfer fd (min (buf.length - sent) ssizeMax)
        (.write fd ((buf.drop sent).take (min (buf.length - sent) ssizeMax))) := by
  rw [writeFile, List.length_take, List.length_drop, Nat.min_eq_left (Nat.min_le_left ..)]

theorem pwriteFile_eq {sent : Nat} :
    pwriteFile fd (off + sent) (buf.take (min (buf.length - sent) ssizeMax)) =
      transfer fd (min (buf.length - sent) ssizeMax)
        (.pwrite fd (off + sent) (buf.take (min (buf.length - sent) ssizeMax))) := by
  rw [pwriteFile, List.length_take, Nat.min_eq_left (by omega)]

/-- What was written so far is the part of the buffer that was transferred. -/
theorem keeps_written :
    KeepsTransfer
      (fun sent => .write fd ((buf.drop sent).take (min (buf.length - sent) ssizeMax))) fd
      buf.length
      (fun sent es => (∀ e ∈ es, e.isWrite = true) ∧ written fd es = buf.take sent) where
  moved sent n es hn hinv := by
    refine ⟨by simpa [or_imp, forall_and, SysEvent.isWrite] using hinv.1, ?_⟩
    have hmoved : ((buf.drop sent).take (min (buf.length - sent) ssizeMax)).take n =
        (buf.drop sent).take n := by
      rw [List.take_take, Nat.min_eq_left hn]
    simp [SysEvent.written, Reply.moved, hinv.2, hmoved, List.take_add]
  failed sent errno es hinv := by
    refine ⟨by simpa [or_imp, forall_and, SysEvent.isWrite] using hinv.1, ?_⟩
    simp [SysEvent.written, Reply.moved, hinv.2]
  poll sent es hinv := by
    refine ⟨by simpa [or_imp, forall_and, SysEvent.isWrite] using hinv.1, ?_⟩
    simp [SysEvent.written, hinv.2]

/-- When `fd_write` succeeds, the buffer was written, and it was not empty:
    `write` of no bytes returns 0. -/
theorem fdWrite_rule (hfd : 0 ≤ fd) (h : (fdWrite fd buf).Returns os ok os' es) :
    os.Calls os' ∧ (∀ e ∈ es, e.isWrite = true) ∧
      (ok = true → written fd es = buf ∧ 0 < buf.length ∧
        Transfers buf.length os.replies os'.replies) := by
  obtain ⟨hos, ⟨sent, -, ⟨hkind, hwritten⟩, hdone⟩, htransfers⟩ :=
    transferAll_rule _ _ hfd (fun _ _ => writeFile_eq) ⟨by simp, rfl⟩ keeps_written h
  refine ⟨hos, hkind, fun hok => ⟨?_, htransfers hok⟩⟩
  rw [hwritten, hdone hok, List.take_length]

/-- However `fd_write` ends, it wrote a beginning of the buffer. -/
theorem fdWrite_begins (hfd : 0 ≤ fd) (h : (fdWrite fd buf).Returns os ok os' es) :
    written fd es <+: buf := by
  obtain ⟨-, ⟨sent, -, ⟨-, hwritten⟩, -⟩, -⟩ :=
    transferAll_rule _ _ hfd (fun _ _ => writeFile_eq) ⟨by simp, rfl⟩ keeps_written h
  rw [hwritten]
  exact List.take_prefix sent buf

theorem fdWrite_of_transfers (hfd : 0 ≤ fd) (hbuf : 0 < buf.length)
    (h : Transfers buf.length os.replies rest) :
    ∃ es, (fdWrite fd buf).Returns os true { os with replies := rest } es := by
  have hmoves : ∃ es, (fdWrite fd buf).Returns os true { os with replies := rest } es ∧
      Recorded (fun sent => .write fd ((buf.drop sent).take (min (buf.length - sent) ssizeMax)))
        fd buf.length 0 (transferMoves false buf.length os.replies) es :=
    transferAll_of_transfers _ hfd (fun _ _ => writeFile_eq) hbuf h
  obtain ⟨es, hes, -⟩ := hmoves
  exact ⟨es, hes⟩

/-- `fd_pwrite` neither acquires nor releases anything. -/
theorem fdPwrite_rule (hfd : 0 ≤ fd) (h : (fdPwrite fd off buf).Returns os ok os' es) :
    os.Calls os' ∧ (∀ e ∈ es, e.isResource = false) ∧
      (ok = true → Transfers buf.length os.replies os'.replies) := by
  obtain ⟨hos, ⟨_, -, hkind, -⟩, htransfers⟩ :=
    transferAll_rule
      (fun sent => .pwrite fd (off + sent) (buf.take (min (buf.length - sent) ssizeMax)))
      (fun _ es => ∀ e ∈ es, e.isResource = false) hfd (fun _ _ => pwriteFile_eq) (by simp)
      ⟨fun sent n es _ hinv => by simpa [or_imp, forall_and, SysEvent.isResource] using hinv,
        fun sent errno es hinv => by simpa [or_imp, forall_and, SysEvent.isResource] using hinv,
        fun sent es hinv => by simpa [or_imp, forall_and, SysEvent.isResource] using hinv⟩ h
  exact ⟨hos, hkind, fun hok => (htransfers hok).2⟩

theorem fdPwrite_of_transfers (off : Nat) (hfd : 0 ≤ fd) (hbuf : 0 < buf.length)
    (h : Transfers buf.length os.replies rest) :
    ∃ es, (fdPwrite fd off buf).Returns os true { os with replies := rest } es ∧
      Recorded (fun sent => .pwrite fd (off + sent)
        (buf.take (min (buf.length - sent) ssizeMax))) fd buf.length 0
        (transferMoves false buf.length os.replies) es :=
  transferAll_of_transfers _ hfd (fun _ _ => pwriteFile_eq) hbuf h

/-- The replies decide whether `fd_pwrite` succeeds. -/
theorem fdPwrite_transfers_iff (rest : List Reply) (hfd : 0 ≤ fd) (hbuf : 0 < buf.length)
    (h : (fdPwrite fd off buf).Returns os ok os' es) :
    Transfers buf.length os.replies rest ↔ ok = true ∧ rest = os'.replies := by
  constructor
  · intro htransfers
    obtain ⟨es', hes', -⟩ := fdPwrite_of_transfers off hfd hbuf htransfers
    obtain ⟨rfl, rfl, -⟩ := h.unique hes'
    exact ⟨rfl, rfl⟩
  · rintro ⟨hok, rfl⟩
    exact (fdPwrite_rule hfd h).2.2 hok

end SpuKit
