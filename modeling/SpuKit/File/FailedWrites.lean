import SpuKit.File.Capacity

/-!
# Failed writes

A writer is marked as corrupted when a flush fails. A write past the buffer has
a second place to fail, where its argument goes to the descriptor directly, and
there the mark is missing.

## Main definitions

- `WaitFails`, `TransferFails` — the replies on which the loops fail
- `BufOp.Unmarked` — the failure that leaves no mark
- `AlongRun` — every operation of a run meets a condition

## Main results

- `fdWrite_fails`, `fdWrite_of_fails` — the replies decide whether `fd_write` fails
- `BufOp.run_marks` — what an operation does to the mark
- `failures_marked_iff` — when every failure of a run is remembered
-/

namespace SpuKit

-- ════════════════════════════════════════════════════════════════════════
-- Failed transfers
-- ════════════════════════════════════════════════════════════════════════

/-- The replies on which `fd_wait_single` fails, and those left after it. -/
inductive WaitFails : List Reply → List Reply → Prop where
  | failed {errno : Errno} (rest : List Reply) : errno ≠ .eintr →
      WaitFails (.err errno :: rest) rest
  | interrupted {replies rest : List Reply} : WaitFails replies rest →
      WaitFails (.err .eintr :: replies) rest

/-- The replies on which a transfer of so many bytes fails, and those left after
    it. -/
inductive TransferFails : Nat → List Reply → List Reply → Prop where
  | hungUp {remains ret : Nat} (rest : List Reply) : min ret (min remains ssizeMax) = 0 →
      TransferFails remains (.ok ret :: rest) rest
  | failed {remains : Nat} {errno : Errno} (rest : List Reply) : errno ≠ .eintr →
      errno ≠ .eagain → TransferFails remains (.err errno :: rest) rest
  | blocked {remains : Nat} {replies rest : List Reply} : WaitFails replies rest →
      TransferFails remains (.err .eagain :: replies) rest
  | moved {remains ret : Nat} {replies rest : List Reply} :
      min ret (min remains ssizeMax) ≠ 0 → remains - min ret (min remains ssizeMax) ≠ 0 →
      TransferFails (remains - min ret (min remains ssizeMax)) replies rest →
      TransferFails remains (.ok ret :: replies) rest
  | interrupted {remains : Nat} {replies rest : List Reply} :
      TransferFails remains replies rest → TransferFails remains (.err .eintr :: replies) rest
  | again {remains : Nat} {replies replies' rest : List Reply} : Waits replies replies' →
      TransferFails remains replies' rest → TransferFails remains (.err .eagain :: replies) rest

section Transfers

variable {fd : Int} {os os' : Os} {es : List SysEvent} {rest : List Reply} {buf : List Byte}
  {call : Nat → Nat → SysM Reply} (record : Nat → Reply → SysEvent) {len : Nat}

theorem fdWaitSingle_fails (h : (fdWaitSingle fd).Returns os false os' es) :
    WaitFails os.replies os'.replies := by
  refine Program.Returns.loop_rule
    (fun _ os' _ => ∀ rest, WaitFails os'.replies rest → WaitFails os.replies rest)
    (fun ok os' _ => ok = false → WaitFails os.replies os'.replies) ?_ ?_ h
    (fun _ hrest => hrest) rfl
  · intro _ _ s s' _ _ hinv hround rest hrest
    obtain ⟨reply, replies, hreplies, rfl, -, hr⟩ := returns_waitRound.mp hround
    rcases reply with _ | (_ | _) <;> cases hr
    refine hinv rest ?_
    rw [hreplies]
    exact .interrupted hrest
  · intro _ ok s s' _ _ hinv hround hok
    obtain ⟨reply, replies, hreplies, rfl, -, hr⟩ := returns_waitRound.mp hround
    refine hinv replies ?_
    rw [hreplies]
    subst hok
    rcases reply with _ | errno
    · cases hr
    · refine .failed _ fun heintr => ?_
      subst heintr
      cases hr

theorem fdWaitSingle_of_fails (fd : Int) {replies : List Reply} (h : WaitFails replies rest) :
    ∀ os : Os, os.replies = replies →
      ∃ es, (fdWaitSingle fd).Returns os false { os with replies := rest } es := by
  induction h with
  | @failed errno rest hintr =>
    intro os hos
    have hround : (waitRound fd ()).Returns os (.inr false) { os with replies := rest }
        [.poll fd] := by
      refine returns_waitRound.mpr ⟨_, _, hos, rfl, rfl, ?_⟩
      cases errno <;> first | rfl | exact absurd rfl hintr
    exact ⟨_, Program.Returns.loop_done (Nat.succ_pos _) hround⟩
  | @interrupted replies rest h ih =>
    intro os hos
    obtain ⟨es, hes⟩ := ih { os with replies := replies } rfl
    exact ⟨_, Program.Returns.loop_again (returns_waitRound.mpr ⟨_, _, hos, rfl, rfl, rfl⟩)
      (by simp [repliesLeft, hos]) hes⟩

/-- When a transfer fails, it fails on its replies. -/
theorem transferAll_fails (hfd : 0 ≤ fd)
    (hcall : ∀ sent, call sent (min (len - sent) ssizeMax) =
      transfer fd (min (len - sent) ssizeMax) (record sent))
    (h : (transferAll fd call len).Returns os false os' es) :
    TransferFails len os.replies os'.replies := by
  refine Program.Returns.loop_rule
    (fun sent os' _ => ∀ rest, TransferFails (len - sent) os'.replies rest →
      TransferFails len os.replies rest)
    (fun ok os' _ => ok = false → TransferFails len os.replies os'.replies) ?_ ?_ h
    (fun _ hrest => hrest) rfl
  · intro sent sent' s s' _ _ hinv hround rest hrest
    refine hinv rest ?_
    obtain ⟨ret, replies, hreplies, rfl, -, hzero, hmore, rfl⟩ | ⟨replies, hreplies, rfl, -, rfl⟩ |
      ⟨replies, polls, hreplies, hwait, -, rfl⟩ :=
      transferRound_again_cases record hfd (hcall sent) hround
    · rw [hreplies]
      exact .moved hzero hmore (by rwa [Nat.sub_sub])
    · rw [hreplies]
      exact .interrupted hrest
    · rw [hreplies]
      exact .again ((fdWaitSingle_rule hwait).2.2 rfl) hrest
  · rintro sent ok s s' _ _ hinv hround rfl
    refine hinv _ ?_
    obtain ⟨hfalse, -⟩ | ⟨-, ret, replies, hreplies, rfl, -, hzero⟩ |
      ⟨-, errno, replies, hreplies, hintr, hagain, rfl, -⟩ |
      ⟨-, replies, polls, hreplies, hwait, -⟩ :=
      transferRound_last_cases record hfd (hcall sent) hround
    · cases hfalse
    · rw [hreplies]
      exact .hungUp _ hzero
    · rw [hreplies]
      exact .failed _ hintr hagain
    · rw [hreplies]
      exact .blocked (fdWaitSingle_fails hwait)

/-- On such replies the loop goes on from `sent` and fails. -/
theorem transferRounds_of_fails (hfd : 0 ≤ fd)
    (hcall : ∀ sent, call sent (min (len - sent) ssizeMax) =
      transfer fd (min (len - sent) ssizeMax) (record sent))
    {remains : Nat} {replies : List Reply} (h : TransferFails remains replies rest) :
    ∀ (os : Os) (sent : Nat), os.replies = replies → remains = len - sent →
      ∃ es, (Program.loop (transferRound fd call len) repliesLeft sent).Returns os false
        { os with replies := rest } es := by
  induction h with
  | hungUp rest hzero =>
    rintro os sent hos rfl
    have hround := (returns_transferRound record hfd (hcall sent)).mpr
      (.inl ⟨_, rest, hos, rfl, rfl, rfl⟩)
    rw [if_pos hzero] at hround
    exact ⟨_, Program.Returns.loop_done (Nat.succ_pos _) hround⟩
  | failed rest hintr hagain =>
    rintro os sent hos rfl
    have hround := (returns_transferRound record hfd (hcall sent)).mpr
      (.inr (.inl ⟨_, rest, hos, hagain, rfl, rfl, rfl⟩))
    rw [if_neg hintr] at hround
    exact ⟨_, Program.Returns.loop_done (Nat.succ_pos _) hround⟩
  | @blocked remains replies rest hwait =>
    rintro os sent hos rfl
    obtain ⟨polls, hpolls⟩ := fdWaitSingle_of_fails fd hwait { os with replies := replies } rfl
    have hround := (returns_transferRound record hfd (hcall sent)).mpr
      (.inr (.inr ⟨replies, polls, false, hos, hpolls, rfl, rfl⟩))
    exact ⟨_, Program.Returns.loop_done (Nat.succ_pos _) hround⟩
  | @moved remains ret replies rest hret hmore h ih =>
    rintro os sent hos rfl
    obtain ⟨es, hes⟩ := ih { os with replies := replies } _ rfl (Nat.sub_sub ..)
    exact ⟨_, transferRounds_moved record hfd (hcall sent) hos hret hmore hes⟩
  | @interrupted remains replies rest h ih =>
    rintro os sent hos rfl
    obtain ⟨es, hes⟩ := ih { os with replies := replies } sent rfl rfl
    exact ⟨_, transferRounds_interrupted record hfd (hcall sent) hos hes⟩
  | @again remains replies replies' rest hwaits h ih =>
    rintro os sent hos rfl
    obtain ⟨es, hes⟩ := ih { os with replies := replies' } sent rfl rfl
    obtain ⟨polls, -, hreturns⟩ := transferRounds_again record hfd (hcall sent) hos hwaits hes
    exact ⟨_, hreturns⟩

/-- When `fd_write` fails, it fails on its replies. -/
theorem fdWrite_fails (hfd : 0 ≤ fd) (h : (fdWrite fd buf).Returns os false os' es) :
    TransferFails buf.length os.replies os'.replies :=
  transferAll_fails _ hfd (fun _ => writeFile_eq) h

theorem fdWrite_of_fails (hfd : 0 ≤ fd) (h : TransferFails buf.length os.replies rest) :
    ∃ es, (fdWrite fd buf).Returns os false { os with replies := rest } es :=
  transferRounds_of_fails _ hfd (fun _ => writeFile_eq) h os 0 rfl (Nat.sub_zero _).symm

end Transfers

-- ════════════════════════════════════════════════════════════════════════
-- The mark
-- ════════════════════════════════════════════════════════════════════════

/-- A write past the buffer whose argument fails to be written, after the bytes held
    were, on a writer that is not marked yet. -/
def BufOp.Unmarked : BufOp → Bufwr → Os → Prop
  | .write bytes, f, os =>
    f.corrupted = false ∧ f.max - f.cur + f.max ≤ bytes.length ∧ 0 < f.cur ∧
      ∃ rest rest', Transfers f.cur os.replies rest ∧ TransferFails bytes.length rest rest'
  | .flush, _, _ => False

/-- Every operation of a run meets `C`, which sees the writer and the environment
    before it. -/
def AlongRun (C : BufOp → Bufwr → Os → Prop) : List BufOp → Bufwr → Os → Prop
  | [], _, _ => True
  | op :: ops, f, os => C op f os ∧
    ∀ ok f' os' es, (op.run f).Returns os (ok, f') os' es → AlongRun C ops f' os'

/-- After the first operations that return, the writer is marked if one of them
    returned false. -/
def Remembers (ops : List BufOp) (f : Bufwr) (os : Os) : Prop :=
  ∀ pre post, ops = pre ++ post → ∀ oks f' os' es,
    (bufwrRun pre f).Returns os (oks, f') os' es → false ∈ oks → f'.corrupted = true

section Marks

variable {f f' : Bufwr} {os os' : Os} {es : List SysEvent} {ok : Bool} {buf : List Byte}
  {op : BufOp} {ops : List BufOp} {oks : List Bool}

theorem flush_marks (h : (flush f).Returns os (ok, f') os' es) :
    (f.corrupted = true → f'.corrupted = true) ∧ (ok = false → f'.corrupted = true) := by
  obtain ⟨rfl, rfl⟩ | ⟨rfl, rfl⟩ := flush_cases h
  · exact ⟨fun hmark => hmark, fun hfalse => by cases hfalse⟩
  · exact ⟨fun _ => rfl, fun _ => rfl⟩

/-- The failure of the direct write is not marked. -/
theorem largeWrite_marks (hfd : 0 ≤ f.fd) (h : (largeWrite f buf).Returns os (ok, f') os' es) :
    (f.corrupted = true → f'.corrupted = true) ∧
      (ok = false → f'.corrupted = true ∨ 0 < f.cur ∧
        ∃ rest rest', Transfers f.cur os.replies rest ∧ TransferFails buf.length rest rest') := by
  obtain ⟨-, hflush⟩ | ⟨os₁, _, _, hflush, hwrite, -⟩ := largeWrite_cases h
  · obtain ⟨hkeeps, hmarks⟩ := flush_marks hflush
    exact ⟨hkeeps, fun _ => .inl (hmarks rfl)⟩
  · obtain ⟨-, -, ⟨hsame, -⟩, hdone⟩ := flush_rule hfd hflush
    obtain ⟨hcur, -, -, htransfers⟩ := hdone rfl
    refine ⟨(flush_marks hflush).1, fun hok => ?_⟩
    subst hok
    exact .inr ⟨hcur, _, _, htransfers, fdWrite_fails (hsame.fd ▸ hfd) hwrite⟩

theorem bufwrWrite_marks (hfd : 0 ≤ f.fd) (h : (bufwrWrite f buf).Returns os (ok, f') os' es) :
    (f.corrupted = true → f'.corrupted = true) ∧
      (ok = false → f'.corrupted = true ∨ (BufOp.write buf).Unmarked f os) := by
  obtain ⟨hlarge, h⟩ | ⟨-, -, -, _, hflush, -⟩ | ⟨-, -, rfl, f₁, _, hflush, rfl, -⟩ |
    ⟨-, -, rfl, rfl, -, -⟩ := bufwrWrite_cases h
  · obtain ⟨hkeeps, hmarks⟩ := largeWrite_marks hfd h
    refine ⟨hkeeps, fun hok => ?_⟩
    obtain hmark | ⟨hcur, hfails⟩ := hmarks hok
    · exact .inl hmark
    · cases hmark : f.corrupted with
      | true => exact .inl (hkeeps hmark)
      | false => exact .inr ⟨hmark, hlarge, hcur, hfails⟩
  · obtain ⟨hkeeps, hmarks⟩ := flush_marks hflush
    exact ⟨hkeeps, fun _ => .inl (hmarks rfl)⟩
  · exact ⟨(flush_marks hflush).1, fun hfalse => by cases hfalse⟩
  · exact ⟨fun hmark => hmark, fun hfalse => by cases hfalse⟩

/-- **Step**: the mark is kept, and an operation that fails sets it, unless it fails
    in the direct write. -/
theorem BufOp.run_marks (hfd : 0 ≤ f.fd) (h : (op.run f).Returns os (ok, f') os' es) :
    (f.corrupted = true → f'.corrupted = true) ∧
      (ok = false → f'.corrupted = true ∨ op.Unmarked f os) := by
  cases op with
  | write bytes => exact bufwrWrite_marks hfd h
  | flush =>
    obtain ⟨-, rfl, rfl, -, -⟩ | ⟨-, hflush⟩ := bufwrFlush_cases h
    · exact ⟨fun hmark => hmark, fun hfalse => by cases hfalse⟩
    · obtain ⟨hkeeps, hmarks⟩ := flush_marks hflush
      exact ⟨hkeeps, fun hok => .inl (hmarks hok)⟩

/-- An operation that fails in the direct write leaves no mark. -/
theorem BufOp.Unmarked.fails (hfd : 0 ≤ f.fd) (h : op.Unmarked f os) :
    ∃ f' os' es, (op.run f).Returns os (false, f') os' es ∧ f'.corrupted = false := by
  cases op with
  | flush => exact h.elim
  | write bytes =>
    obtain ⟨hmark, hlarge, hcur, rest, rest', htransfers, hfails⟩ := h
    obtain ⟨es₁, hflush⟩ := flush_of_transfers hfd hcur htransfers
    have hfails' : TransferFails bytes.length { os with replies := rest }.replies rest' := hfails
    obtain ⟨es₂, hwrite⟩ := fdWrite_of_fails hfd hfails'
    refine ⟨{ f with cur := 0 }, { os with replies := rest' }, es₁ ++ (es₂ ++ []), ?_, hmark⟩
    rw [BufOp.run, bufwrWrite]
    simp only [if_pos (show bytes.length ≥ f.max - f.cur + f.max from hlarge)]
    exact hflush.bind (hwrite.bind (Program.returns_pure.mpr ⟨rfl, rfl, rfl⟩))

/-- **Run**: a mark is kept, and set by the first operation that fails, unless one
    fails in the direct write. -/
theorem bufwrRun_marks (hfd : 0 ≤ f.fd) (hcur : f.cur ≤ f.max) {post : List BufOp}
    (halong : AlongRun (fun op f os => ¬ op.Unmarked f os) (ops ++ post) f os)
    (h : (bufwrRun ops f).Returns os (oks, f') os' es)
    (hmark : f.corrupted = true ∨ false ∈ oks) : f'.corrupted = true := by
  induction ops generalizing f os os' es oks with
  | nil =>
    obtain ⟨rfl, rfl, -, -⟩ := returns_bufwrRun_nil.mp h
    exact hmark.resolve_right List.not_mem_nil
  | cons op ops ih =>
    obtain ⟨ok, oks', f₁, os₁, _, _, hop, hops, rfl, -⟩ := returns_bufwrRun_cons.mp h
    obtain ⟨hsame, hle⟩ := BufOp.run_keeps hcur hop
    obtain ⟨hkeeps, hmarks⟩ := BufOp.run_marks hfd hop
    refine ih (hsame.fd ▸ hfd) hle (halong.2 _ _ _ _ hop) hops ?_
    obtain hmark | hfalse := hmark
    · exact .inl (hkeeps hmark)
    · rcases List.mem_cons.mp hfalse with hok | hfalse
      · exact .inl ((hmarks hok.symm).resolve_right halong.1)
      · exact .inr hfalse

/-- **Failed writes are remembered**, from any writer of a program with a descriptor
    that is not negative, if no operation of the run fails in the direct write
    while the writer is not marked. -/
theorem failures_marked_iff (hreach : f.Reachable) (hfd : 0 ≤ f.fd) (ops : List BufOp) (os : Os) :
    Remembers ops f os ↔ AlongRun (fun op f os => ¬ op.Unmarked f os) ops f os := by
  constructor
  · intro h
    induction ops generalizing f os with
    | nil => trivial
    | cons op ops ih =>
      refine ⟨fun hunmarked => ?_, fun ok f₁ os₁ es₁ hop => ?_⟩
      · obtain ⟨f₁, os₁, es₁, hop, hmark⟩ := hunmarked.fails hfd
        have hone : (bufwrRun [op] f).Returns os ([false], f₁) os₁ (es₁ ++ []) :=
          returns_bufwrRun_cons.mpr ⟨_, _, _, _, _, _, hop,
            returns_bufwrRun_nil.mpr ⟨rfl, rfl, rfl, rfl⟩, rfl, rfl⟩
        have hmarked := h [op] ops rfl _ _ _ _ hone (List.mem_singleton_self _)
        rw [hmark] at hmarked
        cases hmarked
      · have hsame := (BufOp.run_keeps hreach.cur_le hop).1
        refine ih (hreach.run hop) (hsame.fd ▸ hfd) os₁ ?_
        intro pre post hpre oks f' os' es hrun hoks
        exact h (op :: pre) post (by rw [hpre, List.cons_append]) _ _ _ _
          (returns_bufwrRun_cons.mpr ⟨_, _, _, _, _, _, hop, hrun, rfl, rfl⟩)
          (List.mem_cons_of_mem _ hoks)
  · rintro halong pre post rfl oks f' os' es hrun hoks
    exact bufwrRun_marks hfd hreach.cur_le halong hrun (.inr hoks)

/-- A writer of a descriptor with a buffer of one byte. -/
theorem reachable_oneByte : Bufwr.Reachable ⟨some 0, fun _ => 0, 0, 1, 3, false⟩ := by
  have hinit : (bufwrInit 3 1).Returns roomy ⟨some 0, fun _ => 0, 0, 1, 3, false⟩
      { roomy with replies := [.ok 0], blocks := 1 } [.malloc 1 (some 0)] := rfl
  exact .init hinit (Option.some_ne_none _)

/-- A byte is held, and the descriptor does not take it. -/
theorem failures_marked_flush :
    Remembers [.write [0x11], .flush] ⟨some 0, fun _ => 0, 0, 1, 3, false⟩
      { roomy with replies := [.err .other] } :=
  (failures_marked_iff reachable_oneByte (by decide) _ _).mpr
    ⟨fun h => absurd h.2.1 (by decide), fun _ _ _ _ _ => ⟨fun h => h, fun _ _ _ _ _ => trivial⟩⟩

/-- A second byte goes past the buffer: the first one is written, the second is not. -/
theorem direct_write_unmarked : ¬ ∀ (f : Bufwr), f.Reachable → 0 ≤ f.fd →
    ∀ (ops : List BufOp) (os : Os), Remembers ops f os := by
  intro h
  have hfails : ∃ f' es, (bufwrRun [.write [0x11], .write [0x22]]
      ⟨some 0, fun _ => 0, 0, 1, 3, false⟩).Returns
      { roomy with replies := [.ok 1, .err .other] } ([true, false], f')
      { roomy with replies := [] } es ∧ f'.corrupted = false := ⟨_, _, rfl, rfl⟩
  obtain ⟨f', es, hrun, hmark⟩ := hfails
  have hmarked := h _ reachable_oneByte (by decide) _ _ _ [] (List.append_nil _).symm _ _ _ _ hrun
    (by decide)
  rw [hmark] at hmarked
  cases hmarked

end Marks

end SpuKit
