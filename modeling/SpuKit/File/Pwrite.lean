import SpuKit.File.Contents

/-!
# Short writes at an offset

`fd_pwrite` moves its offset on after a short write, but passes the beginning of
the buffer to `pwrite` again. The file then holds beginnings of the buffer, one
after the other.

## Main definitions

- `StartsAgain` — wherever a call goes on, the buffer starts again

## Main results

- `overwrite_append` — two writes in a row are one
- `fdPwrite_contents` — what a successful `fd_pwrite` leaves in the file
- `fdPwrite_contents_iff` — when that is the buffer
-/

namespace SpuKit

section Overwrite

variable {content bytes bytes' : List Byte} {off : Nat}

/-- The bytes before an offset. A gap reads as zeros. -/
def before (content : List Byte) (off : Nat) : List Byte :=
  content.take off ++ List.replicate (off - content.length) 0

theorem before_length (content : List Byte) (off : Nat) : (before content off).length = off := by
  simp only [before, List.length_append, List.length_take, List.length_replicate]
  omega

theorem overwrite_of_ne (h : bytes ≠ []) :
    overwrite content off bytes =
      before content off ++ (bytes ++ content.drop (off + bytes.length)) := by
  rw [overwrite, if_neg h, before, ← List.append_assoc]

theorem before_append_length (content bytes : List Byte) (off : Nat) :
    (before content off ++ bytes).length = off + bytes.length := by
  rw [List.length_append, before_length]

/-- The bytes before the end of a write are those before it and the written ones. -/
theorem before_overwrite (h : bytes ≠ []) :
    before (overwrite content off bytes) (off + bytes.length) = before content off ++ bytes := by
  have htake : (overwrite content off bytes).take (off + bytes.length) =
      before content off ++ bytes := by
    rw [overwrite_of_ne h, ← List.append_assoc]
    exact List.take_left' (before_append_length ..)
  have hnogap : off + bytes.length - (overwrite content off bytes).length = 0 := by
    have hle := congrArg List.length htake
    rw [List.length_take, before_append_length] at hle
    omega
  rw [before, htake, hnogap, List.replicate_zero, List.append_nil]

/-- The bytes behind a write are left alone. -/
theorem drop_overwrite (h : bytes ≠ []) (k : Nat) :
    (overwrite content off bytes).drop (off + bytes.length + k) =
      content.drop (off + bytes.length + k) := by
  have hdrop : (overwrite content off bytes).drop (off + bytes.length) =
      content.drop (off + bytes.length) := by
    rw [overwrite_of_ne h, ← List.append_assoc]
    exact List.drop_left' (before_append_length ..)
  rw [← List.drop_drop, hdrop, List.drop_drop]

/-- So are those behind the end of a longer stretch. -/
theorem drop_overwrite_of_le {k : Nat} (h : bytes = [] ∨ off + bytes.length ≤ k) :
    (overwrite content off bytes).drop k = content.drop k := by
  by_cases hnil : bytes = []
  · rw [hnil, overwrite_nil]
  · obtain ⟨j, rfl⟩ := Nat.exists_eq_add_of_le (h.resolve_left hnil)
    exact drop_overwrite hnil j

/-- **Adjacent writes** are one write. -/
theorem overwrite_append (content : List Byte) (off : Nat) (bytes bytes' : List Byte) :
    overwrite (overwrite content off bytes) (off + bytes.length) bytes' =
      overwrite content off (bytes ++ bytes') := by
  by_cases h : bytes = []
  · rw [h, overwrite_nil, List.nil_append, List.length_nil, Nat.add_zero]
  by_cases h' : bytes' = []
  · rw [h', overwrite_nil, List.append_nil]
  rw [overwrite_of_ne h', before_overwrite h, drop_overwrite h, overwrite_of_ne (by simp [h]),
    List.length_append, List.append_assoc, List.append_assoc, Nat.add_assoc]

/-- Writes of as many bytes at the same offset differ if the bytes do. -/
theorem overwrite_inj (hlen : bytes.length = bytes'.length) :
    overwrite content off bytes = overwrite content off bytes' ↔ bytes = bytes' := by
  refine ⟨fun h => ?_, fun h => by rw [h]⟩
  by_cases hnil : bytes = []
  · rw [hnil] at hlen ⊢
    exact (List.eq_nil_of_length_eq_zero hlen.symm).symm
  · have hnil' : bytes' ≠ [] := by
      rintro rfl
      exact hnil (List.eq_nil_of_length_eq_zero hlen)
    rw [overwrite_of_ne hnil, overwrite_of_ne hnil'] at h
    exact (List.append_inj (List.append_cancel_left h) hlen).1

end Overwrite

-- ════════════════════════════════════════════════════════════════════════
-- The moves of a transfer
-- ════════════════════════════════════════════════════════════════════════

/-- Where the calls that move so many bytes each begin, the buffer begins again. -/
def StartsAgain (buf : List Byte) : Nat → List Nat → Prop
  | _, [] => True
  | sent, n :: ns => (buf.drop sent).take n = buf.take n ∧ StartsAgain buf (sent + n) ns

instance decidableStartsAgain (buf : List Byte) :
    ∀ sent ns, Decidable (StartsAgain buf sent ns)
  | _, [] => inferInstanceAs (Decidable True)
  | sent, n :: ns =>
    have := decidableStartsAgain buf (sent + n) ns
    inferInstanceAs (Decidable (_ ∧ _))

section Moves

variable {fd : Int} {os os' : Os} {es : List SysEvent} {off sent remains : Nat} {buf : List Byte}
  {ns : List Nat} {replies rest : List Reply}

theorem Transfers.sum_moves (h : Transfers remains replies rest) :
    (transferMoves false remains replies).sum = remains := by
  induction h with
  | done rest => rw [transferMoves_zero, List.sum_nil]
  | moved hpos _ _ ih =>
    rw [transferMoves_ok hpos, List.sum_cons, ih]
    omega
  | interrupted _ _ ih => rw [transferMoves_interrupted, ih]
  | again _ hwaits _ ih => rw [transferMoves_again, hwaits.moves, ih]

/-- The beginnings of the buffer, one after the other. -/
def beginnings (buf : List Byte) (ns : List Nat) : List Byte := ns.flatMap buf.take

theorem beginnings_length (hns : ns.sum ≤ buf.length) : (beginnings buf ns).length = ns.sum := by
  induction ns with
  | nil => rfl
  | cons n ns ih =>
    rw [List.sum_cons] at hns ⊢
    rw [beginnings, List.flatMap_cons, List.length_append, List.length_take,
      Nat.min_eq_left (by omega)]
    exact congrArg (n + ·) (ih (by omega))

/-- The beginnings are the rest of the buffer if it starts again with each. -/
theorem beginnings_eq_iff (hns : sent + ns.sum ≤ buf.length) :
    beginnings buf ns = (buf.drop sent).take ns.sum ↔ StartsAgain buf sent ns := by
  induction ns generalizing sent with
  | nil => simp [beginnings, StartsAgain]
  | cons n ns ih =>
    rw [List.sum_cons] at hns
    have hfirst : (buf.take n).length = ((buf.drop sent).take n).length := by
      rw [List.length_take, List.length_take, List.length_drop]
      omega
    rw [beginnings, List.flatMap_cons, List.sum_cons, List.take_add, List.drop_drop, StartsAgain,
      ← ih (by omega), eq_comm (b := buf.take n)]
    constructor
    · intro h
      exact List.append_inj h hfirst
    · rintro ⟨hn, hrest⟩
      rw [hn]
      exact congrArg _ hrest

/-- The file after the calls of a transfer that goes on from `sent`. -/
theorem contents_of_recorded
    (h : Recorded (fun sent => .pwrite fd (off + sent)
      (buf.take (min (buf.length - sent) ssizeMax))) fd buf.length sent ns es)
    (file : FileState) :
    es.foldl (SysEvent.apply fd) file =
      { file with content := overwrite file.content (off + sent) (beginnings buf ns) } := by
  induction h generalizing file with
  | nil sent => rw [List.foldl_nil, beginnings, List.flatMap_nil, overwrite_nil]
  | @moved sent n ns es hn h ih =>
    have hmoved : (Reply.ok n).moved (buf.take (min (buf.length - sent) ssizeMax)) =
        buf.take n := by
      rw [Reply.moved, List.take_take, Nat.min_eq_left hn]
    have hlen : (buf.take n).length = n := by
      rw [List.length_take]
      omega
    have happly : SysEvent.apply fd file
        (.pwrite fd (off + sent) (buf.take (min (buf.length - sent) ssizeMax)) (.ok n)) =
        { file with content := overwrite file.content (off + sent) (buf.take n) } := by
      rw [SysEvent.apply, if_pos rfl, hmoved]
    have hnext := overwrite_append file.content (off + sent) (buf.take n) (beginnings buf ns)
    rw [hlen, Nat.add_assoc] at hnext
    rw [List.foldl_cons, happly, ih, hnext]
    rfl
  | failed errno h ih => rw [List.foldl_cons, apply_pwrite_failed, ih]
  | poll h ih => exact ih file

/-- **`fd_pwrite`**: when it succeeds, beginnings of the buffer were written one
    after the other, of the sizes that the calls moved. -/
theorem fdPwrite_contents (h : (fdPwrite fd off buf).Returns os true os' es) (file : FileState) :
    (transferMoves false buf.length os.replies).sum = buf.length ∧
    es.foldl (SysEvent.apply fd) file = { file with
      content := overwrite file.content off
        (beginnings buf (transferMoves false buf.length os.replies)) } := by
  obtain hfd | hfd := lt_or_ge fd 0
  · have hfalse := ((returns_transferAll_neg hfd pwriteFile_eq).mp h).1
    cases hfalse
  · obtain ⟨-, -, hdone⟩ := transferAll_rule _ (fun _ _ => True) hfd (fun _ _ => pwriteFile_eq)
      True.intro ⟨fun _ _ _ _ h => h, fun _ _ _ h => h, fun _ _ h => h⟩ h
    obtain ⟨hbuf, htransfers⟩ := hdone rfl
    obtain ⟨es', hes', hrecorded⟩ := fdPwrite_of_transfers off hfd hbuf htransfers
    obtain ⟨-, -, rfl⟩ := h.unique hes'
    exact ⟨htransfers.sum_moves, contents_of_recorded hrecorded file⟩

theorem keeps_behind (fd : Int) (off : Nat) (buf : List Byte) (file : FileState) :
    KeepsTransfer
      (fun sent => .pwrite fd (off + sent) (buf.take (min (buf.length - sent) ssizeMax))) fd
      buf.length
      (fun _ es => (es.foldl (SysEvent.apply fd) file).content.drop (off + buf.length) =
        file.content.drop (off + buf.length)) where
  moved sent n es hn hinv := by
    rw [List.foldl_append, ← hinv, List.foldl_cons, List.foldl_nil, SysEvent.apply, if_pos rfl]
    refine drop_overwrite_of_le ?_
    rw [Reply.moved, List.take_take, List.length_take]
    by_cases hzero : n = 0
    · left
      rw [hzero, Nat.zero_min, List.take_zero]
    · right
      omega
  failed sent errno es hinv := by
    rw [List.foldl_append, List.foldl_cons, List.foldl_nil, apply_pwrite_failed]
    exact hinv
  poll sent es hinv := by
    rw [List.foldl_append]
    exact hinv

/-- However `fd_pwrite` ends, it leaves what is behind the buffer alone. -/
theorem fdPwrite_behind {ok : Bool} (hfd : 0 ≤ fd)
    (h : (fdPwrite fd off buf).Returns os ok os' es) (file : FileState) :
    (es.foldl (SysEvent.apply fd) file).content.drop (off + buf.length) =
      file.content.drop (off + buf.length) := by
  obtain ⟨-, ⟨_, -, hbehind, -⟩, -⟩ :=
    transferAll_rule _ _ hfd (fun _ _ => pwriteFile_eq) rfl (keeps_behind fd off buf file) h
  exact hbehind

/-- **Contents**: a successful `fd_pwrite` writes the buffer at the offset, and
    nothing else, if the buffer starts again wherever a short write ends. -/
theorem fdPwrite_contents_iff (h : (fdPwrite fd off buf).Returns os true os' es)
    (file : FileState) :
    es.foldl (SysEvent.apply fd) file =
        { file with content := overwrite file.content off buf } ↔
      StartsAgain buf 0 (transferMoves false buf.length os.replies) := by
  obtain ⟨hsum, hcontents⟩ := fdPwrite_contents h file
  rw [hcontents, FileState.mk.injEq, and_iff_left rfl,
    overwrite_inj ((beginnings_length hsum.le).trans hsum),
    ← beginnings_eq_iff (by rw [Nat.zero_add]; exact hsum.le), hsum, List.drop_zero,
    List.take_length]

/-- Two calls that move a byte each. -/
def oneByOne : Os := { replies := [.ok 1, .ok 1], blocks := 0, garbage := fun _ _ => 0 }

/-- Two equal bytes. -/
theorem fdPwrite_contents_twice :
    [SysEvent.pwrite 3 0 [7, 7] (.ok 1), .pwrite 3 1 [7] (.ok 1)].foldl (SysEvent.apply 3)
        { content := [], pos := 0 } = { content := [7, 7], pos := 0 } := by
  have hrun : (fdPwrite 3 0 [7, 7]).Returns oneByOne true { oneByOne with replies := [] }
      [.pwrite 3 0 [7, 7] (.ok 1), .pwrite 3 1 [7] (.ok 1)] := rfl
  exact (fdPwrite_contents_iff hrun { content := [], pos := 0 }).mpr (by decide)

/-- Of two different bytes the first is written twice. -/
theorem fdPwrite_repeats : ¬ ∀ (fd : Int) (off : Nat) (buf : List Byte) (os os' : Os)
    (es : List SysEvent) (file : FileState), 0 < buf.length →
    (fdPwrite fd off buf).Returns os true os' es →
    es.foldl (SysEvent.apply fd) file =
      { file with content := overwrite file.content off buf } := by
  intro h
  have hrun : (fdPwrite 3 0 [1, 2]).Returns oneByOne true { oneByOne with replies := [] }
      [.pwrite 3 0 [1, 2] (.ok 1), .pwrite 3 1 [1] (.ok 1)] := rfl
  have hsame := h 3 0 [1, 2] _ _ _ { content := [], pos := 0 } (by decide) hrun
  exact absurd (congrArg FileState.content hsame) (by decide)

end Moves

end SpuKit
