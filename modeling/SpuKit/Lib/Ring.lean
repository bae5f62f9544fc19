import Mathlib.Logic.Function.Basic
import Mathlib.Data.List.Basic

/-!
# Rings and delay lines

A ring of `n` slots with a cursor is read here as the list of its slots from
the cursor onwards, oldest first. Overwriting the slot under the cursor and
moving the cursor on drops the oldest element and appends the new one, whatever
the ring is made of (an array, a region of memory, a shift register).

A full ring that is read and overwritten at the same place is a delay line: it
hands back what was put in exactly `n` steps earlier.

## Main definitions

- `Ring.contents` — the slots from the cursor onwards, wrapping once
- `Ring.IsWindow` — the ring holds the last elements that were written
- `Ring.IsDelay` — a sequence of read/write pairs driven by a full queue

## Main results

- `Ring.contents_push` — one overwrite shifts the contents by one
- `Ring.IsWindow.push`, `Ring.IsWindow.slot_eq`, `Ring.IsWindow.contents_eq` — writing to
  and reading from a window
- `Ring.IsDelay.read_eq_write` — the read `n` steps later is the write
-/

namespace Ring

variable {α : Type}

/-- The slots of a ring of size `n` from position `pos` onwards, wrapping once:
    the oldest element first when `pos` is the next slot to be overwritten. -/
def contents (n : ℕ) (slot : ℕ → α) (pos : ℕ) : List α :=
  (List.range n).map fun k => slot ((pos + k) % n)

@[simp] theorem length_contents (n : ℕ) (slot : ℕ → α) (pos : ℕ) :
    (contents n slot pos).length = n := by
  simp [contents]

@[simp] theorem getElem_contents {n : ℕ} (slot : ℕ → α) (pos k : ℕ)
    (h : k < (contents n slot pos).length) :
    (contents n slot pos)[k] = slot ((pos + k) % n) := by
  simp [contents]

/-- Only the slots below the size matter. -/
theorem contents_congr {n : ℕ} {slot slot' : ℕ → α} (pos : ℕ)
    (h : ∀ j, j < n → slot j = slot' j) :
    contents n slot pos = contents n slot' pos := by
  apply List.ext_getElem
  · simp
  · intro k hk hk'
    have hn : 0 < n := by
      rw [length_contents] at hk
      omega
    rw [getElem_contents, getElem_contents, h _ (Nat.mod_lt _ hn)]

/-- The element under the cursor is the oldest one. -/
theorem head?_contents {n : ℕ} (slot : ℕ → α) {pos : ℕ} (hpos : pos < n) :
    (contents n slot pos).head? = some (slot pos) := by
  have hn : 0 < (contents n slot pos).length := by
    rw [length_contents]
    omega
  rw [List.head?_eq_getElem?, List.getElem?_eq_getElem hn, getElem_contents,
    Nat.add_zero, Nat.mod_eq_of_lt hpos]

/-- Offsets below the size reach distinct slots. -/
theorem add_mod_ne {n pos k : ℕ} (hpos : pos < n) (hk : 0 < k) (hkn : k < n) :
    (pos + k) % n ≠ pos := by
  intro h
  rcases Nat.lt_or_ge (pos + k) n with hlt | hge
  · rw [Nat.mod_eq_of_lt hlt] at h
    omega
  · rw [Nat.mod_eq_sub_mod hge, Nat.mod_eq_of_lt (by omega)] at h
    omega

/-- Overwriting the oldest slot and moving the cursor on drops the oldest
    element and appends the new one. -/
theorem contents_push {n : ℕ} (slot : ℕ → α) {pos : ℕ} (hpos : pos < n) (v : α) :
    contents n (Function.update slot pos v) ((pos + 1) % n) =
      (contents n slot pos).tail ++ [v] := by
  apply List.ext_getElem
  · simp
    omega
  · intro k hk hk'
    rw [length_contents] at hk
    rw [getElem_contents, Nat.mod_add_mod, Nat.add_assoc, Nat.add_comm 1 k]
    rcases Nat.lt_or_ge (k + 1) n with hlt | hge
    · rw [Function.update_of_ne (add_mod_ne hpos (by omega) hlt),
        List.getElem_append_left (by simp; omega), List.getElem_tail, getElem_contents]
    · have hkn : k + 1 = n := by omega
      rw [hkn, Nat.add_mod_right, Nat.mod_eq_of_lt hpos, Function.update_self,
        List.getElem_append_right (by simp; omega)]
      simp

/-- The ring holds the last `n` elements of what was written to it, behind
    whatever it held at the start. -/
def IsWindow (n : ℕ) (slot : ℕ → α) (pos : ℕ) (written : List α) : Prop :=
  ∃ start : List α, start.length = n ∧
    contents n slot pos = (start ++ written).drop written.length

/-- A ring to which nothing was written is a window of nothing. -/
theorem isWindow_nil (n : ℕ) (slot : ℕ → α) (pos : ℕ) : IsWindow n slot pos [] :=
  ⟨contents n slot pos, length_contents n slot pos, by simp⟩

/-- Overwriting the oldest slot appends to what was written. -/
theorem IsWindow.push {n : ℕ} {slot : ℕ → α} {pos : ℕ} {written : List α}
    (h : IsWindow n slot pos written) (hpos : pos < n) (v : α) :
    IsWindow n (Function.update slot pos v) ((pos + 1) % n) (written ++ [v]) := by
  obtain ⟨start, hlen, hcontents⟩ := h
  have hle : written.length + 1 ≤ (start ++ written).length := by
    rw [List.length_append]
    omega
  refine ⟨start, hlen, ?_⟩
  rw [contents_push slot hpos, hcontents, List.tail_drop, ← List.append_assoc,
    List.length_append, List.length_singleton, List.drop_append_of_le_length hle]

/-- The slot `k` behind the cursor of a full window. -/
theorem IsWindow.slot_eq {n : ℕ} {slot : ℕ → α} {pos : ℕ} {written : List α}
    (h : IsWindow n slot pos written) {k : ℕ} (hk : k < n) (hfull : n ≤ written.length + k) :
    written[written.length + k - n]? = some (slot ((pos + k) % n)) := by
  obtain ⟨start, hlen, hcontents⟩ := h
  have hget := congrArg (fun l => l[k]?) hcontents
  rw [List.getElem?_drop, List.getElem?_append_right (by omega), hlen,
    List.getElem?_eq_getElem (by rwa [length_contents]), getElem_contents] at hget
  exact hget.symm

/-- A full window holds the last `n` elements that were written. -/
theorem IsWindow.contents_eq {n : ℕ} {slot : ℕ → α} {pos : ℕ} {written : List α}
    (h : IsWindow n slot pos written) (hfull : n ≤ written.length) :
    contents n slot pos = written.drop (written.length - n) := by
  obtain ⟨start, hlen, hcontents⟩ := h
  rw [hcontents, List.drop_append, List.drop_eq_nil_of_le (by omega), List.nil_append, hlen]

/-- Each pair reads the head of the queue and appends what it writes. -/
def IsDelay : List α → List (α × α) → Prop
  | _, [] => True
  | q, (r, w) :: io => q.head? = some r ∧ IsDelay (q.tail ++ [w]) io

/-- The reads are the initial queue followed by the writes. -/
theorem IsDelay.reads {q : List α} {io : List (α × α)} (h : IsDelay q io) :
    io.map Prod.fst = (q ++ io.map Prod.snd).take io.length := by
  induction io generalizing q with
  | nil => rfl
  | cons rw io ih =>
    obtain ⟨r, w⟩ := rw
    obtain ⟨hr, hio⟩ := h
    cases q with
    | nil => simp at hr
    | cons a q =>
      obtain rfl : a = r := by simpa using hr
      have := ih hio
      simpa using this

/-- **Exact delay**: the read `q.length` steps later returns the write. -/
theorem IsDelay.read_eq_write {q : List α} {io : List (α × α)} (h : IsDelay q io)
    {t : ℕ} (ht : t + q.length < io.length) :
    io[t + q.length].1 = io[t].2 := by
  have hreads := congrArg (fun l => l[t + q.length]?) h.reads
  rw [List.getElem?_take_of_lt ht, List.getElem?_append_right (by omega),
    Nat.add_sub_cancel, List.getElem?_map, List.getElem?_map,
    List.getElem?_eq_getElem ht, List.getElem?_eq_getElem (by omega)] at hreads
  simpa using hreads

end Ring
