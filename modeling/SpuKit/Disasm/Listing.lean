import Mathlib.Data.List.Pairwise
import SpuKit.Disasm.Shapes
import SpuKit.Lib.Pattern

/-!
# What a listing keeps

The disassembler prints the operands of an instruction without the commas that
stand between them in the opcode table. A line still tells the instruction: no two
lines of the table print alike, whatever the operands are, and the texts of the
operands tell their bytes. So a listing has all the bytes that were disassembled.

## Main definitions

- `Fmt.Holds` — the values of a format
- `linePattern` — what the lines of an opcode look like
- `disassembled` — the bytes of the instructions that are printed

## Main results

- `parse_toDigits` — printed digits are read back
- `adrText_injective` — the text of an operand tells its value
- `entry_of_line` — a line tells the entry of the table
- `listing_lossless` — a listing tells the bytes
-/

namespace SpuKit.Disasm

-- ════════════════════════════════════════════════════════════════════════
-- Digits
-- ════════════════════════════════════════════════════════════════════════

/-- The digits of hexadecimal numbers. -/
def hexChars : List Char :=
  ['0', '1', '2', '3', '4', '5', '6', '7', '8', '9', 'a', 'b', 'c', 'd', 'e', 'f']

/-- Digits are read from the left. -/
def readDigits (base init : Nat) (s : List Char) : Option Nat :=
  s.foldlM (fun n c => (base * n + ·) <$> hexDigit c) init

theorem readDigits_append (base init : Nat) (s t : List Char) :
    readDigits base init (s ++ t) = (readDigits base init s).bind fun n => readDigits base n t :=
  List.foldlM_append

theorem hexDigit_digitChar {d : Nat} (h : d < 16) : hexDigit d.digitChar = some d := by
  have hall : ∀ d < 16, hexDigit d.digitChar = some d := by decide
  exact hall d h

theorem digitChar_mem {d : Nat} (h : d < 16) : d.digitChar ∈ hexChars := by
  have hall : ∀ d < 16, d.digitChar ∈ hexChars := by decide
  exact hall d h

theorem readDigits_zeros (base n : Nat) : readDigits base 0 (List.replicate n '0') = some 0 := by
  induction n with
  | zero => rfl
  | succ n ih =>
    rw [List.replicate_succ, readDigits, List.foldlM_cons]
    have hzero : (base * 0 + ·) <$> hexDigit '0' = some 0 := congrArg some (Nat.zero_add _)
    rw [hzero]
    exact ih

section Digits

variable {base : Nat} (hbase : 1 < base) (hle : base ≤ 16)
include hbase hle

/-- **Digits**: what is printed is read back. -/
theorem parse_toDigits (n : Nat) : readDigits base 0 (Nat.toDigits base n) = some n := by
  induction n using Nat.strong_induction_on with
  | _ n ih =>
    by_cases hlt : n < base
    · rw [Nat.toDigits_of_lt_base hlt, readDigits, List.foldlM_cons,
        hexDigit_digitChar (by omega)]
      exact congrArg some (Nat.zero_add n)
    · have hmod : n % base < base := Nat.mod_lt _ (by omega)
      rw [Nat.toDigits_of_base_le hbase (Nat.le_of_not_lt hlt), readDigits_append,
        ih (n / base) (Nat.div_lt_self (by omega) hbase), Option.bind_some, readDigits,
        List.foldlM_cons, hexDigit_digitChar (by omega)]
      exact congrArg some (Nat.div_add_mod n base)

theorem toDigits_injective : Function.Injective (Nat.toDigits base) := by
  intro n n' h
  have hread := congrArg (readDigits base 0) h
  rw [parse_toDigits hbase hle, parse_toDigits hbase hle] at hread
  exact Option.some.inj hread

theorem toDigits_mem (n : Nat) : ∀ c ∈ Nat.toDigits base n, c ∈ hexChars := by
  induction n using Nat.strong_induction_on with
  | _ n ih =>
    intro c hc
    by_cases hlt : n < base
    · rw [Nat.toDigits_of_lt_base hlt, List.mem_singleton] at hc
      exact hc ▸ digitChar_mem (by omega)
    · have hmod : n % base < base := Nat.mod_lt _ (by omega)
      rw [Nat.toDigits_of_base_le hbase (Nat.le_of_not_lt hlt), List.mem_append,
        List.mem_singleton] at hc
      obtain hc | rfl := hc
      · exact ih (n / base) (Nat.div_lt_self (by omega) hbase) c hc
      · exact digitChar_mem (by omega)

end Digits

theorem hexDigits_injective (width : Nat) : Function.Injective (hexDigits width) := by
  intro n n' h
  have hread : ∀ n, readDigits 16 0 (hexDigits width n) = some n := by
    intro n
    rw [hexDigits, readDigits_append, readDigits_zeros, Option.bind_some,
      parse_toDigits (by decide) (by decide)]
  exact Option.some.inj ((hread n).symm.trans ((congrArg _ h).trans (hread n')))

theorem hexDigits_mem (width n : Nat) : ∀ c ∈ hexDigits width n, c ∈ hexChars := by
  intro c hc
  obtain hc | hc := List.mem_append.mp hc
  · rw [List.eq_of_mem_replicate hc]
    decide
  · exact toDigits_mem (by decide) (by decide) n c hc

/-- A number that is not too large takes just its width. -/
theorem hexDigits_length {width n : Nat} (hwidth : 0 < width) (h : n < 16 ^ width) :
    (hexDigits width n).length = width := by
  have hlen := (Nat.length_toDigits_le_iff (by decide : 1 < 16) hwidth).mpr h
  rw [hexDigits, List.length_append, List.length_replicate]
  omega

-- ════════════════════════════════════════════════════════════════════════
-- Signs
-- ════════════════════════════════════════════════════════════════════════

/-- A number with its sign before the digits. -/
def signed (neg pos : Nat → List Char) (v : Int) : List Char :=
  if v < 0 then '-' :: neg v.natAbs else pos v.natAbs

/-- The sign is no digit. -/
theorem signed_injective {neg pos : Nat → List Char} (hneg : Function.Injective neg)
    (hpos : Function.Injective pos) (hsign : ∀ n, '-' ∉ pos n) :
    Function.Injective (signed neg pos) := by
  intro v v' h
  unfold signed at h
  by_cases hv : v < 0 <;> by_cases hv' : v' < 0
  · rw [if_pos hv, if_pos hv'] at h
    have habs := hneg (List.cons.inj h).2
    omega
  · rw [if_pos hv, if_neg hv'] at h
    exact absurd (h ▸ List.mem_cons_self) (hsign _)
  · rw [if_neg hv, if_pos hv'] at h
    exact absurd (h ▸ List.mem_cons_self) (hsign _)
  · rw [if_neg hv, if_neg hv'] at h
    have habs := hpos h
    omega

theorem fmtHex_injective (width : Nat) : Function.Injective (fmtHex width) :=
  signed_injective (hexDigits_injective _) (hexDigits_injective _)
    fun n hmem => absurd (hexDigits_mem width n _ hmem) (by decide)

theorem toString_int (v : Int) :
    (toString v).toList = signed (Nat.toDigits 10) (Nat.toDigits 10) v := by
  cases v with
  | ofNat n =>
    have hnonneg : ¬ Int.ofNat n < 0 := Int.not_lt.mpr (Int.natCast_nonneg n)
    rw [signed, if_neg hnonneg]
    exact Nat.toList_repr
  | negSucc n =>
    rw [signed, if_pos (Int.negSucc_lt_zero n)]
    show ("-" ++ (n + 1).repr).toList = _
    rw [String.toList_append, Nat.toList_repr]
    rfl

theorem toString_int_injective : Function.Injective fun v : Int => (toString v).toList := by
  have hdigits : Function.Injective (Nat.toDigits 10) := toDigits_injective (by decide) (by decide)
  have hsigned := signed_injective hdigits hdigits
    fun n hmem => absurd (toDigits_mem (by decide) (by decide) n _ hmem) (by decide)
  intro v v' h
  simp only [toString_int] at h
  exact hsigned h

/-- The text of a number that is not negative. -/
theorem fmtHex_natCast (width n : Nat) : fmtHex width n = hexDigits width n := by
  rw [fmtHex, if_neg (Int.not_lt.mpr (Int.natCast_nonneg n))]
  rfl

-- ════════════════════════════════════════════════════════════════════════
-- Operands
-- ════════════════════════════════════════════════════════════════════════

/-- The values of a format. -/
def Fmt.Holds (v : Int) : Fmt → Prop
  | .uint16 => ∃ n : Nat, n < 0x10000 ∧ v = n
  | .uint8 => ∃ n : Nat, n < 0x100 ∧ v = n
  | .int8 => True

/-- A `Struct` unpacks values of its formats. -/
theorem holds_unpackFrom (buf : List Byte) (s : Struct) (off : Nat) :
    List.Forall₂ Fmt.Holds (s.unpackFrom buf off) s := by
  induction s generalizing off with
  | nil => exact .nil
  | cons f s ih =>
    refine .cons ?_ (ih _)
    cases f with
    | uint16 => exact ⟨_, (wordOf _ _).isLt, rfl⟩
    | uint8 => exact ⟨_, (buf.getD _ 0).isLt, rfl⟩
    | int8 => trivial

/-- What `Adr.format` yields for a value. -/
def adrText (adr : List Char) (v : Int) (addr : Option Nat) : List Char :=
  (ftab adr).elim [] fun f => f v addr

/-- The first characters of a displacement or its target. -/
def relStart : List Char := '$' :: '-' :: hexChars

/-- What the text of an operand looks like; that of a displacement has no fixed
    length. -/
def adrClasses (adr : List Char) : List (List Char) :=
  ([(['!', 'a'], ['$'] :: List.replicate 4 hexChars),
    (['#', 'i'], ['#'] :: ['$'] :: List.replicate 2 hexChars),
    (['d'], ['$'] :: List.replicate 2 hexChars),
    (['m', '.', 'b'], ['$'] :: List.replicate 4 hexChars ++ [['.'], hexChars]),
    (['v'], ['$'] :: List.replicate 2 hexChars)].lookup adr).getD []

/-- The operands that have a format. -/
theorem adr_cases {adr : List Char} {f : Fmt} (h : adrFmt adr = some f) :
    (adr = ['!', 'a'] ∧ f = .uint16) ∨ (adr = ['#', 'i'] ∧ f = .uint8) ∨
      (adr = ['d'] ∧ f = .uint8) ∨ (adr = ['r'] ∧ f = .int8) ∨
      (adr = ['m', '.', 'b'] ∧ f = .uint16) ∨ (adr = ['v'] ∧ f = .uint8) := by
  obtain ⟨_, _, heq, -⟩ := List.lookup_eq_some_iff.mp h
  have hmem : (adr, f) ∈ [(['!', 'a'], Fmt.uint16), (['#', 'i'], .uint8), (['d'], .uint8),
      (['r'], .int8), (['m', '.', 'b'], .uint16), (['v'], .uint8)] := by
    rw [heq]
    exact List.mem_append_right _ List.mem_cons_self
  simpa using hmem

/-- Digits of a fixed width. -/
theorem hexDigits_classes {width n : Nat} (hwidth : 0 < width) (h : n < 16 ^ width) :
    List.Forall₂ (· ∈ ·) (hexDigits width n) (List.replicate width hexChars) := by
  have hmem := hexDigits_mem width n
  have hlen := hexDigits_length hwidth h
  generalize hexDigits width n = s at hmem hlen
  subst hlen
  clear hwidth h
  induction s with
  | nil => exact .nil
  | cons c s ih =>
    obtain ⟨hc, hs⟩ := List.forall_mem_cons.mp hmem
    exact .cons hc (ih hs)

/-- The address and the bit of a word, as they are printed. -/
theorem fmtMembit_natCast {n : Nat} (h : n < 0x10000) (addr : Option Nat) :
    fmtMembit n addr =
      '$' :: hexDigits 4 (n % 0x2000) ++ ['.', (n / 0x2000).digitChar] := by
  have hmem : ((n : Int) % 0x2000) = ((n % 0x2000 : Nat) : Int) := rfl
  have hbit : ((n : Int) >>> (13 : Nat)) = ((n / 0x2000 : Nat) : Int) :=
    congrArg Int.ofNat (Nat.shiftRight_eq_div_pow n 13)
  have hdigit : (toString ((n / 0x2000 : Nat) : Int)).toList = [(n / 0x2000).digitChar] := by
    have hnonneg : ¬ ((n / 0x2000 : Nat) : Int) < 0 := Int.not_lt.mpr (Int.natCast_nonneg _)
    have hten : n / 0x2000 < 10 := by omega
    rw [toString_int, signed, if_neg hnonneg]
    exact Nat.toDigits_of_lt_base hten
  simp only [fmtMembit, hmem, hbit, hdigit, fmtHex_natCast]

/-- **Classes**: the text of an operand that is no displacement. -/
theorem adrText_classes {adr : List Char} {f : Fmt} {v : Int} (addr : Option Nat)
    (hf : adrFmt adr = some f) (hv : f.Holds v) (hrel : adr ≠ ['r']) :
    List.Forall₂ (· ∈ ·) (adrText adr v addr) (adrClasses adr) := by
  have hself : ∀ c : Char, c ∈ [c] := List.mem_singleton_self
  have hbyte : ∀ n < 0x100, List.Forall₂ (· ∈ ·) ('$' :: fmtHex 2 (n : Nat))
      (['$'] :: List.replicate 2 hexChars) := by
    intro n hn
    rw [fmtHex_natCast]
    exact .cons (hself _) (hexDigits_classes (by decide) hn)
  obtain ⟨rfl, rfl⟩ | ⟨rfl, rfl⟩ | ⟨rfl, rfl⟩ | ⟨rfl, rfl⟩ | ⟨rfl, rfl⟩ | ⟨rfl, rfl⟩ := adr_cases hf
  · obtain ⟨n, hn, rfl⟩ := hv
    show List.Forall₂ (· ∈ ·) ('$' :: fmtHex 4 (n : Nat)) (['$'] :: List.replicate 4 hexChars)
    rw [fmtHex_natCast]
    exact .cons (hself _) (hexDigits_classes (by decide) hn)
  · obtain ⟨n, hn, rfl⟩ := hv
    exact .cons (hself _) (hbyte n hn)
  · obtain ⟨n, hn, rfl⟩ := hv
    exact hbyte n hn
  · exact absurd rfl hrel
  · obtain ⟨n, hn, rfl⟩ := hv
    show List.Forall₂ (· ∈ ·) (fmtMembit n addr)
      (['$'] :: List.replicate 4 hexChars ++ [['.'], hexChars])
    have hmem : n % 0x2000 < 16 ^ 4 := by omega
    rw [fmtMembit_natCast hn]
    have hfirst : List.Forall₂ (· ∈ ·) ('$' :: hexDigits 4 (n % 0x2000))
        (['$'] :: List.replicate 4 hexChars) :=
      .cons (hself _) (hexDigits_classes (by decide) hmem)
    exact List.rel_append hfirst (.cons (hself _) (.cons (digitChar_mem (by omega)) .nil))
  · obtain ⟨n, hn, rfl⟩ := hv
    exact hbyte n hn

/-- The text of a displacement. -/
theorem adrText_rel (v : Int) (addr : Option Nat) :
    ∃ c rest, adrText ['r'] v addr = c :: rest ∧ c ∈ relStart := by
  cases addr with
  | some addr => exact ⟨_, _, rfl, List.mem_cons_self⟩
  | none =>
    have htext : adrText ['r'] v none = signed (Nat.toDigits 10) (Nat.toDigits 10) v :=
      toString_int v
    rw [htext, signed]
    split
    · exact ⟨_, _, rfl, List.mem_cons_of_mem _ List.mem_cons_self⟩
    · obtain ⟨c, rest, hdigits⟩ := List.exists_cons_of_ne_nil
        (Nat.toDigits_ne_nil (n := v.natAbs) (b := 10))
      have hc := toDigits_mem (by decide) (by decide) v.natAbs c (hdigits ▸ List.mem_cons_self)
      exact ⟨c, rest, hdigits, List.mem_cons_of_mem _ (List.mem_cons_of_mem _ hc)⟩

/-- **Values**: the text of an operand tells its value. -/
theorem adrText_injective {adr : List Char} {f : Fmt} {v v' : Int} {addr : Option Nat}
    (hf : adrFmt adr = some f) (hv : f.Holds v) (hv' : f.Holds v')
    (h : adrText adr v addr = adrText adr v' addr) : v = v' := by
  obtain ⟨rfl, rfl⟩ | ⟨rfl, rfl⟩ | ⟨rfl, rfl⟩ | ⟨rfl, rfl⟩ | ⟨rfl, rfl⟩ | ⟨rfl, rfl⟩ := adr_cases hf
  · exact fmtHex_injective 4 (List.cons.inj h).2
  · exact fmtHex_injective 2 (List.cons.inj (List.cons.inj h).2).2
  · exact fmtHex_injective 2 (List.cons.inj h).2
  · cases addr with
    | none => exact toString_int_injective h
    | some addr =>
      have hsum := fmtHex_injective 4 (List.cons.inj h).2
      omega
  · obtain ⟨n, hn, rfl⟩ := hv
    obtain ⟨n', hn', rfl⟩ := hv'
    have h : fmtMembit n addr = fmtMembit n' addr := h
    rw [fmtMembit_natCast hn, fmtMembit_natCast hn'] at h
    have hlt : ∀ k, k % 0x2000 < 16 ^ 4 := fun k => by omega
    obtain ⟨hmem, hbit⟩ := List.append_inj h (by
      rw [List.length_cons, List.length_cons, hexDigits_length (by decide) (hlt n),
        hexDigits_length (by decide) (hlt n')])
    have hmem := hexDigits_injective 4 (List.cons.inj hmem).2
    have hread := congrArg hexDigit (List.cons.inj (List.cons.inj hbit).2).1
    rw [hexDigit_digitChar (by omega), hexDigit_digitChar (by omega)] at hread
    have hbit := Option.some.inj hread
    omega
  · exact fmtHex_injective 2 (List.cons.inj h).2

-- ════════════════════════════════════════════════════════════════════════
-- Lines
-- ════════════════════════════════════════════════════════════════════════

/-- What the operands of an instruction look like. -/
def toksPattern : List Token → Pattern Char
  | [] => .done
  | .adr adr :: toks =>
    if adr = ['r'] then .more relStart else (toksPattern toks).after (adrClasses adr)
  | .reg s :: toks | .sym s :: toks => (toksPattern toks).afterText s

/-- What the lines of an opcode look like. -/
def linePattern (mnemonic : List Char) (toks : List Token) : Pattern Char :=
  ((toksPattern toks).afterText (List.replicate (6 - mnemonic.length) ' ')).afterText mnemonic

/-- A displacement is the last of the tokens. -/
def endsAtRel : List Token → Bool
  | [] => true
  | .adr adr :: toks => if adr = ['r'] then toks.isEmpty else endsAtRel toks
  | .reg _ :: toks | .sym _ :: toks => endsAtRel toks

/-- Values for the operands among the tokens. -/
def Operands (toks : List Token) (vs : List Int) : Prop :=
  List.Forall₂ (fun adr v => ∃ f, adrFmt adr = some f ∧ f.Holds v) (adrs toks) vs

section Tokens

variable {toks : List Token} {vs vs' : List Int} {addr : Option Nat}

theorem operands_adr {adr : List Char} (h : Operands (.adr adr :: toks) vs) :
    ∃ v vs', vs = v :: vs' ∧ (∃ f, adrFmt adr = some f ∧ f.Holds v) ∧ Operands toks vs' := by
  cases h with
  | cons hv hvs => exact ⟨_, _, rfl, hv, hvs⟩

theorem fmtToks_fits (h : Operands toks vs) :
    (toksPattern toks).Fits (fmtToks addr toks vs).flatten := by
  induction toks generalizing vs with
  | nil => rfl
  | cons tok toks ih =>
    cases tok with
    | adr adr =>
      obtain ⟨v, vs, rfl, ⟨f, hf, hv⟩, hvs⟩ := operands_adr h
      rw [toksPattern]
      show Pattern.Fits _ (adrText adr v addr ++ (fmtToks addr toks vs).flatten)
      by_cases hrel : adr = ['r']
      · subst hrel
        obtain ⟨c, rest, htext, hc⟩ := adrText_rel v addr
        rw [if_pos rfl, htext]
        exact ⟨c, _, rfl, hc⟩
      · rw [if_neg hrel]
        exact (ih hvs).after (adrText_classes addr hf hv hrel)
    | reg s | sym s => exact (ih h).afterText s

/-- **Operands**: the texts of the operands tell their values. -/
theorem fmtToks_injective (hrel : endsAtRel toks = true) (h : Operands toks vs)
    (h' : Operands toks vs')
    (htext : (fmtToks addr toks vs).flatten = (fmtToks addr toks vs').flatten) : vs = vs' := by
  induction toks generalizing vs vs' with
  | nil =>
    cases h
    cases h'
    rfl
  | cons tok toks ih =>
    cases tok with
    | adr adr =>
      obtain ⟨v, vs, rfl, ⟨f, hf, hv⟩, hvs⟩ := operands_adr h
      obtain ⟨v', vs', rfl, ⟨f', hf', hv'⟩, hvs'⟩ := operands_adr h'
      obtain rfl := Option.some.inj (hf.symm.trans hf')
      have htext : adrText adr v addr ++ (fmtToks addr toks vs).flatten =
          adrText adr v' addr ++ (fmtToks addr toks vs').flatten := htext
      rw [endsAtRel] at hrel
      by_cases hadr : adr = ['r']
      · rw [if_pos hadr, List.isEmpty_iff] at hrel
        subst hrel
        cases hvs
        cases hvs'
        have hsame := List.append_cancel_right htext
        rw [adrText_injective hf hv hv' hsame]
      · rw [if_neg hadr] at hrel
        have hlen := (adrText_classes addr hf hv hadr).length_eq
        have hlen' := (adrText_classes addr hf hv' hadr).length_eq
        obtain ⟨hfirst, hrest⟩ := List.append_inj htext (hlen.trans hlen'.symm)
        rw [adrText_injective hf hv hv' hfirst, ih hrel hvs hvs' hrest]
    | reg s | sym s => exact ih hrel h h' (List.append_cancel_left htext)

end Tokens

/-- A line without its address. -/
def DisInsn.body (i : DisInsn) : List Char :=
  i.mnemonic ++ (List.replicate (6 - i.mnemonic.length) ' ' ++
    (fmtToks i.nextAddr i.toks i.operands).flatten)

theorem DisInsn.line_eq (i : DisInsn) :
    i.line = (i.addr.elim [] fun addr => fmtHex 4 addr ++ [':', ' ']) ++ i.body := by
  rw [DisInsn.line, DisInsn.body]
  cases i.addr <;> simp

theorem DisInsn.body_fits (i : DisInsn) (h : Operands i.toks i.operands) :
    (linePattern i.mnemonic i.toks).Fits i.body :=
  ((fmtToks_fits h).afterText _).afterText _

-- ════════════════════════════════════════════════════════════════════════
-- The table
-- ════════════════════════════════════════════════════════════════════════

/-- The formats of the operands of an instruction: none of them has padding. -/
def structs : List Struct :=
  [[], [.uint8], [.int8], [.uint16], [.uint8, .uint8], [.uint8, .int8]]

/-- The values tell the bytes they were unpacked from. -/
theorem unpack_injective {s : Struct} (hs : s ∈ structs) {buf buf' : List Byte}
    (hlen : buf.length = s.size) (hlen' : buf'.length = s.size) (h : s.unpack buf = s.unpack buf') :
    buf = buf' := by
  have hnat : ∀ {b b' : Byte}, (b.toNat : Int) = b'.toNat → b = b' :=
    fun h => BitVec.eq_of_toNat_eq (Int.ofNat.inj h)
  simp only [structs, List.mem_cons, List.not_mem_nil, or_false] at hs
  obtain rfl | rfl | rfl | rfl | rfl | rfl := hs
  · rw [List.eq_nil_of_length_eq_zero hlen, List.eq_nil_of_length_eq_zero hlen']
  · obtain ⟨b, rfl⟩ := List.length_eq_one_iff.mp hlen
    obtain ⟨b', rfl⟩ := List.length_eq_one_iff.mp hlen'
    obtain rfl : b = b' := hnat (List.cons.inj h).1
    rfl
  · obtain ⟨b, rfl⟩ := List.length_eq_one_iff.mp hlen
    obtain ⟨b', rfl⟩ := List.length_eq_one_iff.mp hlen'
    obtain rfl : b = b' := BitVec.eq_of_toInt_eq (List.cons.inj h).1
    rfl
  · obtain ⟨b₁, b₂, rfl⟩ := List.length_eq_two.mp hlen
    obtain ⟨b₁', b₂', rfl⟩ := List.length_eq_two.mp hlen'
    have hword : wordOf b₂ b₁ = wordOf b₂' b₁' :=
      BitVec.eq_of_toNat_eq (Int.ofNat.inj (List.cons.inj h).1)
    obtain ⟨rfl, rfl⟩ := wordOf_inj.mp hword
    rfl
  · obtain ⟨b₁, b₂, rfl⟩ := List.length_eq_two.mp hlen
    obtain ⟨b₁', b₂', rfl⟩ := List.length_eq_two.mp hlen'
    obtain ⟨h₁, h⟩ := List.cons.inj h
    obtain rfl : b₁ = b₁' := hnat h₁
    obtain rfl : b₂ = b₂' := hnat (List.cons.inj h).1
    rfl
  · obtain ⟨b₁, b₂, rfl⟩ := List.length_eq_two.mp hlen
    obtain ⟨b₁', b₂', rfl⟩ := List.length_eq_two.mp hlen'
    obtain ⟨h₁, h⟩ := List.cons.inj h
    obtain rfl : b₁ = b₁' := hnat h₁
    obtain rfl : b₂ = b₂' := BitVec.eq_of_toInt_eq (List.cons.inj h).1
    rfl

/-- The tokens of a row end at a displacement, and its formats have no padding. -/
def rowPrints (d : OpDef) : Bool :=
  (disOp d).any fun op => endsAtRel op.disToks && structs.contains op.oprStruct

def rowPattern (d : OpDef) : Pattern Char := linePattern d.mnemonic d.optoks.flatten

/-- The patterns are apart from each other. -/
def allApart : List (Pattern Char) → Bool
  | [] => true
  | p :: ps => ps.all (Pattern.apart p) && allApart ps

set_option maxRecDepth 4000 in
/-- The whole table is read, and its rows are compared with each other. -/
theorem opcodeTblLines_print : ((loadOpcodeTbl opcodeTblLines).any fun opcodeTbl =>
    opcodeTbl.all rowPrints && allApart (opcodeTbl.map rowPattern)) = true := by
  decide +kernel

theorem not_fits_of_allApart {ps : List (Pattern Char)} (h : allApart ps = true) :
    ps.Pairwise fun p q => ∀ text, p.Fits text → ¬ q.Fits text := by
  induction ps with
  | nil => exact .nil
  | cons p ps ih =>
    obtain ⟨hall, hrest⟩ := Bool.and_eq_true_iff.mp h
    refine .cons (fun q hq text hp => ?_) (ih hrest)
    exact Pattern.not_fits_of_apart (List.all_eq_true.mp hall q hq) hp

/-- An entry of the table. -/
structure Entry (defs : List OpDef) (opcode : Nat) (op : DisOp) : Prop where
  row : ∃ d ∈ defs, d.opcode = opcode ∧ disOp d = some op
  ends : endsAtRel op.disToks = true
  packed : op.oprStruct ∈ structs

/-- **Table**: there is an entry for every opcode, and no text is one of two rows. -/
theorem exists_table : ∃ tab defs, spc700Dis = some tab ∧
    (∀ opcode < 256, ∃ op, tab opcode = some op ∧ Entry defs opcode op) ∧
    ∀ d ∈ defs, ∀ d' ∈ defs, ∀ text, (rowPattern d).Fits text → (rowPattern d').Fits text →
      d = d' := by
  obtain ⟨defs, hdefs, hprint⟩ := (Option.any_eq_true ..).mp opcodeTblLines_print
  obtain ⟨hrows, hapart⟩ := Bool.and_eq_true_iff.mp hprint
  obtain ⟨defs', hdefs', hagree⟩ := (Option.any_eq_true ..).mp opcodeTblLines_agree
  obtain rfl := Option.some.inj (hdefs.symm.trans hdefs')
  obtain ⟨-, hopcodes⟩ := Bool.and_eq_true_iff.mp hagree
  have hrow : ∀ d ∈ defs, rowPrints d = true := List.all_eq_true.mp hrows
  have hok : ∀ d ∈ defs, (disOp d).isSome := by
    intro d hd
    obtain ⟨op, hop, -⟩ := (Option.any_eq_true ..).mp (hrow d hd)
    exact Option.isSome_iff_exists.mpr ⟨op, hop⟩
  obtain ⟨tab, htab, hfrom⟩ := disOf_from hok fun _ => none
  have hdis : spc700Dis = some tab := by
    rw [spc700Dis, hdefs]
    exact htab
  refine ⟨tab, defs, hdis, fun opcode hlt => ?_, fun d hd d' hd' text hfits hfits' => ?_⟩
  · have hmem : opcode ∈ defs.map OpDef.opcode := by
      rw [beq_iff_eq.mp hopcodes]
      exact mem_swapDigits hlt
    obtain ⟨d, hd, hdop⟩ := List.mem_map.mp hmem
    obtain ⟨d, hd, hdop, heq⟩ | ⟨hnone, -⟩ := hfrom opcode
    · obtain ⟨op, hop, hknows⟩ := (Option.any_eq_true ..).mp (hrow d hd)
      obtain ⟨hends, hpacked⟩ := Bool.and_eq_true_iff.mp hknows
      refine ⟨op, heq.trans hop, ⟨d, hd, hdop, hop⟩, hends, ?_⟩
      simpa using hpacked
    · exact absurd hdop (hnone d hd)
  · have hpair := List.pairwise_map.mp (not_fits_of_allApart hapart)
    by_contra hne
    have hsymm : Std.Symm fun d d' : OpDef =>
        ∀ text, (rowPattern d).Fits text → ¬ (rowPattern d').Fits text :=
      ⟨fun _ _ h text hp hq => h text hq hp⟩
    exact hpair.forall hd hd' hne text hfits hfits'

/-- The values that are unpacked for an entry. -/
theorem operands_unpack {op : DisOp} (hfmts : (adrs op.disToks).mapM adrFmt = some op.oprStruct)
    (buf : List Byte) : Operands op.disToks (op.oprStruct.unpack buf) := by
  have hholds := holds_unpackFrom buf op.oprStruct 0
  rw [Operands]
  show List.Forall₂ _ _ (op.oprStruct.unpackFrom buf 0)
  generalize op.oprStruct.unpackFrom buf 0 = vs at hholds
  generalize adrs op.disToks = as, op.oprStruct = s at hfmts hholds
  induction as generalizing s vs with
  | nil =>
    obtain rfl := Option.some.inj hfmts
    cases hholds
    exact .nil
  | cons adr as ih =>
    rw [List.mapM_cons] at hfmts
    obtain ⟨f, hf, hrest⟩ := Option.bind_eq_some_iff.mp hfmts
    obtain ⟨fs, hfs, heq⟩ := Option.bind_eq_some_iff.mp hrest
    obtain rfl := Option.some.inj heq
    cases hholds with
    | cons hv hvs => exact .cons ⟨f, hf, hv⟩ (ih _ _ hfs hvs)

/-- The instruction that is printed for the operand bytes of an entry. -/
def DisOp.insn (op : DisOp) (buf : List Byte) (addr : Option Nat) : DisInsn :=
  ⟨op.mnemonic, op.disToks, op.oprStruct.unpack buf, addr, addr.map (· + 1 + op.oprStruct.size)⟩

section Entries

variable {defs : List OpDef} {opcode opcode' : Nat} {op op' : DisOp} {buf buf' : List Byte}
  {addr : Option Nat}

theorem Entry.operands (h : Entry defs opcode op) (buf : List Byte) :
    Operands op.disToks (op.oprStruct.unpack buf) := by
  obtain ⟨d, -, -, hop⟩ := h.row
  exact operands_unpack (disOp_mapM hop) buf

theorem Entry.body_fits (h : Entry defs opcode op) (buf : List Byte) (addr : Option Nat) :
    ∃ d ∈ defs, d.opcode = opcode ∧ disOp d = some op ∧
      (rowPattern d).Fits (op.insn buf addr).body := by
  obtain ⟨d, hd, hdop, hop⟩ := h.row
  refine ⟨d, hd, hdop, hop, ?_⟩
  obtain ⟨s, hs, heq⟩ := Option.bind_eq_some_iff.mp hop
  obtain rfl := Option.some.inj heq
  exact (DisOp.insn ⟨d.mnemonic, s, d.optoks.flatten⟩ buf addr).body_fits (h.operands buf)

/-- **Line**: it tells the entry and the operand bytes. -/
theorem entry_of_line (happart : ∀ d ∈ defs, ∀ d' ∈ defs, ∀ text,
      (rowPattern d).Fits text → (rowPattern d').Fits text → d = d')
    (h : Entry defs opcode op) (h' : Entry defs opcode' op')
    (hlen : buf.length = op.oprStruct.size) (hlen' : buf'.length = op'.oprStruct.size)
    (hline : (op.insn buf addr).line = (op'.insn buf' addr).line) :
    opcode = opcode' ∧ op = op' ∧ buf = buf' := by
  have hbody : (op.insn buf addr).body = (op'.insn buf' addr).body := by
    rw [DisInsn.line_eq, DisInsn.line_eq] at hline
    exact List.append_cancel_left hline
  obtain ⟨d, hd, hdop, hop, hfits⟩ := h.body_fits buf addr
  obtain ⟨d', hd', hdop', hop', hfits'⟩ := h'.body_fits buf' addr
  obtain rfl := happart d hd d' hd' _ hfits (hbody ▸ hfits')
  obtain rfl := Option.some.inj (hop.symm.trans hop')
  have htext := List.append_cancel_left (List.append_cancel_left hbody)
  have hvalues := fmtToks_injective h.ends (h.operands buf) (h.operands buf') htext
  exact ⟨hdop.symm.trans hdop', rfl, unpack_injective h.packed hlen hlen' hvalues⟩

end Entries

-- ════════════════════════════════════════════════════════════════════════
-- Listings
-- ════════════════════════════════════════════════════════════════════════

/-- The bytes of the instructions that are printed. -/
def disassembledFrom (tab : Dis) : Nat → List Byte → List Byte
  | 0, _ | _, [] => []
  | n + 1, curOp :: b =>
    match tab curOp.toNat with
    | none => []
    | some op =>
      let size := op.oprStruct.size
      if b.length < size then [] else curOp :: b.take size ++ disassembledFrom tab n (b.drop size)

def disassembled (tab : Dis) (b : List Byte) : List Byte := disassembledFrom tab b.length b

/-- The bytes are an opcode without all of its operand bytes, or none at all. -/
def CutShort (tab : Dis) (b : List Byte) : Prop :=
  ∀ curOp rest, b = curOp :: rest → ∃ op, tab curOp.toNat = some op ∧
    rest.length < op.oprStruct.size

section Step

variable {tab : Dis} {n : Nat} {curOp : Byte} {b : List Byte} {addr : Option Nat} {op : DisOp}

/-- **Step**: an instruction with all of its operand bytes. -/
theorem disInsnsFrom_cons (hop : tab curOp.toNat = some op) (hlen : op.oprStruct.size ≤ b.length) :
    disInsnsFrom tab (n + 1) (curOp :: b) addr = op.insn (b.take op.oprStruct.size) addr ::
      disInsnsFrom tab n (b.drop op.oprStruct.size) (addr.map (· + 1 + op.oprStruct.size)) := by
  rw [disInsnsFrom, hop]
  exact if_neg (Nat.not_lt.mpr hlen)

theorem disInsnsFrom_short (hop : tab curOp.toNat = some op) (hlen : b.length < op.oprStruct.size) :
    disInsnsFrom tab (n + 1) (curOp :: b) addr = [] := by
  rw [disInsnsFrom, hop]
  exact if_pos hlen

theorem disassembledFrom_cons (hop : tab curOp.toNat = some op)
    (hlen : op.oprStruct.size ≤ b.length) :
    disassembledFrom tab (n + 1) (curOp :: b) = curOp :: b.take op.oprStruct.size ++
      disassembledFrom tab n (b.drop op.oprStruct.size) := by
  rw [disassembledFrom, hop]
  exact if_neg (Nat.not_lt.mpr hlen)

theorem disassembledFrom_short (hop : tab curOp.toNat = some op)
    (hlen : b.length < op.oprStruct.size) : disassembledFrom tab (n + 1) (curOp :: b) = [] := by
  rw [disassembledFrom, hop]
  exact if_pos hlen

end Step

section Listing

variable {tab : Dis} (htab : ∀ curOp : Byte, ∃ op, tab curOp.toNat = some op)
include htab

/-- What is left out is the start of an instruction. -/
theorem disassembledFrom_rest (n : Nat) (b : List Byte) (hn : b.length ≤ n) :
    ∃ rest, b = disassembledFrom tab n b ++ rest ∧ CutShort tab rest := by
  induction n generalizing b with
  | zero =>
    obtain rfl := List.eq_nil_of_length_eq_zero (Nat.le_zero.mp hn)
    exact ⟨[], rfl, nofun⟩
  | succ n ih =>
    cases b with
    | nil => exact ⟨[], rfl, nofun⟩
    | cons curOp b =>
      obtain ⟨op, hop⟩ := htab curOp
      have hn : b.length ≤ n := Nat.le_of_succ_le_succ hn
      by_cases hlen : op.oprStruct.size ≤ b.length
      · obtain ⟨rest, hrest, hcut⟩ := ih (b.drop op.oprStruct.size) (by
          rw [List.length_drop]
          omega)
        refine ⟨rest, ?_, hcut⟩
        rw [disassembledFrom_cons hop hlen, List.cons_append, List.cons_append, List.append_assoc,
          ← hrest, List.take_append_drop]
      · have hlen := Nat.lt_of_not_le hlen
        refine ⟨curOp :: b, by rw [disassembledFrom_short hop hlen]; rfl, ?_⟩
        rintro curOp' b' heq
        obtain ⟨rfl, rfl⟩ := List.cons.inj heq
        exact ⟨op, hop, hlen⟩

/-- Only the bytes of the instructions matter for the listing. -/
theorem disInsnsFrom_disassembled (n k : Nat) (b : List Byte) (addr : Option Nat)
    (hk : (disassembledFrom tab n b).length ≤ k) :
    disInsnsFrom tab k (disassembledFrom tab n b) addr = disInsnsFrom tab n b addr := by
  induction n generalizing b addr k with
  | zero => cases k <;> rfl
  | succ n ih =>
    cases b with
    | nil => cases k <;> rfl
    | cons curOp b =>
      obtain ⟨op, hop⟩ := htab curOp
      by_cases hlen : op.oprStruct.size ≤ b.length
      · rw [disassembledFrom_cons hop hlen] at hk ⊢
        have htake : (b.take op.oprStruct.size).length = op.oprStruct.size := by
          rw [List.length_take, Nat.min_eq_left hlen]
        rw [List.cons_append] at hk ⊢
        obtain ⟨k, rfl⟩ := Nat.exists_eq_succ_of_ne_zero (Nat.ne_of_gt (Nat.lt_of_lt_of_le
          (Nat.succ_pos _) hk))
        have hk := Nat.le_of_succ_le_succ hk
        rw [List.length_append, htake] at hk
        rw [disInsnsFrom_cons hop hlen, disInsnsFrom_cons hop (by
          rw [List.length_append, htake]
          exact Nat.le_add_right ..), List.take_left' htake, List.drop_left' htake,
          ih k _ _ (by omega)]
      · have hlen := Nat.lt_of_not_le hlen
        rw [disassembledFrom_short hop hlen, disInsnsFrom_short hop hlen]
        cases k <;> rfl

end Listing

section Tells

variable {tab : Dis} {defs : List OpDef}
  (htab : ∀ opcode < 256, ∃ op, tab opcode = some op ∧ Entry defs opcode op)
include htab

/-- The disassembler is at its end, or there is another instruction. -/
theorem disInsnsFrom_cases (n : Nat) (b : List Byte) (addr : Option Nat) :
    (disInsnsFrom tab n b addr = [] ∧ disassembledFrom tab n b = []) ∨
      ∃ k curOp buf rest op, n = k + 1 ∧ Entry defs curOp.toNat op ∧
        buf.length = op.oprStruct.size ∧
        disInsnsFrom tab n b addr = op.insn buf addr ::
          disInsnsFrom tab k rest (addr.map (· + 1 + op.oprStruct.size)) ∧
        disassembledFrom tab n b = curOp :: buf ++ disassembledFrom tab k rest := by
  cases n with
  | zero => exact .inl ⟨rfl, rfl⟩
  | succ k =>
    cases b with
    | nil => exact .inl ⟨rfl, rfl⟩
    | cons curOp b =>
      obtain ⟨op, hop, hentry⟩ := htab curOp.toNat curOp.isLt
      by_cases hlen : op.oprStruct.size ≤ b.length
      · exact .inr ⟨k, curOp, _, _, op, rfl, hentry, List.length_take_of_le hlen,
          disInsnsFrom_cons hop hlen, disassembledFrom_cons hop hlen⟩
      · have hlen := Nat.lt_of_not_le hlen
        exact .inl ⟨disInsnsFrom_short hop hlen, disassembledFrom_short hop hlen⟩

/-- **Run**: a listing tells its instructions one after the other. -/
theorem disassembledFrom_of_lines (happart : ∀ d ∈ defs, ∀ d' ∈ defs, ∀ text,
      (rowPattern d).Fits text → (rowPattern d').Fits text → d = d')
    (n n' : Nat) (b b' : List Byte) (addr : Option Nat)
    (h : (disInsnsFrom tab n b addr).map DisInsn.line =
      (disInsnsFrom tab n' b' addr).map DisInsn.line) :
    disassembledFrom tab n b = disassembledFrom tab n' b' := by
  induction n generalizing n' b b' addr with
  | zero =>
    obtain ⟨-, hnil⟩ | ⟨k', curOp', buf', rest', op', -, -, -, hinsns', -⟩ :=
      disInsnsFrom_cases htab n' b' addr
    · exact hnil.symm
    · rw [hinsns'] at h
      cases h
  | succ n ih =>
    obtain ⟨hinsns, hnil⟩ | ⟨k, curOp, buf, rest, op, hk, hentry, hlen, hinsns, hbytes⟩ :=
      disInsnsFrom_cases htab (n + 1) b addr <;>
    obtain ⟨hinsns', hnil'⟩ | ⟨k', curOp', buf', rest', op', -, hentry', hlen', hinsns', hbytes'⟩ :=
      disInsnsFrom_cases htab n' b' addr <;>
    rw [hinsns, hinsns'] at h
    · rw [hnil, hnil']
    · cases h
    · cases h
    · obtain rfl := Nat.succ.inj hk
      obtain ⟨hline, hlines⟩ := List.cons.inj h
      obtain ⟨hopcode, rfl, rfl⟩ := entry_of_line happart hentry hentry' hlen hlen' hline
      obtain rfl := BitVec.eq_of_toNat_eq hopcode
      rw [hbytes, hbytes', ih k' rest rest' _ hlines]

end Tells

/-- **A listing is lossless.** Whatever the bytes and the address are, the lines
    that are printed tell every byte up to an instruction that is cut short at the
    end: they are the same for other bytes only if those are the same up to there. -/
theorem listing_lossless :
    ∃ tab, spc700Dis = some tab ∧
      (∀ b, ∃ rest, b = disassembled tab b ++ rest ∧ CutShort tab rest) ∧
      ∀ b b' addr, dis tab b addr = dis tab b' addr ↔ disassembled tab b = disassembled tab b' := by
  obtain ⟨tab, defs, hdis, htab, happart⟩ := exists_table
  have hop : ∀ curOp : Byte, ∃ op, tab curOp.toNat = some op := fun curOp =>
    (htab curOp.toNat curOp.isLt).imp fun _ h => h.1
  refine ⟨tab, hdis, fun b => disassembledFrom_rest hop _ b le_rfl, fun b b' addr => ?_⟩
  constructor
  · exact disassembledFrom_of_lines htab happart _ _ b b' addr
  · intro h
    have hself : ∀ b, dis tab (disassembled tab b) addr = dis tab b addr := fun b =>
      congrArg (List.map DisInsn.line) (disInsnsFrom_disassembled hop _ _ b addr le_rfl)
    rw [← hself b, ← hself b', h]

end SpuKit.Disasm
