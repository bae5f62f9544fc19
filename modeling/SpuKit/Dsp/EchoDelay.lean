import SpuKit.Dsp.EchoRegion
import SpuKit.Lib.Ring

/-!
# The echo buffer is a delay line

The slots of the echo buffer, read from the echo offset onwards, form a queue:
a sample reads the pair at its head and appends the pair it writes. While ESA,
EDL and FLG stand still and only the DSP writes the buffer, every pair comes
back after exactly as many samples as the buffer has slots.

## Main definitions

- `slots`, `slotPair` — the number of slots, and the pair in each of them
- `Undisturbed` — runs in which only the DSP touches the echo unit
- `leftReads`, `rightReads`, `leftWrites`, `rightWrites` — the pairs of a run

## Main results

- `echoIo_isDelay` — the samples of a run drive the queue
- `echo_delay_line` — the exact delay
-/

namespace SpuKit

/-- The number of slots of the echo buffer: 512 for each step of EDL, and one
    when EDL is 0. -/
def slots (regs : Regs) : Nat := max 1 (512 * (regs regEdl &&& 0xf).toNat)

/-- The address of a slot. -/
def slotAddr (base : Word) (j : Nat) : Word := base + BitVec.ofNat 16 (4 * j)

/-- The stereo pair in a slot. -/
def slotPair (m : Mem) (base : Word) (j : Nat) : Word × Word :=
  (m.word (slotAddr base j + 0), m.word (slotAddr base j + 2))

section Slots

variable (m : Mem) (base : Word)

theorem slots_bounds (regs : Regs) : 0 < slots regs ∧ slots regs ≤ 0x1e00 ∧
    4 * slots regs = max 4 (echoBytes regs) := by
  have hmask : (regs regEdl &&& 0xf).toNat ≤ 15 := by
    rw [BitVec.toNat_and]
    exact Nat.and_le_right
  rw [slots, echoBytes]
  omega

theorem slotAddr_ne {j k : Nat} (hj : j < 0x1e00) (hk : k < 0x1e00) (h : j ≠ k)
    (a b : Fin 4) :
    slotAddr base j + BitVec.ofNat 16 a ≠ slotAddr base k + BitVec.ofNat 16 b := by
  unfold slotAddr
  have ha := a.isLt
  have hb := b.isLt
  intro heq
  rw [BitVec.add_assoc, BitVec.add_assoc] at heq
  have heq := congrArg BitVec.toNat ((BitVec.add_right_inj base).mp heq)
  simp only [BitVec.toNat_add, BitVec.toNat_ofNat] at heq
  omega

theorem slotPair_ext {m' : Mem} {j : Nat}
    (h : ∀ a : Fin 4, m'.aram (slotAddr base j + BitVec.ofNat 16 a) =
      m.aram (slotAddr base j + BitVec.ofNat 16 a)) :
    slotPair m' base j = slotPair m base j := by
  have h1 : slotAddr base j + 0 + 1 = slotAddr base j + BitVec.ofNat 16 1 := by
    rw [BitVec.add_assoc]
    rfl
  have h3 : slotAddr base j + 2 + 1 = slotAddr base j + BitVec.ofNat 16 3 := by
    rw [BitVec.add_assoc]
    rfl
  simp only [slotPair, Mem.word, h1, h3]
  exact congrArg₂ Prod.mk (congrArg₂ wordOf (h 1) (h 0)) (congrArg₂ wordOf (h 3) (h 2))

/-- Storing a pair in a slot changes that slot. -/
theorem slotPair_writePair (s : Sample) {pos : Nat} (hpos : pos < 0x1e00) {j : Nat}
    (hj : j < 0x1e00) :
    slotPair (writePair m (slotAddr base pos) s) base j =
      Function.update (slotPair m base) pos (s.left, s.right) j := by
  by_cases h : j = pos
  · subst h
    rw [Function.update_self, slotPair, (writePair_word ..).1, (writePair_word ..).2]
  · rw [Function.update_of_ne h]
    exact slotPair_ext m base fun a =>
      writePair_aram_of_ne _ _ _ fun b => slotAddr_ne base hj hpos h a b

/-- The bytes of the slots are those of the echo buffer. -/
theorem inEchoRegion_slotAddr {regs : Regs} {j : Nat} (hj : j < slots regs) (a : Fin 4) :
    InEchoRegion regs (slotAddr (echoBase regs) j + BitVec.ofNat 16 a) := by
  obtain ⟨-, hle, hfour⟩ := slots_bounds regs
  have ha := a.isLt
  have hsub : slotAddr (echoBase regs) j + BitVec.ofNat 16 a - echoBase regs =
      BitVec.ofNat 16 (4 * j) + BitVec.ofNat 16 a := by
    rw [slotAddr, BitVec.add_assoc, BitVec.add_comm (echoBase regs), BitVec.add_sub_cancel]
  rw [InEchoRegion, hsub, ← hfour, BitVec.toNat_add, BitVec.toNat_ofNat, BitVec.toNat_ofNat]
  omega

/-- Memories that agree on the echo buffer hold the same pairs. -/
theorem slotPair_congr {regs : Regs} {m' : Mem}
    (h : ∀ addr, InEchoRegion regs addr → m'.aram addr = m.aram addr) {j : Nat}
    (hj : j < slots regs) :
    slotPair m' (echoBase regs) j = slotPair m (echoBase regs) j :=
  slotPair_ext m _ fun a => h _ (inEchoRegion_slotAddr hj a)

end Slots

/-- A step that leaves ESA, EDL and FLG and the echo buffer as they are. -/
def LeavesEcho (w w' : World) : Prop :=
  w'.dsp.regs regEsa = w.dsp.regs regEsa ∧ w'.dsp.regs regEdl = w.dsp.regs regEdl ∧
    w'.dsp.regs regFlg = w.dsp.regs regFlg ∧
    ∀ addr, InEchoRegion w.dsp.regs addr → w'.mem.aram addr = w.mem.aram addr

/-- Between the samples of the run nothing touches ESA, EDL, FLG or the echo
    buffer. -/
def Undisturbed (ops : List Op) (w : World) : Prop :=
  StepSystem.Along World.step (fun op w => op.isSample = false → LeavesEcho w (w.step op).val) ops w

/-- The words `echo_read_l` returned. -/
def leftReads (es : List Event) : List Word :=
  es.flatMap fun
    | .echoReadL val => [val]
    | _ => []

/-- The words `echo_read_r` returned. -/
def rightReads (es : List Event) : List Word :=
  es.flatMap fun
    | .echoReadR val => [val]
    | _ => []

/-- The samples `echo_write_l` stored. -/
def leftWrites (es : List Event) : List Word :=
  es.flatMap fun
    | .echoWriteL val => [val]
    | _ => []

/-- The samples `echo_write_r` stored. -/
def rightWrites (es : List Event) : List Word :=
  es.flatMap fun
    | .echoWriteR val => [val]
    | _ => []

/-- The pair every sample of a run reads from its slot, and the pair it writes
    back. -/
def echoIo : List Op → World → List ((Word × Word) × (Word × Word))
  | [], _ => []
  | op :: ops, w =>
    (if op.isSample then
      [((w.mem.word (echoPointer w.dsp + 0), w.mem.word (echoPointer w.dsp + 2)),
        ((writtenPair w.mem w.dsp).left, (writtenPair w.mem w.dsp).right))]
    else []) ++ echoIo ops (w.step op).val

/-- What holds between the samples of an undisturbed run: the latches are those
    of the registers, the offset is at a slot, and FLG lets the echo write. -/
structure EchoRunning (regs : Regs) (d : Dsp) : Prop where
  esa_reg : d.regs regEsa = regs regEsa
  edl_reg : d.regs regEdl = regs regEdl
  flg_reg : d.regs regFlg = regs regFlg
  esa : d.esa = regs regEsa
  length : d.echoLength.toNat = echoBytes regs
  aligned : d.echoOffset.toNat % 4 = 0
  inside : d.echoOffset = 0 ∨ d.echoOffset.toNat < echoBytes regs

section Run

variable {regs : Regs}

/-- The slot the echo offset is at. -/
def slotPos (d : Dsp) : Nat := d.echoOffset.toNat / 4

theorem EchoRunning.offset_cases {d : Dsp} (h : EchoRunning regs d) :
    d.echoOffset.toNat = 0 ∨ d.echoOffset.toNat < echoBytes regs :=
  h.inside.imp_left fun h0 => by rw [h0]; rfl

theorem EchoRunning.slotPos_lt {d : Dsp} (h : EchoRunning regs d) : slotPos d < slots regs := by
  obtain ⟨hpos, -, hfour⟩ := slots_bounds regs
  have hcases := h.offset_cases
  have haligned := h.aligned
  rw [slotPos]
  omega

theorem EchoRunning.pointer {d : Dsp} (h : EchoRunning regs d) :
    echoPointer d = slotAddr (echoBase regs) (slotPos d) := by
  have haligned := h.aligned
  have hoff : BitVec.ofNat 16 (4 * slotPos d) = d.echoOffset := by
    have hfour : 4 * slotPos d = d.echoOffset.toNat := by
      rw [slotPos]
      omega
    rw [hfour, BitVec.ofNat_toNat, BitVec.setWidth_eq]
  rw [echoPointer, slotAddr, hoff, h.esa, echoBase]

theorem EchoRunning.sample (m : Mem) {d : Dsp} (h : EchoRunning regs d) :
    EchoRunning regs (nextSample m d).val.2.2 ∧
      slotPos (nextSample m d).val.2.2 = (slotPos d + 1) % slots regs := by
  have hbytes := echoBytes_bounds regs
  obtain ⟨hpos, -, hfour⟩ := slots_bounds regs
  have hlen : (latchedLength d.regs d.echoOffset d.echoLength).toNat = echoBytes regs := by
    rw [latchedLength_toNat, echoBytes_congr h.edl_reg]
    split
    · rfl
    · exact h.length
  have hcases := h.offset_cases
  have haligned := h.aligned
  have hle := offset_le_of_inside h.inside
  have hoff := nextOffset_toNat (latchedLength d.regs d.echoOffset d.echoLength) hle
  rw [hlen] at hoff
  refine ⟨⟨?_, ?_, ?_, ?_, ?_, ?_, ?_⟩, ?_⟩
  · rw [nextSample_regs m d control_esa, h.esa_reg]
  · rw [nextSample_regs m d control_edl, h.edl_reg]
  · rw [nextSample_regs m d control_flg, h.flg_reg]
  · rw [nextSample_esa, h.esa_reg]
  · rw [nextSample_echoLength, hlen]
  · rw [nextSample_echoOffset]
    exact nextOffset_aligned _ hle h.aligned
  · rw [nextSample_echoOffset, ← hlen]
    exact nextOffset_inside _ hle
  · unfold slotPos
    rw [nextSample_echoOffset, hoff]
    split
    · rw [Nat.mod_eq_of_lt] <;> omega
    · have hlast : d.echoOffset.toNat / 4 + 1 = slots regs := by omega
      rw [hlast, Nat.mod_self]

/-- Undisturbed steps between the samples keep the latches and the slots. -/
theorem EchoRunning.step {op : Op} (hsample : op.isSample = false) {w : World}
    (h : EchoRunning regs w.dsp) (hleaves : LeavesEcho w (w.step op).val) :
    EchoRunning regs (w.step op).val.dsp ∧
      slotPos (w.step op).val.dsp = slotPos w.dsp ∧
      ∀ j, j < slots regs → slotPair (w.step op).val.mem (echoBase regs) j =
        slotPair w.mem (echoBase regs) j := by
  obtain ⟨hesa, hedl, hflg, hmem⟩ := hleaves
  have hne : op ≠ .sample := by
    rintro rfl
    simp [Op.isSample] at hsample
  obtain ⟨-, hdsp⟩ := World.step_of_ne_sample w hne
  refine ⟨⟨hesa.trans h.esa_reg, hedl.trans h.edl_reg, hflg.trans h.flg_reg, ?_, ?_, ?_, ?_⟩,
    ?_, ?_⟩
  · rw [hdsp]
    exact h.esa
  · rw [hdsp]
    exact h.length
  · rw [hdsp]
    exact h.aligned
  · rw [hdsp]
    exact h.inside
  · rw [slotPos, hdsp]
    rfl
  · intro j hj
    have hregion : ∀ addr, InEchoRegion regs addr → (w.step op).val.mem.aram addr =
        w.mem.aram addr := by
      intro addr haddr
      apply hmem
      rwa [InEchoRegion, echoBase, h.esa_reg, echoBytes_congr h.edl_reg]
    exact slotPair_congr _ hregion hj

/-- **The samples of a run drive the queue** of the slots from the echo offset
    onwards: each reads its head and appends the pair it writes. -/
theorem echoIo_isDelay (hwrites : EchoWrites regs) {ops : List Op} {w : World}
    (h : EchoRunning regs w.dsp) (hrun : Undisturbed ops w) :
    Ring.IsDelay (Ring.contents (slots regs) (slotPair w.mem (echoBase regs)) (slotPos w.dsp))
      (echoIo ops w) := by
  induction ops generalizing w with
  | nil => trivial
  | cons op ops ih =>
    obtain ⟨hop, hrest⟩ := hrun
    have hlt := h.slotPos_lt
    obtain ⟨-, hle, -⟩ := slots_bounds regs
    rw [echoIo]
    cases hsample : op.isSample with
    | false =>
      obtain ⟨h', hpos, hslots⟩ := h.step hsample (hop hsample)
      rw [if_neg Bool.false_ne_true, List.nil_append,
        ← Ring.contents_congr _ hslots, ← hpos]
      exact ih h' hrest
    | true =>
      obtain rfl : op = .sample := by cases op <;> simp_all [Op.isSample]
      obtain ⟨h', hpos⟩ := h.sample w.mem
      have hflg : EchoWrites w.dsp.regs := by
        rw [EchoWrites, h.flg_reg]
        exact hwrites
      rw [if_pos rfl, h.pointer]
      refine ⟨Ring.head?_contents _ hlt, ?_⟩
      rw [← Ring.contents_push _ hlt, ← hpos]
      have hslots : ∀ j, j < slots regs →
          Function.update (slotPair w.mem (echoBase regs)) (slotPos w.dsp)
            ((writtenPair w.mem w.dsp).left, (writtenPair w.mem w.dsp).right) j =
          slotPair (w.step .sample).val.mem (echoBase regs) j := by
        intro j hj
        rw [World.step_sample_mem, nextSample_mem, if_pos hflg, h.pointer,
          slotPair_writePair _ _ _ (by omega) (by omega)]
      rw [Ring.contents_congr _ hslots, ← World.step_sample_dsp]
      refine ih ?_ hrest
      rw [World.step_sample_dsp]
      exact h'

end Run

section Pairs

variable {β : Type} (g : Event → List β) (hvoice : ∀ i e, g (.voice i e) = [])
  (haram : ∀ index, g (.aram index) = [])

include hvoice haram

/-- A projection on the echo unit sees the pair a sample reads and the pair it
    writes. -/
theorem nextSample_flatMap (m : Mem) (d : Dsp) :
    (nextSample m d).events.flatMap g =
      g (.echoReadL (m.word (echoPointer d + 0))) ++
      g (.echoReadR (m.word (echoPointer d + 2))) ++
      if EchoWrites d.regs then
        g (.echoWriteL (writtenPair m d).left) ++ g (.echoWriteR (writtenPair m d).right)
      else [] := by
  have hvoices : (runVoices m (List.finRange 8) silence silence (ticked d)).events.flatMap g =
      [] := by
    rw [List.flatMap_eq_nil_iff]
    intro e he
    obtain ⟨i, ve, rfl⟩ := runVoices_events m _ _ _ he
    exact hvoice i ve
  rw [nextSample_echo_events, List.flatMap_append, hvoices]
  split_ifs <;> simp [haram]

/-- A projection on the echo unit sees the pairs of a run, in order. -/
theorem runOps_flatMap {regs : Regs} (hwrites : EchoWrites regs) {ops : List Op} {w : World}
    (h : EchoRunning regs w.dsp) (hrun : Undisturbed ops w) :
    (runOps ops w).events.flatMap g =
      (echoIo ops w).flatMap fun io =>
        g (.echoReadL io.1.1) ++ g (.echoReadR io.1.2) ++
          (g (.echoWriteL io.2.1) ++ g (.echoWriteR io.2.2)) := by
  induction ops generalizing w with
  | nil => rfl
  | cons op ops ih =>
    obtain ⟨hop, hrest⟩ := hrun
    rw [runOps_cons_events, List.flatMap_append, echoIo, List.flatMap_append]
    cases hsample : op.isSample with
    | false =>
      have hne : op ≠ .sample := by
        rintro rfl
        simp [Op.isSample] at hsample
      rw [(World.step_of_ne_sample w hne).1, ih (h.step hsample (hop hsample)).1 hrest]
      simp
    | true =>
      obtain rfl : op = .sample := by cases op <;> simp_all [Op.isSample]
      have hflg : EchoWrites w.dsp.regs := by
        rw [EchoWrites, h.flg_reg]
        exact hwrites
      have h' : EchoRunning regs (w.step .sample).val.dsp := by
        rw [World.step_sample_dsp]
        exact (h.sample w.mem).1
      rw [ih h' hrest, World.step_sample_events, nextSample_flatMap g hvoice haram, if_pos hflg]
      simp

end Pairs

theorem echoIo_length (ops : List Op) (w : World) :
    (echoIo ops w).length = ops.countP Op.isSample := by
  induction ops generalizing w with
  | nil => rfl
  | cons op ops ih =>
    rw [echoIo, List.length_append, ih, List.countP_cons]
    split
    · simp only [List.length_singleton]
      omega
    · simp

/-- A reachable DSP whose latches agree with ESA and EDL is at a slot. -/
theorem Reachable.echoRunning {w : World} (h : Reachable w) (hesa : w.dsp.esa = w.dsp.regs regEsa)
    (hlength : w.dsp.echoLength.toNat = echoBytes w.dsp.regs) :
    EchoRunning w.dsp.regs w.dsp where
  esa_reg := rfl
  edl_reg := rfl
  flg_reg := rfl
  esa := hesa
  length := hlength
  aligned := h.echoCursor.aligned
  inside := by
    rw [← hlength]
    exact h.echoCursor.inside

/-- **The echo buffer is an exact delay line.** In a run from a reachable state
    in which ESA and EDL are latched, ESA, EDL and FLG stand still, the echo may
    write and only the DSP touches the echo buffer, the pair sample `t` writes
    is the pair that sample `t + slots` reads. -/
theorem echo_delay_line {w : World} (h : Reachable w) (hesa : w.dsp.esa = w.dsp.regs regEsa)
    (hlength : w.dsp.echoLength.toNat = echoBytes w.dsp.regs)
    (hwrites : EchoWrites w.dsp.regs) {ops : List Op} (hrun : Undisturbed ops w) {t : Nat}
    (ht : t + slots w.dsp.regs < ops.countP Op.isSample) :
    ∃ l r, (leftWrites (runOps ops w).events)[t]? = some l ∧
      (rightWrites (runOps ops w).events)[t]? = some r ∧
      (leftReads (runOps ops w).events)[t + slots w.dsp.regs]? = some l ∧
      (rightReads (runOps ops w).events)[t + slots w.dsp.regs]? = some r := by
  have hrunning := h.echoRunning hesa hlength
  have hlw : leftWrites (runOps ops w).events = (echoIo ops w).map fun io => io.2.1 := by
    rw [leftWrites, runOps_flatMap _ (fun _ _ => rfl) (fun _ => rfl) hwrites hrunning hrun,
      List.map_eq_flatMap]
    rfl
  have hrw : rightWrites (runOps ops w).events = (echoIo ops w).map fun io => io.2.2 := by
    rw [rightWrites, runOps_flatMap _ (fun _ _ => rfl) (fun _ => rfl) hwrites hrunning hrun,
      List.map_eq_flatMap]
    rfl
  have hlr : leftReads (runOps ops w).events = (echoIo ops w).map fun io => io.1.1 := by
    rw [leftReads, runOps_flatMap _ (fun _ _ => rfl) (fun _ => rfl) hwrites hrunning hrun,
      List.map_eq_flatMap]
    rfl
  have hrr : rightReads (runOps ops w).events = (echoIo ops w).map fun io => io.1.2 := by
    rw [rightReads, runOps_flatMap _ (fun _ _ => rfl) (fun _ => rfl) hwrites hrunning hrun,
      List.map_eq_flatMap]
    rfl
  have hdelay := (echoIo_isDelay hwrites hrunning hrun).read_eq_write (t := t)
    (by rwa [Ring.length_contents, echoIo_length])
  simp only [Ring.length_contents] at hdelay
  rw [← echoIo_length ops w] at ht
  refine ⟨(echoIo ops w)[t].2.1, (echoIo ops w)[t].2.2, ?_, ?_, ?_, ?_⟩
  · rw [hlw, List.getElem?_map, List.getElem?_eq_getElem (by omega), Option.map_some]
  · rw [hrw, List.getElem?_map, List.getElem?_eq_getElem (by omega), Option.map_some]
  · rw [hlr, List.getElem?_map, List.getElem?_eq_getElem ht, Option.map_some, hdelay]
  · rw [hrr, List.getElem?_map, List.getElem?_eq_getElem ht, Option.map_some, hdelay]

/-- Samples alone disturb nothing. -/
theorem undisturbed_samples (n : Nat) (w : World) : Undisturbed (List.replicate n .sample) w := by
  induction n generalizing w with
  | zero => trivial
  | succ n ih => exact ⟨fun h => absurd h (by decide), ih _⟩

/-- A snapshot whose echo buffer has 512 slots from 0x1000 on, and whose echo is
    filtered and fed back. -/
def echoFedBack : Regs := fun r =>
  if r.val % 16 = 0x0f then 0x10
  else if r = regEsa then 0x10
  else if r = regEdl then 1
  else if r = regEfb then 0x40
  else 0

/-- What the first sample behind the latching one writes is not silence. -/
theorem exists_echoFedBack :
    ∃ w, Reachable w ∧ w.dsp.esa = w.dsp.regs regEsa ∧
      w.dsp.echoLength.toNat = echoBytes w.dsp.regs ∧ EchoWrites w.dsp.regs ∧
      slots w.dsp.regs = 512 ∧ ∃ l, leftWrites (w.step .sample).events = [l] ∧ l ≠ 0 := by
  refine ⟨_, ⟨⟨fun _ => 0x20, fun _ => 0⟩, [.restore echoFedBack, .sample], rfl⟩, ?_⟩
  refine ⟨by decide +kernel, by decide +kernel, by decide +kernel, by decide +kernel, 1028, ?_⟩
  decide +kernel

theorem echo_delay_line_fedBack :
    ∃ (w : World) (ops : List Op) (l r : Word), slots w.dsp.regs = 512 ∧ l ≠ 0 ∧
      (leftWrites (runOps ops w).events)[0]? = some l ∧
      (rightWrites (runOps ops w).events)[0]? = some r ∧
      (leftReads (runOps ops w).events)[512]? = some l ∧
      (rightReads (runOps ops w).events)[512]? = some r := by
  obtain ⟨w, hreach, hesa, hlength, hwrites, hslots, v, hfirst, hne⟩ := exists_echoFedBack
  have hlate : 0 + slots w.dsp.regs < (List.replicate 513 Op.sample).countP Op.isSample := by
    rw [hslots, List.countP_replicate]
    decide
  obtain ⟨l, r, hl, hr, hl', hr'⟩ :=
    echo_delay_line hreach hesa hlength hwrites (undisturbed_samples 513 w) hlate
  rw [hslots, Nat.zero_add] at hl' hr'
  obtain rfl : v = l := by
    rw [List.replicate_succ, runOps_cons_events, leftWrites, List.flatMap_append] at hl
    rw [leftWrites] at hfirst
    rw [hfirst] at hl
    exact Option.some.inj hl
  exact ⟨w, _, v, r, hslots, hne, hl, hr, hl', hr'⟩

end SpuKit
