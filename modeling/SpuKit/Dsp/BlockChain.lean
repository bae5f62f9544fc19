import SpuKit.Dsp.Cursor

/-!
# Which blocks a voice decodes

A source is a chain of BRR blocks: a block without the END flag is followed by
the block behind it, one with the flag by the loop block of the directory
entry. A voice follows this chain, with two exceptions. The block that ends on
the last call of the attack countdown is followed by the base block even when
it carries END, because the directory word latched on that call is still the
base word. And the data bytes of a block in the last bytes of audio RAM are
fetched from behind the array.

## Main definitions

- `chain` — the blocks of a source
- `SourceFixed` — directory entry and block headers are those of the start
- `FollowsChain` — the call meets neither of the exceptions
- `Chained` — what was decoded so far is a prefix of the chain

## Main results

- `Chained.call` — a call goes on along the chain
- `block_chain` — the blocks and the data bytes of a whole run
-/

namespace SpuKit

/-- The blocks of the source whose directory entry is at `entry`: from the base
    block on, a block without END is followed by the block behind it, and one
    with END by the loop block. -/
def chain (m : Mem) (entry : Word) : Nat → Word
  | 0 => m.word entry
  | n + 1 =>
    if m.aram (chain m entry n) &&& brrEnd ≠ 0 then m.word (entry + 2)
    else chain m entry n + 9

/-- The groups of the chain: every block has four, at its odd bytes. -/
def chainGroup (m : Mem) (entry : Word) (j : Nat) : Word × Byte :=
  (chain m entry (j / 4), BitVec.ofNat 8 (1 + 2 * (j % 4)))

/-- The data bytes of the chain: bytes 1 to 8 of every block, in order. -/
def chainByte (m : Mem) (entry : Word) (k : Nat) : Nat :=
  (chain m entry (k / 8) + BitVec.ofNat 16 (1 + k % 8)).toNat

/-- The directory entry of a voice. -/
def dirEntry (i : Channel) (d : Dsp) : Word := voiceSrcnPointer d.regs (voice d.regs i)

/-- Seen from voice `i`, the source is that of `w`: DIR and SRCN name the same
    directory entry, and the entry and the headers of the blocks are the same. -/
structure SourceFixed (i : Channel) (w w' : World) : Prop where
  entry : dirEntry i w'.dsp = dirEntry i w.dsp
  base : w'.mem.word (dirEntry i w.dsp) = w.mem.word (dirEntry i w.dsp)
  loop : w'.mem.word (dirEntry i w.dsp + 2) = w.mem.word (dirEntry i w.dsp + 2)
  header : ∀ n, w'.mem.aram (chain w.mem (dirEntry i w.dsp) n) =
    w.mem.aram (chain w.mem (dirEntry i w.dsp) n)

/-- The next call of voice `i` goes on along the chain: if it is the last one
    of the attack countdown, the first block carries no END flag or loops to
    itself, and the data bytes it fetches lie in audio RAM. -/
def FollowsChain (i : Channel) (w : World) : Prop :=
  ((w.dsp.vstate i).attackDelay = 1 →
    w.mem.aram (w.dsp.vstate i).brrAddr &&& brrEnd = 0 ∨
      w.mem.word (dirEntry i w.dsp + 2) = w.mem.word (dirEntry i w.dsp)) ∧
  (DecodesGroup w.mem i w.dsp →
    (w.dsp.vstate i).brrAddr.toNat + (w.dsp.vstate i).brrOff.toNat + 1 < 0x10000)

instance (i : Channel) (w : World) : Decidable (FollowsChain i w) :=
  inferInstanceAs (Decidable ((_ → _ ∨ _) ∧ (_ → _)))

/-- The voice decoded a prefix of the chain and is at its next group. -/
structure Chained (m : Mem) (entry : Word) (es : List VoiceEvent) (st : VState) : Prop where
  groups : decodes es = (List.range (decodes es).length).map (chainGroup m entry)
  bytes : dataBytes es = (List.range (2 * (decodes es).length)).map (chainByte m entry)
  next : st.attackDelay.toNat ≠ 5 → (st.brrAddr, st.brrOff) =
    chainGroup m entry (decodes es).length

theorem Chained.start {m : Mem} {entry : Word} {st : VState} (h : st.attackDelay = 5) :
    Chained m entry [] st :=
  ⟨rfl, rfl, fun hne => absurd (by rw [h]; rfl) hne⟩

theorem chainByte_group {m : Mem} {entry : Word} {j : Nat} {addr : Word} {off : Byte}
    (h : (addr, off) = chainGroup m entry j) (hbound : addr.toNat + off.toNat + 1 < 0x10000) :
    chainByte m entry (2 * j) = addr.toNat + off.toNat ∧
      chainByte m entry (2 * j + 1) = addr.toNat + (off + 1).toNat := by
  obtain ⟨rfl, rfl⟩ := Prod.mk.inj h
  have hoff : (BitVec.ofNat 8 (1 + 2 * (j % 4))).toNat = 1 + 2 * (j % 4) := by
    rw [BitVec.toNat_ofNat]
    omega
  have hoff' : (BitVec.ofNat 8 (1 + 2 * (j % 4)) + 1).toNat = 2 + 2 * (j % 4) := by
    rw [BitVec.toNat_add, hoff]
    simp
    omega
  rw [hoff] at hbound
  have hdiv : 2 * j / 8 = j / 4 := by omega
  have hdiv' : (2 * j + 1) / 8 = j / 4 := by omega
  have hmod : 2 * j % 8 = 2 * (j % 4) := by omega
  have hmod' : (2 * j + 1) % 8 = 2 * (j % 4) + 1 := by omega
  rw [chainByte, chainByte, hdiv, hdiv', hmod, hmod', hoff, hoff', BitVec.toNat_add,
    BitVec.toNat_add, BitVec.toNat_ofNat, BitVec.toNat_ofNat]
  omega

section Call

variable {i : Channel} {w w' : World} {es : List VoiceEvent}

theorem chainGroup_succ {m : Mem} {entry : Word} {j : Nat} {st : VState}
    (h : (st.brrAddr, st.brrOff) = chainGroup m entry j)
    (hblock : j % 4 = 3 → (if st.brrHdr &&& brrEnd ≠ 0 then st.nextBrrAddr else st.brrAddr + 9) =
      chain m entry (j / 4 + 1)) :
    (nextBlock st, nextOff st.brrOff) = chainGroup m entry (j + 1) := by
  obtain ⟨haddr, hoff⟩ := Prod.mk.inj h
  rw [nextBlock, nextOff, chainGroup]
  by_cases hj : j % 4 = 3
  · have hsucc : (j + 1) % 4 = 0 := by omega
    have hdiv : (j + 1) / 4 = j / 4 + 1 := by omega
    have hnext := hblock hj
    rw [hj] at hoff
    rw [hsucc, hdiv, hoff, ← hnext]
    rfl
  · have hinside : ∀ r : Fin 3, ¬ (BitVec.ofNat 8 (1 + 2 * r.val) + 1 + 1).toNat ≥
          brrBlockSize.toNat ∧
        BitVec.ofNat 8 (1 + 2 * r.val) + 1 + 1 = BitVec.ofNat 8 (1 + 2 * (r.val + 1)) := by
      decide
    obtain ⟨hlt, hadd⟩ := hinside ⟨j % 4, by omega⟩
    have hsucc : (j + 1) % 4 = j % 4 + 1 := by omega
    have hdiv : (j + 1) / 4 = j / 4 := by omega
    rw [hoff, if_neg hlt, if_neg hlt, hadd, hsucc, hdiv, haddr]

/-- The loop word is latched once the countdown is over. -/
theorem latchPtr_ticked (d : Dsp) :
    latchPtr (ticked d).regs i (d.vstate i) =
      if (d.vstate i).attackDelay = 0 then dirEntry i d + 2 else dirEntry i d := by
  rw [latchPtr, dirEntry, ticked_regs]

theorem attackDelay_eq_five_iff {st : VState} : st.attackDelay = 5 ↔ st.attackDelay.toNat = 5 :=
  ⟨fun h5 => by rw [h5]; rfl, byte_eq_of_toNat (by decide)⟩

/-- The restart of the decoder, on the first call of the countdown, decodes
    nothing. -/
theorem attackDelay_ne_five_of_due {m : Mem} {d : Dsp} (hle : (d.vstate i).attackDelay.toNat ≤ 5)
    (hdue : DecodeDue m i (ticked d)) : (d.vstate i).attackDelay ≠ 5 := by
  intro h5
  have hpos := hdue.2
  rw [primed_interpPos_of_delay (by rwa [ticked_vstate]), ticked_vstate,
    attackDelay_eq_five_iff.mp h5] at hpos
  simp at hpos

/-- The block that follows the one a call has just finished is the next one of
    the chain. -/
theorem FollowsChain.block (hfix : SourceFixed i w w') (hgood : FollowsChain i w')
    (hplay : Playing es (w'.dsp.vstate i)) (hne5 : (w'.dsp.vstate i).attackDelay ≠ 5)
    (hlast : (decodes es).length % 4 = 3) {n : Nat}
    (hblock : (w'.dsp.vstate i).brrAddr = chain w.mem (dirEntry i w.dsp) n) :
    (if (primed w'.mem i (ticked w'.dsp)).brrHdr &&& brrEnd ≠ 0
      then (primed w'.mem i (ticked w'.dsp)).nextBrrAddr
      else (primed w'.mem i (ticked w'.dsp)).brrAddr + 9) =
      chain w.mem (dirEntry i w.dsp) (n + 1) := by
  rw [primed_brrAddr, primed_brrHdr, primed_nextBrrAddr, ticked_vstate, latchPtr_ticked,
    if_neg hne5, if_neg hne5, hblock, hfix.header, chain, hfix.entry]
  by_cases hzero : (w'.dsp.vstate i).attackDelay = 0
  · rw [if_pos hzero, hfix.loop]
  · -- the countdown still runs, so this is its last call
    have hone : (w'.dsp.vstate i).attackDelay = 1 := by
      have hpriming := hplay.priming
      have hle := hplay.delay_le
      have hne0 : (w'.dsp.vstate i).attackDelay.toNat ≠ 0 := fun h0 =>
        hzero (byte_eq_of_toNat (by decide) h0)
      have hnot5 : (w'.dsp.vstate i).attackDelay.toNat ≠ 5 := fun h5 =>
        hne5 (attackDelay_eq_five_iff.mpr h5)
      have hnat : (w'.dsp.vstate i).attackDelay.toNat = 1 := by omega
      exact byte_eq_of_toNat (by decide) hnat
    rw [if_neg hzero]
    rcases hgood.1 hone with hplain | hself
    · rw [hblock, hfix.header] at hplain
      rw [if_neg (not_not.mpr hplain), if_neg (not_not.mpr hplain)]
    · rw [hfix.entry] at hself
      rw [← hself, hfix.loop]

theorem Chained.call_of_due (hfix : SourceFixed i w w') (hgood : FollowsChain i w')
    (hplay : Playing es (w'.dsp.vstate i))
    (h : Chained w.mem (dirEntry i w.dsp) es (w'.dsp.vstate i))
    (hdue : DecodeDue w'.mem i (ticked w'.dsp)) :
    Chained w.mem (dirEntry i w.dsp) (es ++ (voiceRun w'.mem i (ticked w'.dsp)).events)
      ((voiceRun w'.mem i (ticked w'.dsp)).val.2.vstate i) := by
  obtain ⟨-, -, hoff', haddr'⟩ := voiceRun_of_due hdue
  have hdecodes : decodes (voiceRun w'.mem i (ticked w'.dsp)).events =
      [((primed w'.mem i (ticked w'.dsp)).brrAddr, (primed w'.mem i (ticked w'.dsp)).brrOff)] := by
    rw [voiceRun_decodes, if_pos hdue]
  have hcount : (decodes (es ++ (voiceRun w'.mem i (ticked w'.dsp)).events)).length =
      (decodes es).length + 1 := by
    rw [decodes_append, hdecodes, List.length_append, List.length_singleton]
  have hne5 := attackDelay_ne_five_of_due hplay.delay_le hdue
  have haddr : (primed w'.mem i (ticked w'.dsp)).brrAddr = (w'.dsp.vstate i).brrAddr := by
    rw [primed_brrAddr, ticked_vstate, if_neg hne5]
  have hoff : (primed w'.mem i (ticked w'.dsp)).brrOff = (w'.dsp.vstate i).brrOff := by
    rw [primed_brrOff, ticked_vstate, if_neg hne5]
  have hnext := h.next fun h5 => hne5 (attackDelay_eq_five_iff.mpr h5)
  have hbound := hgood.2 ((decodeDue_ticked_iff w'.mem i w'.dsp hplay.delay_le).mp hdue)
  obtain ⟨hbyte, hbyte'⟩ := chainByte_group hnext hbound
  refine ⟨?_, ?_, fun _ => ?_⟩
  · rw [hcount, List.range_succ, List.map_append, decodes_append, hdecodes, haddr, hoff, hnext,
      List.map_singleton, ← h.groups]
  · have htwo : 2 * ((decodes es).length + 1) = 2 * (decodes es).length + 1 + 1 := by omega
    rw [hcount, htwo, List.range_succ, List.range_succ, List.map_append, List.map_append,
      dataBytes_append, voiceRun_dataBytes, if_pos hdue, haddr, hoff, List.map_singleton,
      List.map_singleton, hbyte, hbyte', ← h.bytes, List.append_assoc]
    rfl
  · rw [hcount, haddr', hoff']
    exact chainGroup_succ (by rw [haddr, hoff]; exact hnext) fun hlast =>
      hgood.block hfix hplay hne5 hlast (Prod.mk.inj hnext).1

theorem Chained.call_of_not_due (hfix : SourceFixed i w w') (hplay : Playing es (w'.dsp.vstate i))
    (h : Chained w.mem (dirEntry i w.dsp) es (w'.dsp.vstate i))
    (hdue : ¬ DecodeDue w'.mem i (ticked w'.dsp)) :
    Chained w.mem (dirEntry i w.dsp) (es ++ (voiceRun w'.mem i (ticked w'.dsp)).events)
      ((voiceRun w'.mem i (ticked w'.dsp)).val.2.vstate i) := by
  obtain ⟨-, -, hoff', haddr'⟩ := voiceRun_of_not_due hdue
  have hdecodes : decodes (es ++ (voiceRun w'.mem i (ticked w'.dsp)).events) = decodes es := by
    rw [decodes_append, voiceRun_decodes, if_neg hdue, List.append_nil]
  have hbytes : dataBytes (es ++ (voiceRun w'.mem i (ticked w'.dsp)).events) = dataBytes es := by
    rw [dataBytes_append, voiceRun_dataBytes, if_neg hdue, List.append_nil]
  refine ⟨?_, ?_, fun _ => ?_⟩
  · rw [hdecodes]
    exact h.groups
  · rw [hbytes, hdecodes]
    exact h.bytes
  · rw [hdecodes, haddr', hoff', primed_brrAddr, primed_brrOff, ticked_vstate]
    by_cases h5 : (w'.dsp.vstate i).attackDelay = 5
    · -- the restart: the base block, at its first group
      rw [if_pos h5, if_pos h5, hplay.restart (attackDelay_eq_five_iff.mp h5), latchPtr_ticked,
        if_neg (by rw [h5]; decide), hfix.entry, hfix.base]
      rfl
    · rw [if_neg h5, if_neg h5]
      exact h.next fun hn => h5 (attackDelay_eq_five_iff.mpr hn)

/-- **Step**: a call that follows the chain decodes its next group, if any. -/
theorem Chained.call (hfix : SourceFixed i w w') (hgood : FollowsChain i w')
    (hplay : Playing es (w'.dsp.vstate i))
    (h : Chained w.mem (dirEntry i w.dsp) es (w'.dsp.vstate i)) :
    Chained w.mem (dirEntry i w.dsp) (es ++ (voiceRun w'.mem i (ticked w'.dsp)).events)
      ((voiceRun w'.mem i (ticked w'.dsp)).val.2.vstate i) := by
  by_cases hdue : DecodeDue w'.mem i (ticked w'.dsp)
  · exact h.call_of_due hfix hgood hplay hdue
  · exact h.call_of_not_due hfix hplay hdue

end Call

/-- Every sample of a run finds the source of `w`, and its call of voice `i`
    follows the chain. -/
def FollowsSource (i : Channel) (w : World) (ops : List Op) : Prop :=
  StepSystem.Along World.step
    (fun op w' => op.isSample = true → SourceFixed i w w' ∧ FollowsChain i w') ops w

theorem Chained.step {i : Channel} (op : Op) {w w' : World} {es : List VoiceEvent}
    (hfollow : op.isSample = true → SourceFixed i w w' ∧ FollowsChain i w')
    (hplay : Playing es (w'.dsp.vstate i))
    (h : Chained w.mem (dirEntry i w.dsp) es (w'.dsp.vstate i)) :
    Chained w.mem (dirEntry i w.dsp) (es ++ voiceEvents i (w'.step op).events)
      ((w'.step op).val.dsp.vstate i) := by
  cases op with
  | store | poke | restore | reset =>
    simpa [World.step, voiceEvents, dspRestore, dspReset, dspInit] using h
  | sample =>
    obtain ⟨hfix, hgood⟩ := hfollow rfl
    obtain ⟨hvstate, hevents⟩ := nextSample_voice w'.mem w'.dsp i
    rw [World.step_sample_events, hevents, World.step_sample_dsp, hvstate]
    exact Chained.call hfix hgood hplay h

/-- **A voice decodes its block chain.** Let a voice run from a key-on without
    falling silent or being keyed on again, and let its directory entry and the
    headers of its blocks stand still. When every call follows the chain, the
    groups that were decoded are those of the chain, in order, and the data
    bytes that were fetched are bytes 1 to 8 of its blocks, each once and in
    order, modulo 64 KiB. -/
theorem block_chain (i : Channel) (ops : List Op) {w : World}
    (hkey : (w.dsp.vstate i).attackDelay = 5)
    (hplay : Uninterrupted (voiceEvents i (runOps ops w).events))
    (hfollow : FollowsSource i w ops) :
    let es := voiceEvents i (runOps ops w).events
    decodes es = (List.range (decodes es).length).map (chainGroup w.mem (dirEntry i w.dsp)) ∧
      dataBytes es =
        (List.range (2 * (decodes es).length)).map (chainByte w.mem (dirEntry i w.dsp)) := by
  have hstep : ∀ op w' es, (op.isSample = true → SourceFixed i w w' ∧ FollowsChain i w') →
      Uninterrupted (voiceEvents i (World.step op w').events) →
      Playing (voiceEvents i es) (w'.dsp.vstate i) ∧
        Chained w.mem (dirEntry i w.dsp) (voiceEvents i es) (w'.dsp.vstate i) →
      Playing (voiceEvents i (es ++ (World.step op w').events))
          ((World.step op w').val.dsp.vstate i) ∧
        Chained w.mem (dirEntry i w.dsp) (voiceEvents i (es ++ (World.step op w').events))
          ((World.step op w').val.dsp.vstate i) := by
    rintro op w' es hfollow hun ⟨hplaying, hchained⟩
    rw [voiceEvents_append]
    exact ⟨hplaying.step op w' hun, Chained.step op hfollow hplaying hchained⟩
  have hstart : Playing (voiceEvents i []) (w.dsp.vstate i) ∧
      Chained w.mem (dirEntry i w.dsp) (voiceEvents i []) (w.dsp.vstate i) :=
    ⟨Playing.start hkey, Chained.start hkey⟩
  have hrun := StepSystem.run_history
    (fun (op : Op) (w' : World) => op.isSample = true → SourceFixed i w w' ∧ FollowsChain i w')
    (fun es => Uninterrupted (voiceEvents i es))
    (fun es (w' : World) => Playing (voiceEvents i es) (w'.dsp.vstate i) ∧
      Chained w.mem (dirEntry i w.dsp) (voiceEvents i es) (w'.dsp.vstate i))
    (uninterrupted_append i) hstep hfollow hplay hstart
  exact ⟨hrun.2.groups, hrun.2.bytes⟩

/-- A directory entry at 0 with base block 0x100 and loop block 0x200. The base
    block has the given header, the loop block ends and loops. -/
def twoBlockSource (header : Byte) : Mem where
  aram addr :=
    if addr = 1 then 1 else if addr = 3 then 2
    else if addr = 0x100 then header else if addr = 0x200 then 3
    else 0
  beyond _ := 0

/-- The operations that run the countdown and then play until the fifth group
    is decoded. -/
def fiveGroupOps : List Op :=
  countdownOps ++ .store (vreg 0 vregPitchHi) 0x3f :: List.replicate 3 .sample

section Solo

variable {i : Channel}

theorem SameVoice.dirEntry {d d' : Dsp} (h : SameVoice i d d') :
    dirEntry i d' = dirEntry i d := by
  rw [SpuKit.dirEntry, SpuKit.dirEntry, h.voice, voiceSrcnPointer, voiceSrcnPointer,
    srcnEffectiveAddr, srcnEffectiveAddr, dirpEffectiveAddr, dirpEffectiveAddr,
    h.regs regDir (by decide)]

/-- When the directory entry stands still along the run of a voice alone and
    nothing else writes memory, the source stands still along the run of the
    whole DSP; and what holds of the voice alone holds of it there. -/
theorem soloRun_sourceFixed {C : World → Prop} (hC : ∀ w w' : World, w'.mem = w.mem →
      SameVoice i w.dsp w'.dsp → C w → C w') {ops : List Op} {s w : World} (hmem : w.mem = s.mem)
    (h : SameVoice i s.dsp w.dsp) (hops : ∀ op ∈ ops, op.isPoke = false)
    (hquiet : EchoQuiet i ops s)
    (halong : StepSystem.Along (World.soloStep i)
      (fun _ s' => SpuKit.dirEntry i s'.dsp = SpuKit.dirEntry i s.dsp ∧ C s') ops s) :
    StepSystem.Along World.step (fun op w' => op.isSample = true → SourceFixed i w w' ∧ C w')
      ops w := by
  refine soloRun_along ?_ hmem h hquiet ((soloRun_mem hops s).1.and halong)
  rintro op s' w' hmem' h' ⟨hs', hentry, hc⟩ -
  have hsource : w'.mem = w.mem := (hmem'.trans hs').trans hmem.symm
  refine ⟨⟨?_, ?_, ?_, ?_⟩, hC s' w' hmem' h' hc⟩
  · rw [h'.dirEntry, hentry, h.dirEntry]
  · rw [hsource]
  · rw [hsource]
  · intro n
    rw [hsource]

/-- Whether a call follows the chain does not depend on what other voices
    write. -/
theorem FollowsChain.congr {w w' : World} (hmem : w'.mem = w.mem)
    (h : SameVoice i w.dsp w'.dsp) (hw : FollowsChain i w) : FollowsChain i w' := by
  unfold FollowsChain at *
  rw [hmem, h.vstate, h.dirEntry, h.decodesGroup]
  exact hw

end Solo

/-- A source that loops only from its loop block on is played as its chain. -/
theorem block_chain_plain :
    let es := voiceEvents 0 (runOps fiveGroupOps (keyedOn (twoBlockSource 2))).events
    decodes es = (List.range (decodes es).length).map
        (chainGroup (keyedOn (twoBlockSource 2)).mem
          (dirEntry 0 (keyedOn (twoBlockSource 2)).dsp)) ∧
      dataBytes es = (List.range (2 * (decodes es).length)).map
        (chainByte (keyedOn (twoBlockSource 2)).mem
          (dirEntry 0 (keyedOn (twoBlockSource 2)).dsp)) := by
  have hquiet : EchoQuiet 0 keyOnOps ⟨twoBlockSource 2, .zero⟩ := by decide +kernel
  obtain ⟨hmem, hsame⟩ := keyedOn_spec hquiet
  have hplay : EchoQuiet 0 fiveGroupOps (soloKeyedOn (twoBlockSource 2)) := by decide +kernel
  obtain ⟨-, -, hevents⟩ := soloRun_spec hmem hsame hplay
  refine block_chain 0 fiveGroupOps ?_ ?_ ?_
  · rw [hsame.vstate]
    decide +kernel
  · rw [hevents]
    decide +kernel
  · exact soloRun_sourceFixed (C := FollowsChain 0)
      (fun _ _ h1 h2 h3 => FollowsChain.congr h1 h2 h3) hmem hsame (by decide) hplay
      (by decide +kernel)

/-- A block that ends and loops on its first pass is decoded twice: after the
    first four groups the chain goes on to the loop block at 0x200, the voice
    goes back to the base block at 0x100. -/
theorem first_block_not_looped :
    ¬ ∀ w, Reachable w → ∀ i ops, (w.dsp.vstate i).attackDelay = 5 →
      Uninterrupted (voiceEvents i (runOps ops w).events) →
      StepSystem.Along World.step (fun op w' => op.isSample = true → SourceFixed i w w') ops w →
      decodes (voiceEvents i (runOps ops w).events) =
        (List.range (decodes (voiceEvents i (runOps ops w).events)).length).map
          (chainGroup w.mem (dirEntry i w.dsp)) := by
  intro h
  have hquiet : EchoQuiet 0 keyOnOps ⟨twoBlockSource 3, .zero⟩ := by decide +kernel
  obtain ⟨hmem, hsame⟩ := keyedOn_spec hquiet
  have hplay : EchoQuiet 0 fiveGroupOps (soloKeyedOn (twoBlockSource 3)) := by decide +kernel
  obtain ⟨-, -, hevents⟩ := soloRun_spec hmem hsame hplay
  have hfixed := soloRun_sourceFixed (C := fun _ => True) (fun _ _ _ _ h => h) hmem hsame
    (by decide) hplay (by decide +kernel)
  have hchain := h _ (keyedOn_reachable _) 0 fiveGroupOps (by rw [hsame.vstate]; decide +kernel)
    (by rw [hevents]; decide +kernel) (hfixed.mono fun _ _ hf hs => (hf hs).1)
  rw [hevents, hmem, hsame.dirEntry] at hchain
  revert hchain
  decide +kernel

end SpuKit
