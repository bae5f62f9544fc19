import SpuKit.Spc700.IplOverlay

/-!
# What the input ports carry

The host supplies four input ports; in this program only a snapshot does. A
store to CTRL with a clear bit should reset two of them to 0. The ports live in
two places: loads come from `io_in`, but the clear bits reset the copy in the
registers.

## Main definitions

- `clearsPort` — the operation stores the clear bit of a port to CTRL
- `hostPort` — what the port should carry

## Main results

- `input_port_iff` — when a load of a port returns that
-/

namespace SpuKit

/-- Does the operation store the clear bit of the port to CTRL? -/
def clearsPort (k : Fin 4) : MemOp → Bool
  | .store addr byte =>
    storesCtrl addr && byte &&& (if k.val < 2 then ctrlIoc01 else ctrlIoc23) != 0
  | .load _ | .showIplRom _ => false

/-- What a port should carry: the value the host supplied, or 0 if the port was
    cleared since. -/
def hostPort (st : Sram) (ops : List MemOp) (k : Fin 4) : Byte :=
  if ops.any (clearsPort k) then 0 else st (apuIo k)

section Ports

variable {b : Build} {m m' : Machine}

theorem mmioLoadRegs_ioIn {addr : Word} {a : Apu} {d : Dsp} {p : Byte × Apu}
    (h : mmioLoadRegs addr a d = some p) : p.2.ioIn = a.ioIn := by
  unfold mmioLoadRegs at h
  split at h
  · obtain ⟨byte, -, rfl⟩ := Option.map_eq_some_iff.mp h
    rfl
  split at h
  · obtain ⟨byte, -, rfl⟩ := Option.map_eq_some_iff.mp h
    rfl
  split at h
  · obtain rfl := Option.some.inj h
    rfl
  · obtain rfl := Option.some.inj h
    rfl

theorem storeMem_apu (addr : Word) (byte : Byte) (m : Machine) :
    (storeMem b addr byte m).apu = m.apu := by
  simp only [storeMem, apply_ite Machine.apu, apuSetShowIplRom_apu, ite_self]

theorem memStore_ioIn {addr : Word} {byte : Byte} {u : Unit}
    (h : memStore b addr byte m = some (u, m')) : m'.apu.ioIn = m.apu.ioIn := by
  rw [memStore_run] at h
  obtain ⟨p, hp, heq⟩ := Option.map_eq_some_iff.mp h
  obtain ⟨-, rfl⟩ := Prod.mk.inj heq
  rw [storeMem_apu]
  unfold storeRegs at hp
  split at hp
  · exact mmioStoreRegs_ioIn hp
  · obtain rfl := Option.some.inj hp
    rfl

theorem memLoad_ioIn {addr : Word} {byte : Byte} (h : memLoad b addr m = some (byte, m')) :
    m'.apu.ioIn = m.apu.ioIn := by
  rw [memLoad_run] at h
  split at h
  · obtain ⟨p, hp, heq⟩ := Option.map_eq_some_iff.mp h
    obtain ⟨-, rfl⟩ := Prod.mk.inj heq
    exact mmioLoadRegs_ioIn hp
  · obtain ⟨-, rfl⟩ := Prod.mk.inj (Option.some.inj h)
    rfl

/-- **Step**: no operation of the CPU changes what the host supplied. -/
theorem MemOp.exec_ioIn (op : MemOp) {u : PUnit} (h : op.exec b m = some (u, m')) :
    m'.apu.ioIn = m.apu.ioIn := by
  cases op with
  | store addr byte => exact memStore_ioIn h
  | load addr =>
    rw [MemOp.exec, Exec.bind_run] at h
    obtain ⟨p, hp, heq⟩ := Option.bind_eq_some_iff.mp h
    obtain ⟨-, rfl⟩ := Prod.mk.inj (Option.some.inj heq)
    exact memLoad_ioIn hp
  | showIplRom shown =>
    obtain ⟨-, rfl⟩ := Prod.mk.inj (Option.some.inj h)
    rw [apuSetShowIplRom_apu]

theorem forM_exec_ioIn (ops : List MemOp) {u : PUnit}
    (h : ops.forM (MemOp.exec b) m = some (u, m')) : m'.apu.ioIn = m.apu.ioIn := by
  induction ops generalizing m with
  | nil =>
    obtain ⟨-, rfl⟩ := Prod.mk.inj (Option.some.inj h)
    rfl
  | cons op ops ih =>
    rw [Exec.forM_cons_run] at h
    obtain ⟨p, hp, hops⟩ := Option.bind_eq_some_iff.mp h
    rw [ih hops, op.exec_ioIn hp]

/-- A load of a port returns `io_in`. -/
theorem memLoad_port (b : Build) (k : Fin 4) (m : Machine) :
    (memLoad b (apuAddr (apuIo k))).run' m = some (m.apu.ioIn k) := by
  have hreg : ∀ k : Fin 4, apuIo k ≠ apuDspData ∧
      (apuIo k = apuIo 0 ∨ apuIo k = apuIo 1 ∨ apuIo k = apuIo 2 ∨ apuIo k = apuIo 3) ∧
      (apuAddr (apuIo k) - apuIo0).toNat = k := by
    decide
  obtain ⟨hdata, hio, hoff⟩ := hreg k
  have hload : ioLoad (apuAddr (apuIo k) - apuIo0) m.apu = some (m.apu.ioIn k) := by
    simp only [ioLoad, hoff, k.isLt, dite_true]
  rw [StateT.run'_eq, StateT.run, memLoad_run, if_pos (apuMmioAddress_apuAddr _), mmioLoadRegs,
    apuReg_apuAddr, if_neg hdata, if_pos hio, hload]
  rfl

end Ports

/-- **What the input ports carry.** After any run of the CPU from a restored
    state, a load of a port returns what the port should carry just when the
    port was not cleared or the host had supplied 0. -/
theorem input_port_iff (b : Build) (st : Sram) (ops : List MemOp) (k : Fin 4) {m m' : Machine}
    (h : ops.forM (MemOp.exec b) (apuRestore b st m) = some (⟨⟩, m')) :
    (memLoad b (apuAddr (apuIo k))).run' m' = some (hostPort st ops k) ↔
      (ops.any (clearsPort k) = true → st (apuIo k) = 0) := by
  have hin : m'.apu.ioIn k = st (apuIo k) := congrFun (forM_exec_ioIn ops h) k
  rw [memLoad_port, hin, hostPort, Option.some_inj]
  by_cases hc : ops.any (clearsPort k) = true
  · rw [if_pos hc]
    exact ⟨fun h0 _ => h0, fun h0 => h0 hc⟩
  · rw [if_neg hc]
    exact iff_of_true rfl fun hany => absurd hany hc

/-- A port keeps its value through stores to it and to CTRL without its clear
    bit. -/
theorem input_port_kept :
    ∃ m', [.store (apuAddr (apuIo 0)) 0x55, .store (apuAddr apuCtrl) ctrlIoc23].forM
        (MemOp.exec .fast) (apuRestore .fast (fun _ => 0xaa) .init) = some (⟨⟩, m') ∧
      (memLoad .fast (apuAddr (apuIo 0))).run' m' = some (hostPort (fun _ => 0xaa)
        [.store (apuAddr (apuIo 0)) 0x55, .store (apuAddr apuCtrl) ctrlIoc23] 0) :=
  ⟨_, rfl, (input_port_iff .fast (fun _ => 0xaa)
    [.store (apuAddr (apuIo 0)) 0x55, .store (apuAddr apuCtrl) ctrlIoc23] 0 rfl).mpr (by decide)⟩

/-- A cleared port is still loaded with the value of the host. -/
theorem cleared_port_kept :
    ¬ ∀ (st : Sram) (ops : List MemOp) (k : Fin 4) (m m' : Machine),
      ops.forM (MemOp.exec .fast) (apuRestore .fast st m) = some (⟨⟩, m') →
        (memLoad .fast (apuAddr (apuIo k))).run' m' = some (hostPort st ops k) := by
  intro h
  have hport := h (fun _ => 0xaa) [.store (apuAddr apuCtrl) ctrlIoc01] 0 .init _ rfl
  rw [memLoad_port] at hport
  revert hport
  decide +kernel

end SpuKit
