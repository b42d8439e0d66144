/-
Which OpenCL devices are driven (`gpu/opencl/opencl_device.cc`). A GPU that two
drivers expose is told by an identity: its PCI address where the driver reports
one, else its UUID. Devices that report the same UUID but differ in whether, or
where, they are on the PCI bus have two identities, and both are kept.

The driver is what its queries answer: `none` is an error code.
-/
import Loadmaster.Lib.FirstSeen
import Loadmaster.Lib.Hex
import Mathlib.Data.Nat.Basic

set_option autoImplicit false

namespace Loadmaster.Gpu.OpenCl

open FirstSeen

/-! ## The driver -/

/-- `cl_khr_pci_bus_info`. -/
structure PciBusInfo where
  pci_domain : UInt32
  pci_bus : UInt32
  pci_device : UInt32
  pci_function : UInt32
deriving DecidableEq, Repr

/-- `cl_khr_device_uuid`. -/
abbrev Uuid := Vector UInt8 16

structure ClApi (Platform Device : Type*) where
  platformCount : Option ℕ
  platformIds : ℕ → Option (List Platform)
  deviceCount : Platform → Option ℕ
  deviceIds : Platform → ℕ → Option (List Device)
  pciBusInfo : Device → Option PciBusInfo
  uuid : Device → Option Uuid

variable {Platform Device : Type*} (api : ClApi Platform Device)

/-! ## The source -/

/-- `pci:%04x:%02x:%02x.%x`, of 39 characters at most. -/
def pciIdentity (pci : PciBusInfo) : List Char :=
  "pci:".toList ++ (Hex.padded 4 pci.pci_domain.toNat ++ ':' ::
    (Hex.padded 2 pci.pci_bus.toNat ++ ':' ::
      (Hex.padded 2 pci.pci_device.toNat ++ '.' :: Hex.padded 1 pci.pci_function.toNat)))

def uuidIdentity (uuid : Uuid) : List Char :=
  "uuid:".toList ++ uuid.toList.flatMap fun b => Hex.padded 2 b.toNat

/-- `DeviceIdentity`: empty where the driver supports neither. -/
def deviceIdentity (device : Device) : List Char :=
  match api.pciBusInfo device with
  | some pci => pciIdentity pci
  | none =>
    match api.uuid device with
    | some uuid => uuidIdentity uuid
    | none => []

abbrev Collected (Platform Device : Type*) := State (Platform × Device) (List Char)

/-- The body of the loop over a platform's devices. -/
def collectDevice (s : Collected Platform Device) (e : Platform × Device) :
    Collected Platform Device :=
  let id := deviceIdentity api e.2
  if id ≠ [] then
    if id ∈ s.seen then s
    else { seen := s.seen ++ [id], out := s.out ++ [e] }
  else { s with out := s.out ++ [e] }

/-- A platform's devices, if both of its queries succeed. -/
def devicesOf (p : Platform) : List Device :=
  match api.deviceCount p with
  | none => []
  | some dev_count => if dev_count = 0 then [] else (api.deviceIds p dev_count).getD []

/-- The body of the loop over the platforms. -/
def collectPlatform (s : Collected Platform Device) (p : Platform) : Collected Platform Device :=
  (devicesOf api p).foldl (fun s d => collectDevice api s (p, d)) s

def platforms : List Platform :=
  match api.platformCount with
  | none => []
  | some platform_count =>
    if platform_count = 0 then [] else (api.platformIds platform_count).getD []

/-- `CollectGpuDevices`; `none` is a loader that could not be opened. -/
def collectGpuDevices : Option (ClApi Platform Device) → List (Platform × Device)
  | none => []
  | some api => ((platforms api).foldl (collectPlatform api) {}).out

/-! ## What it is for -/

/-- Every device of every platform, in order. -/
def exposed : List (Platform × Device) :=
  (platforms api).flatMap fun p => (devicesOf api p).map fun d => (p, d)

def SamePci (a b : Device) : Prop :=
  ∃ pci, api.pciBusInfo a = some pci ∧ api.pciBusInfo b = some pci

def SameUuid (a b : Device) : Prop := ∃ uuid, api.uuid a = some uuid ∧ api.uuid b = some uuid

/-- Each GPU is in the list once: as the first of the devices that expose it. -/
structure DrivenOnce (out : List (Platform × Device)) : Prop where
  pci : out.Pairwise fun a b => ¬ SamePci api a.2 b.2
  uuid : out.Pairwise fun a b => ¬ SameUuid api a.2 b.2
  /-- The entries stand in the order of the platforms, and what shares nothing
  with an earlier entry is one. -/
  kept : ∃ keep : ℕ → Bool, out = select (fun j => keep j = true) (exposed api) ∧
    ∀ j b, (exposed api)[j]? = some b →
      (∀ i < j, ∀ a, (exposed api)[i]? = some a → keep i = true →
        ¬ SamePci api a.2 b.2 ∧ ¬ SameUuid api a.2 b.2) → keep j = true

/-! ## Identities -/

variable {api}

theorem pciIdentity_inj {p q : PciBusInfo} (h : pciIdentity p = pciIdentity q) : p = q := by
  obtain ⟨hdomain, h⟩ := Hex.padded_append_inj (by decide) (List.append_cancel_left h)
  obtain ⟨hbus, h⟩ := Hex.padded_append_inj (by decide) h
  obtain ⟨hdevice, hfunction⟩ := Hex.padded_append_inj (by decide) h
  cases p
  cases q
  congr
  · exact UInt32.toNat_inj.mp hdomain
  · exact UInt32.toNat_inj.mp hbus
  · exact UInt32.toNat_inj.mp hdevice
  · exact UInt32.toNat_inj.mp (Hex.padded_inj hfunction)

theorem uuidIdentity_inj {u v : Uuid} (h : uuidIdentity u = uuidIdentity v) : u = v := by
  have hlen : ∀ b : UInt8, (Hex.padded 2 b.toNat).length = 2 := fun b =>
    Hex.length_padded (by decide) b.toNat_lt
  apply Vector.toList_inj.mp
  apply Hex.flatMap_inj (fun a b => (hlen a).trans (hlen b).symm)
    (fun a b hab => UInt8.toNat_inj.mp (Hex.padded_inj hab)) (by simp)
  exact List.append_cancel_left h

/-- The two kinds of identity differ in their first letter. -/
theorem pciIdentity_ne_uuidIdentity {p : PciBusInfo} {u : Uuid} : pciIdentity p ≠ uuidIdentity u := by
  intro h
  have hhead : some 'p' = some 'u' := congrArg List.head? h
  contradiction

def identityKey (api : ClApi Platform Device) (e : Platform × Device) : Option (List Char) :=
  if deviceIdentity api e.2 ≠ [] then some (deviceIdentity api e.2) else none

theorem collectDevice_eq : collectDevice api = look (identityKey api) := by
  funext s e
  unfold collectDevice look identityKey
  dsimp only
  by_cases hid : deviceIdentity api e.2 ≠ []
  · rw [if_pos hid, if_pos hid]
    dsimp only
    split_ifs <;> rfl
  · rw [if_neg hid, if_neg hid]

/-- The loops keep the first device of each identity. -/
theorem collectGpuDevices_eq :
    collectGpuDevices (some api) = firstSeen (identityKey api) (exposed api) := by
  unfold collectGpuDevices firstSeen exposed
  rw [List.foldl_flatMap]
  simp only [List.foldl_map]
  unfold collectPlatform
  rw [collectDevice_eq]

/-- A device that reports something has an identity made of it. -/
theorem identityKey_eq_some {e : Platform × Device} {id : List Char}
    (h : identityKey api e = some id) :
    (∃ pci, api.pciBusInfo e.2 = some pci ∧ id = pciIdentity pci) ∨
      (api.pciBusInfo e.2 = none ∧ ∃ uuid, api.uuid e.2 = some uuid ∧ id = uuidIdentity uuid) := by
  unfold identityKey at h
  split_ifs at h with hid
  obtain rfl := Option.some.inj h
  unfold deviceIdentity at hid ⊢
  cases hpci : api.pciBusInfo e.2 with
  | some pci => exact .inl ⟨pci, rfl, rfl⟩
  | none =>
    rw [hpci] at hid
    cases huuid : api.uuid e.2 with
    | some uuid => exact .inr ⟨rfl, uuid, rfl, rfl⟩
    | none =>
      rw [huuid] at hid
      exact absurd rfl hid

theorem identityKey_of_pci {e : Platform × Device} {pci : PciBusInfo}
    (h : api.pciBusInfo e.2 = some pci) : identityKey api e = some (pciIdentity pci) := by
  have hid : deviceIdentity api e.2 = pciIdentity pci := by
    unfold deviceIdentity
    rw [h]
  unfold identityKey
  rw [hid, if_pos (by simp [pciIdentity])]

/-- Devices with the same identity report the same PCI address or UUID. -/
theorem same_of_identityKey {a b : Platform × Device} {id : List Char}
    (ha : identityKey api a = some id) (hb : identityKey api b = some id) :
    SamePci api a.2 b.2 ∨ SameUuid api a.2 b.2 := by
  rcases identityKey_eq_some ha with ⟨p, hp, rfl⟩ | ⟨-, u, hu, rfl⟩ <;>
    rcases identityKey_eq_some hb with ⟨q, hq, heq⟩ | ⟨-, v, hv, heq⟩
  · obtain rfl := pciIdentity_inj heq
    exact .inl ⟨p, hp, hq⟩
  · exact absurd heq pciIdentity_ne_uuidIdentity
  · exact absurd heq.symm pciIdentity_ne_uuidIdentity
  · obtain rfl := uuidIdentity_inj heq
    exact .inr ⟨u, hu, hv⟩

/-! ## One GPU, one entry -/

/-- Two entries never report the same PCI address. -/
theorem pairwise_pci :
    (collectGpuDevices (some api)).Pairwise fun a b => ¬ SamePci api a.2 b.2 := by
  rw [collectGpuDevices_eq, firstSeen_eq, pairwise_select]
  rintro i j a b hij hi hj - hkeep ⟨pci, ha, hb⟩
  apply hkeep
  refine ⟨i, hij, pciIdentity pci, ?_, ?_⟩
  · rw [hi]
    exact identityKey_of_pci ha
  · rw [hj]
    exact identityKey_of_pci hb

/-- What shares nothing with an earlier entry is an entry. -/
theorem keeps_new : ∃ keep : ℕ → Bool,
    collectGpuDevices (some api) = select (fun j => keep j = true) (exposed api) ∧
    ∀ j b, (exposed api)[j]? = some b →
      (∀ i < j, ∀ a, (exposed api)[i]? = some a → keep i = true →
        ¬ SamePci api a.2 b.2 ∧ ¬ SameUuid api a.2 b.2) → keep j = true := by
  refine ⟨fun j => decide (¬ Repeats (identityKey api) (exposed api) j), ?_, ?_⟩
  · rw [collectGpuDevices_eq, firstSeen_eq]
    exact select_congr fun j _ => decide_eq_true_iff.symm
  · intro j b hj hnew
    rw [decide_eq_true_iff]
    intro hrepeats
    obtain ⟨i, hij, hfirst, k, hi, hk⟩ := hrepeats.exists_first
    obtain ⟨a, ha, hak⟩ := Option.bind_eq_some_iff.mp hi
    rw [hj] at hk
    have hnot := hnew i hij a ha (decide_eq_true hfirst)
    exact (same_of_identityKey hak hk).elim hnot.1 hnot.2

/-- Whenever two devices report the same UUID, one of them has the identity of
an earlier device. -/
def UuidsTold (api : ClApi Platform Device) : Prop :=
  ∀ i j a b, i < j → (exposed api)[i]? = some a → (exposed api)[j]? = some b →
    SameUuid api a.2 b.2 →
      Repeats (identityKey api) (exposed api) i ∨ Repeats (identityKey api) (exposed api) j

/-- **Each GPU is driven once** exactly when the UUIDs are told by the identities. The
loop keeps the first device of each identity. Two that report one PCI address have one
identity (`pairwise_pci`), so only devices with one UUID can both be kept. -/
theorem drivenOnce_iff :
    DrivenOnce api (collectGpuDevices (some api)) ↔ UuidsTold api := by
  have huuid : (collectGpuDevices (some api)).Pairwise (fun a b => ¬ SameUuid api a.2 b.2) ↔
      UuidsTold api := by
    rw [collectGpuDevices_eq, firstSeen_eq, pairwise_select]
    constructor
    · intro h i j a b hij hi hj hsame
      by_contra hkept
      rw [not_or] at hkept
      exact h i j a b hij hi hj hkept.1 hkept.2 hsame
    · intro h i j a b hij hi hj hkeepi hkeepj hsame
      exact (h i j a b hij hi hj hsame).elim hkeepi hkeepj
  constructor
  · intro h
    exact huuid.mp h.uuid
  · intro h
    exact ⟨pairwise_pci, huuid.mpr h, keeps_new⟩

/-- A vendor's driver reports both, and a second one reports the UUID alone. -/
def twoDrivers : ClApi Bool Bool where
  platformCount := some 2
  platformIds _ := some [false, true]
  deviceCount _ := some 1
  deviceIds p _ := some [p]
  pciBusInfo d := if d then none else some ⟨0, 3, 0, 0⟩
  uuid _ := some (Vector.replicate 16 7)

/-- The GPU that both drivers expose is driven twice. -/
theorem two_drivers_drive_it_twice :
    collectGpuDevices (some twoDrivers) = [(false, false), (true, true)] ∧
      ¬ DrivenOnce twoDrivers (collectGpuDevices (some twoDrivers)) := by
  have hboth : collectGpuDevices (some twoDrivers) = [(false, false), (true, true)] := by decide
  refine ⟨hboth, ?_⟩
  intro h
  have huuid := h.uuid
  rw [hboth, List.pairwise_pair] at huuid
  exact huuid ⟨_, rfl, rfl⟩

end Loadmaster.Gpu.OpenCl
