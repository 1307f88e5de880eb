import Rxs.Core.LTS
import Rxs.Core.Registers
import Rxs.L2Machine.MsrItem

/-!
# Model specific registers, set and restored

`RxMsr::init` saves the registers of a preset as the first processing unit has them and
writes the preset on every unit, with two more registers for cache QoS; `RxMsr::destroy`
writes what was saved. An access can fail at any time.

* `inv_inductive`: what holds along a run whose inits meet the condition `Fits`.
* **`destroy_restores`**: every register of every unit has its value from before the run after
  a `destroy` whose accesses succeed.
-/
namespace Rxs.L2.RxMsr

open Rxs.Core Rxs.Core.Registers

/-! ## Accesses -/

/-- A register of a processing unit. -/
abbrev Cell := Int × UInt32

/-- The processing units of the CPU, of which there is a first, and its CAT. -/
structure CpuInfo where
  first : Int
  rest : List Int
  hasCatL3 : Bool
  deriving DecidableEq, Repr

def CpuInfo.units (c : CpuInfo) : List Int := c.first :: c.rest

/-- What the system answers in one call: whether the module is there, and which accesses
succeed. -/
structure Env where
  available : Bool
  oracle : Oracle Cell UInt64

/-- mirrors src/hw/msr/Msr.cpp:57-72 -/
def Msr.write (o : Oracle Cell UInt64) (item : MsrItem) (cpu : Int) : Op Cell UInt64 Bool :=
  if item.m_mask ≠ MsrItem.kNoMask then do
    let old_value ← Registers.read o (cpu, item.m_reg)
    match old_value with
    | some old_value =>
      Registers.write o (cpu, item.m_reg)
        (MsrItem.maskedValue old_value item.m_value item.m_mask)
    | none => Registers.write o (cpu, item.m_reg) item.m_value
  else Registers.write o (cpu, item.m_reg) item.m_value

/-- mirrors src/hw/msr/Msr.cpp:75-87 -/
def Msr.read (o : Oracle Cell UInt64) (reg : UInt32) (cpu : Int) : Op Cell UInt64 MsrItem := do
  let value ← Registers.read o (cpu, reg)
  match value with
  | some value => pure { m_reg := reg, m_value := value }
  | none => pure {}

/-- mirrors src/hw/msr/Msr_linux.cpp:99-110 -/
def Msr.writeAll (callback : Int → Op Cell UInt64 Bool) : List Int → Op Cell UInt64 Bool
  | [] => pure true
  | pu :: units => do
    let ok ← callback pu
    if ok then Msr.writeAll callback units else pure false

/-! ## One routine for both -/

/-- mirrors src/crypto/rx/RxMsr.cpp:55-70 -/
def save (o : Oracle Cell UInt64) (first : Int) :
    List MsrItem → List MsrItem → Op Cell UInt64 (Bool × List MsrItem)
  | [], items => pure (true, items)
  | i :: preset, items => do
    let item ← Msr.read o i.m_reg first
    if item.isValid then save o first preset (items ++ [item]) else pure (false, [])

def int32 (n : Int) : Int := n.bmod (2 ^ 32)

/-- The CPU cores with access to the full cache, and whether QoS is disabled.
mirrors src/crypto/rx/RxMsr.cpp:72-92 -/
def cacheEnabled (units : List Int) : List Int → List Int × Bool
  | [] => ([], false)
  | t :: threads =>
    let affinity := int32 t
    if affinity < 0 ∨ affinity ∉ units then ([], true)
    else (affinity :: (cacheEnabled units threads).1, (cacheEnabled units threads).2)

/-- `threads` are the affinities of the threads. -/
def hasFullCache (units threads : List Int) (cpu : Int) : Bool :=
  threads.isEmpty || (cacheEnabled units threads).2 || (cacheEnabled units threads).1.contains cpu

/-- mirrors src/crypto/rx/RxMsr.cpp:95-99 -/
def writePreset (o : Oracle Cell UInt64) (cpu : Int) : List MsrItem → Op Cell UInt64 Bool
  | [] => pure true
  | item :: preset => do
    let ok ← Msr.write o item cpu
    if ok then writePreset o cpu preset else pure false

/-- mirrors src/crypto/rx/RxMsr.cpp:101-119 -/
def writeQoS (o : Oracle Cell UInt64) (full : Bool) (cpu : Int) : Op Cell UInt64 Bool :=
  if full then Msr.write o { m_reg := 0xc8f, m_value := 0 } cpu
  else do
    let ok ← Msr.write o { m_reg := 0xc91, m_value := 0 } cpu
    if ok then Msr.write o { m_reg := 0xc8f, m_value := 0x100000000 } cpu
    else
      let ok ← Msr.write o { m_reg := 0xc91, m_value := 1 } cpu
      if ok then Msr.write o { m_reg := 0xc8f, m_value := 0x100000000 } cpu else pure false

def callback (o : Oracle Cell UInt64) (preset : List MsrItem) (cache_qos : Bool)
    (full : Int → Bool) (cpu : Int) : Op Cell UInt64 Bool := do
  let ok ← writePreset o cpu preset
  if ok then
    if !cache_qos then pure true else writeQoS o (full cpu) cpu
  else pure false

/-- With the items it leaves.
mirrors src/crypto/rx/RxMsr.cpp:48-121 -/
def wrmsr (cpu : CpuInfo) (env : Env) (preset : List MsrItem) (threads : List Int)
    (cache_qos save : Bool) (items : List MsrItem) : Op Cell UInt64 (Bool × List MsrItem) :=
  if !env.available then pure (false, items)
  else do
    let saved ← if save then RxMsr.save env.oracle cpu.first preset items else pure (true, items)
    if saved.1 then
      let ok ← Msr.writeAll
        (callback env.oracle preset cache_qos (hasFullCache cpu.units threads)) cpu.units
      pure (ok, saved.2)
    else pure (false, saved.2)

/-! ## Init and destroy -/

structure Config where
  msrPreset : List MsrItem
  cacheQoS : Bool
  rdmsr : Bool
  /-- The affinities of the threads. -/
  threads : List Int
  deriving DecidableEq, Repr

structure State where
  m_cacheQoS : Bool := false
  m_enabled : Bool := false
  m_initialized : Bool := false
  items : List MsrItem := []
  regs : Cell → UInt64

/-- mirrors src/crypto/rx/RxMsr.cpp:127-158 -/
def init (cpu : CpuInfo) (config : Config) (env : Env) (s : State) : State :=
  if s.m_initialized then s
  else
    let s := { s with m_initialized := true, m_enabled := false }
    if config.msrPreset.isEmpty then s
    else
      let m_cacheQoS := config.cacheQoS && cpu.hasCatL3
      let r := wrmsr cpu env config.msrPreset config.threads m_cacheQoS config.rdmsr s.items
        ⟨s.regs, 0⟩
      { s with
        m_cacheQoS := m_cacheQoS
        m_enabled := r.1.1
        items := r.1.2
        regs := r.2.value }

/-- With whether its accesses succeed.
mirrors src/crypto/rx/RxMsr.cpp:161-179 -/
def destroy (cpu : CpuInfo) (env : Env) (s : State) : Bool × State :=
  if !s.m_initialized then (true, s)
  else
    let s := { s with m_initialized := false, m_enabled := false }
    if s.items.isEmpty then (true, s)
    else
      let r := wrmsr cpu env s.items [] s.m_cacheQoS false s.items ⟨s.regs, 0⟩
      (r.1.1, { s with regs := r.2.value })

inductive Step where
  | init (config : Config) (env : Env)
  | destroy (env : Env)

def next (cpu : CpuInfo) (s : State) : Step → State
  | .init config env => init cpu config env s
  | .destroy env => (destroy cpu env s).2

/-- Any cycles, from registers `regs` on. -/
def system (cpu : CpuInfo) (regs : Cell → UInt64) : LTS State Step :=
  LTS.ofFn { regs := regs } fun s l => some (next cpu s l)

/-! ## What is asked -/

/-- The register has an item. -/
def IsSaved (items : List MsrItem) (reg : UInt32) : Prop := ∃ i ∈ items, i.m_reg = reg

instance (items : List MsrItem) (reg : UInt32) : Decidable (IsSaved items reg) :=
  inferInstanceAs (Decidable (∃ _ ∈ _, _))

/-- All registers of the preset can be read, from access `n` on. -/
def readable (o : Oracle Cell UInt64) (first : Int) : Nat → List MsrItem → Bool
  | _, [] => true
  | n, i :: preset =>
    o.read n (first, i.m_reg) && i.isValid && readable o first (n + 1) preset

section Conditions

variable (cpu : CpuInfo) (regs : Cell → UInt64) (s : State) (config : Config) (env : Env)

/-- Every register of every unit is as it was. -/
def Restored (s : State) : Prop := ∀ u ∈ cpu.units, ∀ r, s.regs (u, r) = regs (u, r)

/-- The preset is saved and written. -/
def Applied : Prop :=
  env.available = true ∧ readable env.oracle cpu.first 0 config.msrPreset = true

/-- When what an init writes can be undone. -/
structure FitsInit : Prop where
  /-- A class of service that is not 0 is not given back. -/
  qosOn : (config.cacheQoS && cpu.hasCatL3) = true → ∀ u ∈ cpu.units, regs (u, 0xc8f) = 0
  /-- Without QoS it is not reset. -/
  qosOff : (config.cacheQoS && cpu.hasCatL3) = false →
    IsSaved s.items 0xc8f ∨ (env.available = true ∧ IsSaved config.msrPreset 0xc8f) ∨
      ∀ u ∈ cpu.units, s.regs (u, 0xc8f) = regs (u, 0xc8f)
  /-- With a register that cannot be read all that was saved is forgotten. -/
  unreadable : env.available = true →
    readable env.oracle cpu.first 0 config.msrPreset = false → Restored cpu regs s
  /-- What the first unit has is saved for all. -/
  preset : Applied cpu config env → ∀ i ∈ config.msrPreset, ∀ u ∈ cpu.units,
    regs (u, i.m_reg) = s.regs (cpu.first, i.m_reg)
  /-- The mask of the other class of service stays as it was written. -/
  leftOut : Applied cpu config env → (config.cacheQoS && cpu.hasCatL3) = true →
    ¬IsSaved s.items 0xc91 → ¬IsSaved config.msrPreset 0xc91 →
    ∀ u ∈ cpu.units, hasFullCache cpu.units config.threads u = false →
      (regs (u, 0xc91) = 0 ∧ ∀ n, env.oracle.write n (u, 0xc91) 0 = true) ∨
        (regs (u, 0xc91) = 1 ∧ ∀ n, env.oracle.write n (u, 0xc91) 0 = false)

/-- The condition on a step. -/
def Fits : Step → Prop
  | .init config env => s.m_initialized = false → config.msrPreset ≠ [] →
    FitsInit cpu regs s config env
  | .destroy _ => True

/-- Registers are read before they are written. -/
def Step.Reads : Step → Prop
  | .init config _ => config.rdmsr = true
  | .destroy _ => True

end Conditions

/-! ## What is written -/

section Writing

variable {o : Oracle Cell UInt64} {P : Cell → UInt64 → Prop} {cpu : Int} {item : MsrItem}

theorem writes_item (h : ∀ v, P (cpu, item.m_reg) v) : Writes P (Msr.write o item cpu) := by
  refine .ite (fun _ => .bind (.read o _) fun b => ?_) fun _ => .write o fun _ _ => h _
  split
  · exact .write o fun _ _ => h _
  · exact .write o fun _ _ => h _

/-- Without a mask the value is the item's. -/
theorem write_eq (h : item.m_mask = MsrItem.kNoMask) :
    Msr.write o item cpu = Registers.write o (cpu, item.m_reg) item.m_value :=
  if_neg (not_not.mpr h)

theorem writes_value (hm : item.m_mask = MsrItem.kNoMask)
    (h : ∀ n, o.write n (cpu, item.m_reg) item.m_value = true → P (cpu, item.m_reg) item.m_value) :
    Writes P (Msr.write o item cpu) := by
  rw [write_eq hm]
  exact .write o h

theorem writes_writePreset {preset : List MsrItem}
    (h : ∀ i ∈ preset, Writes P (Msr.write o i cpu)) : Writes P (writePreset o cpu preset) := by
  induction preset with
  | nil => exact .pure true
  | cons i preset ih =>
    refine .bind (h i List.mem_cons_self) fun b => ?_
    exact .ite (fun _ => ih fun j hj => h j (List.mem_cons_of_mem i hj)) fun _ => .pure false

theorem writes_writeAll {f : Int → Op Cell UInt64 Bool} {units : List Int}
    (h : ∀ u ∈ units, Writes P (f u)) : Writes P (Msr.writeAll f units) := by
  induction units with
  | nil => exact .pure true
  | cons u units ih =>
    refine .bind (h u List.mem_cons_self) fun b => ?_
    exact .ite (fun _ => ih fun v hv => h v (List.mem_cons_of_mem u hv)) fun _ => .pure false

theorem writes_writeQoS {full : Bool} (hc8f : ∀ v, (full = true → v = 0) → P (cpu, 0xc8f) v)
    (hzero : full = false → ∀ n, o.write n (cpu, 0xc91) 0 = true → P (cpu, 0xc91) 0)
    (hone : full = false → ∀ n, o.write n (cpu, 0xc91) 0 = false → P (cpu, 0xc91) 1) :
    Writes P (writeQoS o full cpu) := by
  refine .ite (fun _ => writes_value rfl fun _ _ => hc8f 0 fun _ => rfl) fun hfull => ?_
  have hfull : full = false := by simpa using hfull
  have hclass : Writes P (Msr.write o { m_reg := 0xc8f, m_value := 0x100000000 } cpu) :=
    writes_value rfl fun _ _ => hc8f _ fun h => by rw [hfull] at h; cases h
  refine .bind (writes_value rfl (hzero hfull)) fun b => ?_
  refine .ite (fun _ => hclass) fun hb => ?_
  -- the zero was refused
  have hrefused : o.write b.count (cpu, 0xc91) 0 = false := by
    rw [write_eq rfl, Registers.write] at hb
    by_contra hok
    rw [Bool.not_eq_false] at hok
    rw [if_pos hok] at hb
    exact hb rfl
  refine .bind (writes_value rfl fun _ _ => hone hfull b.count hrefused) fun b' => ?_
  exact .ite (fun _ => hclass) fun _ => .pure false

theorem writes_callback {preset : List MsrItem} {qos : Bool} {full : Int → Bool}
    (hp : ∀ i ∈ preset, Writes P (Msr.write o i cpu))
    (hq : qos = true → Writes P (writeQoS o (full cpu) cpu)) :
    Writes P (callback o preset qos full cpu) := by
  refine .bind (writes_writePreset hp) fun b => .ite (fun _ => ?_) fun _ => .pure false
  exact .ite (fun _ => .pure true) fun h => hq (by simpa using h)

end Writing

/-! ## What is settled -/

section Settling

variable {o : Oracle Cell UInt64} {P : Cell → UInt64 → Prop} {cpu : Int}

/-- The items have no mask, and values that `P` allows. -/
def Allowed (P : Cell → UInt64 → Prop) (cpu : Int) (items : List MsrItem) : Prop :=
  ∀ i ∈ items, i.m_mask = MsrItem.kNoMask ∧ P (cpu, i.m_reg) i.m_value

theorem writes_allowed {items : List MsrItem} (h : Allowed P cpu items) :
    ∀ i ∈ items, Writes P (Msr.write o i cpu) :=
  fun i hi => writes_value (h i hi).1 fun _ _ => (h i hi).2

theorem settles_item {item : MsrItem} (hm : item.m_mask = MsrItem.kNoMask)
    (h : P (cpu, item.m_reg) item.m_value) :
    Settles P (cpu, item.m_reg) (· = true) (Msr.write o item cpu) := by
  rw [write_eq hm]
  exact .write o h

theorem settles_writePreset {items : List MsrItem} (h : Allowed P cpu items) {i : MsrItem}
    (hi : i ∈ items) : Settles P (cpu, i.m_reg) (· = true) (writePreset o cpu items) := by
  induction items with
  | nil => cases hi
  | cons j items ih =>
    have htail : Allowed P cpu items := fun k hk => h k (List.mem_cons_of_mem j hk)
    rcases List.mem_cons.mp hi with rfl | hi
    · refine .bind_left (settles_item (h i hi).1 (h i hi).2) (fun a => ?_) fun a b ha => ?_
      · exact .ite (fun _ => writes_writePreset (writes_allowed htail)) fun _ => .pure false
      · cases a with
        | true => rfl
        | false => cases ha
    · refine .bind_right fun a => ?_
      cases a with
      | true => exact ih htail hi
      | false => exact fun b hb => by cases hb

variable {items : List MsrItem} {qos : Bool} {full : Int → Bool}

/-- An item is settled, whatever QoS does. -/
theorem settles_callback (h : Allowed P cpu items)
    (hq : qos = true → Writes P (writeQoS o (full cpu) cpu)) {i : MsrItem} (hi : i ∈ items) :
    Settles P (cpu, i.m_reg) (· = true) (callback o items qos full cpu) := by
  refine .bind_left (settles_writePreset h hi) (fun a => ?_) fun a b ha => ?_
  · refine .ite (fun _ => .ite (fun _ => .pure true) fun hqos => ?_) fun _ => .pure false
    exact hq (by simpa using hqos)
  · cases a with
    | true => rfl
    | false => cases ha

/-- The class of service is settled. -/
theorem settles_class (hqos : qos = true) (hfull : full cpu = true) (h : P (cpu, 0xc8f) 0) :
    Settles P (cpu, 0xc8f) (· = true) (callback o items qos full cpu) := by
  refine .bind_right fun a => ?_
  cases a with
  | false => exact fun b hb => by cases hb
  | true =>
    rw [if_pos rfl, hqos, if_neg (by simp), writeQoS, if_pos hfull]
    exact settles_item rfl h

/-- What is settled on a unit is settled when all are done. -/
theorem settles_writeAll {f : Int → Op Cell UInt64 Bool} {units : List Int} {reg : UInt32}
    (hw : ∀ u ∈ units, Writes P (f u))
    (hs : ∀ u ∈ units, Settles P (u, reg) (· = true) (f u)) {u : Int} (hu : u ∈ units) :
    Settles P (u, reg) (· = true) (Msr.writeAll f units) := by
  induction units with
  | nil => cases hu
  | cons v units ih =>
    have hw' : ∀ u ∈ units, Writes P (f u) := fun u hu => hw u (List.mem_cons_of_mem v hu)
    rcases List.mem_cons.mp hu with rfl | hu
    · refine .bind_left (hs u hu) (fun a => ?_) fun a b ha => ?_
      · exact .ite (fun _ => writes_writeAll hw') fun _ => .pure false
      · cases a with
        | true => rfl
        | false => cases ha
    · refine .bind_right fun a => ?_
      cases a with
      | true => exact ih hw' (fun u hu => hs u (List.mem_cons_of_mem v hu)) hu
      | false => exact fun b hb => by cases hb

end Settling

/-! ## What is saved -/

/-- The items that are saved. -/
def savedOf (value : Cell → UInt64) (first : Int) (preset : List MsrItem) : List MsrItem :=
  preset.map fun i => { m_reg := i.m_reg, m_value := value (first, i.m_reg) }

theorem read_eq (o : Oracle Cell UInt64) (reg : UInt32) (first : Int) (b : Bank Cell UInt64) :
    Msr.read o reg first b =
      (if o.read b.count (first, reg) then { m_reg := reg, m_value := b.value (first, reg) }
        else {}, { b with count := b.count + 1 }) := by
  change (match (Registers.read o (first, reg) b).1 with
    | some value => (pure { m_reg := reg, m_value := value } : Op Cell UInt64 MsrItem)
    | none => pure {}) { b with count := b.count + 1 } = _
  unfold Registers.read
  split_ifs <;> rfl

/-- All is saved behind what is there, or nothing is left. -/
theorem save_eq (o : Oracle Cell UInt64) (first : Int) (preset items : List MsrItem)
    (b : Bank Cell UInt64) :
    ∃ count, save o first preset items b =
      (if readable o first b.count preset then
        (true, items ++ savedOf b.value first preset) else (false, []), ⟨b.value, count⟩) := by
  induction preset generalizing items b with
  | nil => exact ⟨b.count, by simp [save, readable, savedOf]⟩
  | cons i preset ih =>
    have hstep : save o first (i :: preset) items b =
        (if (Msr.read o i.m_reg first b).1.isValid then
          save o first preset (items ++ [(Msr.read o i.m_reg first b).1])
        else pure (false, [])) (Msr.read o i.m_reg first b).2 := rfl
    have hsame : ∀ v, MsrItem.isValid { m_reg := i.m_reg, m_value := v } = i.isValid :=
      fun _ => rfl
    rw [hstep, read_eq]
    dsimp only
    by_cases hread : o.read b.count (first, i.m_reg) = true
    · rw [if_pos hread]
      by_cases hvalid : i.isValid = true
      · obtain ⟨count, heq⟩ := ih
          (items ++ [{ m_reg := i.m_reg, m_value := b.value (first, i.m_reg) }])
          { b with count := b.count + 1 }
        refine ⟨count, ?_⟩
        rw [hsame, if_pos hvalid, heq]
        simp [readable, hread, hvalid, savedOf]
      · refine ⟨b.count + 1, ?_⟩
        rw [hsame, if_neg hvalid]
        simp [readable, hvalid]
    · refine ⟨b.count + 1, ?_⟩
      rw [if_neg hread, if_neg (by decide)]
      simp [readable, hread]

/-! ## Init and destroy -/

section Calls

variable {cpu : CpuInfo} {regs : Cell → UInt64} {s : State} {config : Config} {env : Env}
  {preset items : List MsrItem} {threads : List Int} {qos : Bool} {b : Bank Cell UInt64}

theorem wrmsr_unavailable (h : env.available = false) (save : Bool) :
    wrmsr cpu env preset threads qos save items b = ((false, items), b) := by
  rw [wrmsr, h]
  rfl

/-- All units, with what is left of the bank. -/
def writeUnits (cpu : CpuInfo) (env : Env) (preset : List MsrItem) (threads : List Int)
    (qos : Bool) : Op Cell UInt64 Bool :=
  Msr.writeAll (callback env.oracle preset qos (hasFullCache cpu.units threads)) cpu.units

theorem wrmsr_restore (h : env.available = true) :
    wrmsr cpu env preset threads qos false items b =
      (((writeUnits cpu env preset threads qos b).1, items),
        (writeUnits cpu env preset threads qos b).2) := by
  rw [wrmsr, h]
  rfl

theorem wrmsr_save (h : env.available = true) :
    ∃ count, wrmsr cpu env preset threads qos true items b =
      if readable env.oracle cpu.first b.count preset then
        (((writeUnits cpu env preset threads qos ⟨b.value, count⟩).1,
          items ++ savedOf b.value cpu.first preset),
            (writeUnits cpu env preset threads qos ⟨b.value, count⟩).2)
      else ((false, []), ⟨b.value, count⟩) := by
  obtain ⟨count, heq⟩ := save_eq env.oracle cpu.first preset items b
  have hstep : wrmsr cpu env preset threads qos true items b =
      (if (save env.oracle cpu.first preset items b).1.1 then
        writeUnits cpu env preset threads qos >>= fun ok =>
          pure (ok, (save env.oracle cpu.first preset items b).1.2)
      else pure (false, (save env.oracle cpu.first preset items b).1.2))
        (save env.oracle cpu.first preset items b).2 := by
    rw [wrmsr, h]
    rfl
  refine ⟨count, ?_⟩
  rw [hstep, heq]
  cases readable env.oracle cpu.first b.count preset <;> rfl

/-- What an init that writes its preset allows. -/
def InitWrites (cpu : CpuInfo) (config : Config) (env : Env) (c : Cell) (v : UInt64) : Prop :=
  IsSaved config.msrPreset c.2 ∨ (config.cacheQoS && cpu.hasCatL3) = true ∧
    (c.2 = 0xc8f ∨ c.2 = 0xc91 ∧ hasFullCache cpu.units config.threads c.1 = false ∧
      (v = 0 ∧ (∃ n, env.oracle.write n c 0 = true) ∨
        v = 1 ∧ ∃ n, env.oracle.write n c 0 = false))

theorem init_eq (hread : config.rdmsr = true) (hinit : s.m_initialized = false)
    (hpreset : config.msrPreset ≠ []) {r : (Bool × List MsrItem) × Bank Cell UInt64}
    (hr : wrmsr cpu env config.msrPreset config.threads (config.cacheQoS && cpu.hasCatL3) true
      s.items ⟨s.regs, 0⟩ = r) :
    init cpu config env s =
      { m_cacheQoS := config.cacheQoS && cpu.hasCatL3
        m_enabled := r.1.1
        m_initialized := true
        items := r.1.2
        regs := r.2.value } := by
  have hempty : config.msrPreset.isEmpty = false := by simpa using hpreset
  rw [init, hinit, if_neg (by simp), hempty, if_neg (by simp), hread, ← hr]

/-- What the units get of an init is what it writes. -/
theorem writes_init (cpu : CpuInfo) (config : Config) (env : Env) :
    Writes (InitWrites cpu config env)
      (writeUnits cpu env config.msrPreset config.threads (config.cacheQoS && cpu.hasCatL3)) := by
  refine writes_writeAll fun u _ => writes_callback (fun i hi => ?_) fun hqos => ?_
  · exact writes_item fun v => Or.inl ⟨i, hi, rfl⟩
  · refine writes_writeQoS (fun v _ => ?_) (fun hfull n hok => ?_) fun hfull n hok => ?_
    · exact Or.inr ⟨hqos, Or.inl rfl⟩
    · exact Or.inr ⟨hqos, Or.inr ⟨rfl, hfull, Or.inl ⟨rfl, n, hok⟩⟩⟩
    · exact Or.inr ⟨hqos, Or.inr ⟨rfl, hfull, Or.inr ⟨rfl, n, hok⟩⟩⟩

/-- What an init does: nothing that lasts, or it saves and writes its preset. -/
theorem init_cases (hread : config.rdmsr = true) (hinit : s.m_initialized = false)
    (hpreset : config.msrPreset ≠ []) :
    (init cpu config env s).m_cacheQoS = (config.cacheQoS && cpu.hasCatL3) ∧
    (env.available = false ∧ (init cpu config env s).items = s.items ∧
        (init cpu config env s).regs = s.regs ∨
      env.available = true ∧ readable env.oracle cpu.first 0 config.msrPreset = false ∧
        (init cpu config env s).items = [] ∧ (init cpu config env s).regs = s.regs ∨
      Applied cpu config env ∧
        (init cpu config env s).items = s.items ++ savedOf s.regs cpu.first config.msrPreset ∧
        ∀ c, (init cpu config env s).regs c = s.regs c ∨
          InitWrites cpu config env c ((init cpu config env s).regs c)) := by
  cases havailable : env.available with
  | false =>
    rw [init_eq hread hinit hpreset (wrmsr_unavailable havailable true)]
    exact ⟨rfl, Or.inl ⟨rfl, rfl, rfl⟩⟩
  | true =>
    obtain ⟨count, heq⟩ := wrmsr_save havailable
    rw [init_eq hread hinit hpreset heq]
    refine ⟨rfl, Or.inr ?_⟩
    dsimp only
    cases hreadable : readable env.oracle cpu.first 0 config.msrPreset with
    | false => exact Or.inl ⟨rfl, rfl, rfl, rfl⟩
    | true =>
      exact Or.inr ⟨⟨havailable, hreadable⟩, rfl, writes_init cpu config env ⟨s.regs, count⟩⟩

/-- What a destroy does: it forgets that there was an init, and writes what was saved. -/
theorem destroy_cases (hinit : s.m_initialized = true) :
    (destroy cpu env s).2.m_cacheQoS = s.m_cacheQoS ∧
    (destroy cpu env s).2.items = s.items ∧
    ((destroy cpu env s).2.regs = s.regs ∧
        (s.items = [] ∨ (destroy cpu env s).1 = false) ∨
      s.items ≠ [] ∧
        (destroy cpu env s).1 =
          (writeUnits cpu env s.items [] s.m_cacheQoS ⟨s.regs, 0⟩).1 ∧
        (destroy cpu env s).2.regs =
          (writeUnits cpu env s.items [] s.m_cacheQoS ⟨s.regs, 0⟩).2.value) := by
  rw [destroy, hinit]
  dsimp only
  rw [if_neg (by simp)]
  cases hitems : s.items with
  | nil => exact ⟨rfl, rfl, Or.inl ⟨rfl, Or.inl rfl⟩⟩
  | cons i items =>
    rw [if_neg (by simp)]
    refine ⟨rfl, rfl, ?_⟩
    cases havailable : env.available with
    | false =>
      rw [wrmsr_unavailable havailable]
      exact Or.inl ⟨rfl, Or.inr rfl⟩
    | true =>
      rw [wrmsr_restore havailable]
      exact Or.inr ⟨by simp, rfl, rfl⟩

end Calls

/-! ## The invariant -/

section Invariant

variable {cpu : CpuInfo} {regs : Cell → UInt64} {s : State}

/-- The value from before the run. -/
def Was (regs : Cell → UInt64) (c : Cell) (v : UInt64) : Prop := v = regs c

/-- Every item has what was there on every unit, and what has no item is as it was, unless it
is the class of service that a destroy resets. -/
structure Inv (cpu : CpuInfo) (regs : Cell → UInt64) (s : State) : Prop where
  items : ∀ u ∈ cpu.units, Allowed (Was regs) u s.items
  qos : s.m_cacheQoS = true → ∀ u ∈ cpu.units, regs (u, 0xc8f) = 0
  rest : ∀ u ∈ cpu.units, ∀ r, ¬IsSaved s.items r →
    r = 0xc8f ∧ s.m_cacheQoS = true ∧ s.items ≠ [] ∨ s.regs (u, r) = regs (u, r)

/-- A destroy writes what was there. -/
theorem writes_destroy (I : Inv cpu regs s) {u : Int} (hu : u ∈ cpu.units)
    (o : Oracle Cell UInt64) :
    (∀ i ∈ s.items, Writes (Was regs) (Msr.write o i u)) ∧
      (s.m_cacheQoS = true →
        Writes (Was regs) (writeQoS o (hasFullCache cpu.units [] u) u)) := by
  refine ⟨writes_allowed (I.items u hu), fun hqos => ?_⟩
  refine writes_writeQoS (fun v hv => ?_) (fun h => by cases h) fun h => by cases h
  exact (hv rfl).trans (I.qos hqos u hu).symm

theorem inv_destroy (I : Inv cpu regs s) (env : Env) : Inv cpu regs (destroy cpu env s).2 := by
  cases hinit : s.m_initialized with
  | false =>
    have heq : (destroy cpu env s).2 = s := by rw [destroy, hinit]; rfl
    rw [heq]
    exact I
  | true =>
    obtain ⟨hqos, hitems, hregs⟩ := @destroy_cases cpu s env hinit
    refine ⟨by rw [hitems]; exact I.items, by rw [hqos]; exact I.qos, fun u hu r hr => ?_⟩
    rw [hitems] at hr ⊢
    rw [hqos]
    rcases hregs with ⟨hregs, -⟩ | ⟨-, -, hregs⟩
    · rw [hregs]
      exact I.rest u hu r hr
    · have hwrites : Writes (Was regs) (writeUnits cpu env s.items [] s.m_cacheQoS) :=
        writes_writeAll fun u hu =>
          writes_callback (writes_destroy I hu env.oracle).1 (writes_destroy I hu env.oracle).2
      rw [hregs]
      rcases hwrites ⟨s.regs, 0⟩ (u, r) with h | h
      · rw [h]
        exact I.rest u hu r hr
      · exact Or.inr h

section Init

variable {config : Config} {env : Env} {u : Int} {r : UInt32}

/-- What is neither saved nor in the preset is as it was already, but for QoS. -/
theorem rest_before (I : Inv cpu regs s) (F : FitsInit cpu regs s config env) (hu : u ∈ cpu.units)
    (hr : ¬IsSaved s.items r) (hpre : ¬(env.available = true ∧ IsSaved config.msrPreset r)) :
    r = 0xc8f ∧ (config.cacheQoS && cpu.hasCatL3) = true ∧ s.items ≠ [] ∨
      s.regs (u, r) = regs (u, r) := by
  rcases I.rest u hu r hr with ⟨rfl, -, hne⟩ | h
  · cases hoff : config.cacheQoS && cpu.hasCatL3 with
    | true => exact Or.inl ⟨rfl, rfl, hne⟩
    | false =>
      rcases F.qosOff hoff with h | h | h
      · exact absurd h hr
      · exact absurd h hpre
      · exact Or.inr (h u hu)
  · exact Or.inr h

/-- What an init writes that it has not saved. -/
theorem rest_written (F : FitsInit cpu regs s config env) (happlied : Applied cpu config env)
    (hu : u ∈ cpu.units) (hold : ¬IsSaved s.items r) (hnew : ¬IsSaved config.msrPreset r)
    {v : UInt64} (h : InitWrites cpu config env (u, r) v) :
    r = 0xc8f ∧ (config.cacheQoS && cpu.hasCatL3) = true ∨ v = regs (u, r) := by
  rcases h with h | ⟨hon, rfl | ⟨rfl, hfull, hvalue⟩⟩
  · exact absurd h hnew
  · exact Or.inl ⟨rfl, hon⟩
  · right
    rcases F.leftOut happlied hon hold hnew u hu hfull with ⟨hwas, hok⟩ | ⟨hwas, hrefused⟩
    · rcases hvalue with ⟨hv, -⟩ | ⟨-, n, hn⟩
      · rw [hv, hwas]
      · rw [hok n] at hn
        cases hn
    · rcases hvalue with ⟨-, n, hn⟩ | ⟨hv, -⟩
      · rw [hrefused n] at hn
        cases hn
      · rw [hv, hwas]

theorem inv_init (I : Inv cpu regs s) (hread : config.rdmsr = true)
    (hfits : Fits cpu regs s (.init config env)) : Inv cpu regs (init cpu config env s) := by
  cases hinit : s.m_initialized with
  | true =>
    have heq : init cpu config env s = s := by rw [init, hinit]; rfl
    rw [heq]
    exact I
  | false =>
    by_cases hpreset : config.msrPreset = []
    · have heq : init cpu config env s = { s with m_initialized := true, m_enabled := false } := by
        rw [init, hinit, if_neg (by simp), hpreset]
        rfl
      rw [heq]
      exact ⟨I.items, I.qos, I.rest⟩
    · have F := hfits hinit hpreset
      obtain ⟨hqos, hcases⟩ := @init_cases cpu s config env hread hinit hpreset
      rcases hcases with ⟨hav, hitems, hregs⟩ | ⟨hav, hreadable, hitems, hregs⟩ |
        ⟨happlied, hitems, hregs⟩
      · refine ⟨by rw [hitems]; exact I.items, by rw [hqos]; exact F.qosOn, fun u hu r hr => ?_⟩
        rw [hitems] at hr ⊢
        rw [hqos, hregs]
        exact rest_before I F hu hr fun h => by rw [hav] at h; cases h.1
      · refine ⟨fun u hu i hi => ?_, by rw [hqos]; exact F.qosOn, fun u hu r hr => ?_⟩
        · rw [hitems] at hi
          cases hi
        · rw [hregs]
          exact Or.inr (F.unreadable hav hreadable u hu r)
      · refine ⟨fun u hu i hi => ?_, by rw [hqos]; exact F.qosOn, fun u hu r hr => ?_⟩
        · rw [hitems] at hi
          rcases List.mem_append.mp hi with hi | hi
          · exact I.items u hu i hi
          · obtain ⟨j, hj, rfl⟩ := List.mem_map.mp hi
            exact ⟨rfl, (F.preset happlied j hj u hu).symm⟩
        · rw [hitems] at hr
          have hold : ¬IsSaved s.items r := fun ⟨i, hi, heq⟩ =>
            hr ⟨i, List.mem_append_left _ hi, heq⟩
          have hnew : ¬IsSaved config.msrPreset r := fun ⟨i, hi, heq⟩ =>
            hr ⟨_, List.mem_append_right _ (List.mem_map_of_mem hi), heq⟩
          have hne : (init cpu config env s).items ≠ [] := by
            rw [hitems]
            simp [savedOf, hpreset]
          rw [hqos]
          rcases hregs (u, r) with h | h
          · rw [h]
            exact (rest_before I F hu hold fun h => hnew h.2).imp
              (fun h => ⟨h.1, h.2.1, hne⟩) id
          · exact (rest_written F happlied hu hold hnew h).imp (fun h => ⟨h.1, h.2, hne⟩) id

end Init

/-- The cycles whose steps meet the condition. -/
def restoring (cpu : CpuInfo) (regs : Cell → UInt64) : LTS State Step :=
  (system cpu regs).restrict fun s l => l.Reads ∧ Fits cpu regs s l

theorem inv_inductive (cpu : CpuInfo) (regs : Cell → UInt64) :
    (restoring cpu regs).Inductive (Inv cpu regs) where
  init s hs := by
    obtain rfl : s = { regs := regs } := hs
    exact ⟨fun u _ i hi => absurd hi (by simp), fun h => absurd h (by simp),
      fun u _ r _ => Or.inr rfl⟩
  step s l s' I hs := by
    obtain ⟨⟨hreads, hfits⟩, hnext⟩ := hs
    obtain rfl : next cpu s l = s' := Option.some.inj hnext
    cases l with
    | init config env => exact inv_init I hreads hfits
    | destroy env => exact inv_destroy I env

/-- In every state that is reached by inits and destroys whose inits meet the condition: when
the accesses of a destroy succeed, every register has on every unit the value it had before. -/
theorem destroy_restores (cpu : CpuInfo) (regs : Cell → UInt64) {s : State}
    (hs : (restoring cpu regs).Reachable s) (env : Env) (hinit : s.m_initialized = true)
    (hok : (destroy cpu env s).1 = true) : Restored cpu regs (destroy cpu env s).2 := by
  have I : Inv cpu regs s := (inv_inductive cpu regs).reachable hs
  obtain ⟨-, -, hcases⟩ := @destroy_cases cpu s env hinit
  intro u hu r
  rcases hcases with ⟨hregs, hnone⟩ | ⟨hne, hresult, hregs⟩
  · have hitems : s.items = [] := by
      rcases hnone with h | h
      · exact h
      · rw [h] at hok
        cases hok
    rw [hregs]
    rcases I.rest u hu r (by simp [hitems, IsSaved]) with ⟨-, -, hne⟩ | h
    · exact absurd hitems hne
    · exact h
  · rw [hresult] at hok
    have hwrites : ∀ u ∈ cpu.units, Writes (Was regs)
        (callback env.oracle s.items s.m_cacheQoS (hasFullCache cpu.units []) u) := fun u hu =>
      writes_callback (writes_destroy I hu env.oracle).1 (writes_destroy I hu env.oracle).2
    rw [hregs]
    by_cases hsaved : IsSaved s.items r
    · obtain ⟨i, hi, rfl⟩ := hsaved
      exact settles_writeAll hwrites (fun u hu => settles_callback (I.items u hu)
        (writes_destroy I hu env.oracle).2 hi) hu _ hok
    · rcases I.rest u hu r hsaved with ⟨rfl, hqos, -⟩ | h
      · exact settles_writeAll hwrites
          (fun u hu => settles_class hqos rfl (I.qos hqos u hu).symm) hu _ hok
      · rcases writes_writeAll hwrites ⟨s.regs, 0⟩ (u, r) with hsame | hwas
        · exact hsame.trans h
        · exact hwas

end Invariant

/-! ## Runs -/

/-- Every access succeeds. -/
def allows : Env := ⟨true, fun _ _ => true, fun _ _ _ => true⟩

/-- Nothing can be read. -/
def unreadable : Env := ⟨true, fun _ _ => false, fun _ _ _ => true⟩

/-- No register can be set to 5. -/
def refusing : Env := ⟨true, fun _ _ => true, fun _ _ v => v ≠ 5⟩

def plain : Config := ⟨[{ m_reg := 0x1a4, m_value := 0xf }], false, true, []⟩

/-- The thread on the first unit has the cache. -/
def partition : Config := ⟨[{ m_reg := 0x1a4, m_value := 0xf }], true, true, [0]⟩

def twoUnits : CpuInfo := ⟨0, [1], true⟩

/-- One cycle, and what comes of two units that are alike. -/
theorem destroy_restores_partition :
    Restored twoUnits (fun c => if c.2 = 0x1a4 then 7 else 0)
      (destroy twoUnits allows (init twoUnits partition allows
        { regs := fun c => if c.2 = 0x1a4 then 7 else 0 })).2 := by
  refine destroy_restores twoUnits _ (s := init twoUnits partition allows
    { regs := fun c => if c.2 = 0x1a4 then 7 else 0 }) ?_ allows (by decide) (by decide)
  refine ⟨_, [.init partition allows], rfl, .cons ⟨⟨rfl, fun _ _ => ?_⟩, rfl⟩ (.nil _)⟩
  exact
    { qosOn := fun _ u _ => rfl
      qosOff := fun _ => Or.inr (Or.inr fun u _ => rfl)
      unreadable := fun _ h => absurd h (by decide)
      preset := fun _ i hi u _ => by
        obtain rfl : i = { m_reg := 0x1a4, m_value := 0xf } := by simpa [partition] using hi
        rfl
      leftOut := fun _ _ _ _ u _ _ => Or.inl ⟨rfl, fun _ => rfl⟩ }

/-- After the steps the register is written, a destroy succeeds, and it is not restored. -/
def Leaves (cpu : CpuInfo) (regs : Cell → UInt64) (steps : List Step) (c : Cell) : Prop :=
  let s := steps.foldl (next cpu) { regs := regs }
  c.1 ∈ cpu.units ∧ s.m_initialized = true ∧ s.regs c ≠ regs c ∧
    (destroy cpu allows s).1 = true ∧ (destroy cpu allows s).2.regs c ≠ regs c

instance (cpu : CpuInfo) (regs : Cell → UInt64) (steps : List Step) (c : Cell) :
    Decidable (Leaves cpu regs steps c) := inferInstanceAs (Decidable (_ ∧ _))

/-- A unit that differs from the first; the mask of the other class; the class of service; a
cycle after a destroy that failed; a read that fails after it. -/
theorem destroy_leaves :
    Leaves twoUnits (fun c => if c = (1, 0x1a4) then 5 else 0) [.init plain allows] (1, 0x1a4) ∧
    Leaves twoUnits (fun _ => 3) [.init partition allows] (1, 0xc91) ∧
    Leaves twoUnits (fun _ => 3) [.init partition allows] (0, 0xc8f) ∧
    Leaves twoUnits (fun _ => 5)
      [.init plain allows, .destroy refusing, .init plain allows] (0, 0x1a4) ∧
    Leaves twoUnits (fun _ => 5)
      [.init plain allows, .destroy refusing, .init plain unreadable] (0, 0x1a4) := by
  decide

end Rxs.L2.RxMsr
