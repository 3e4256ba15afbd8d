import Mathlib.Data.List.Nodup
import Afterglow.Model.Basic

/-!
# The CPU pool

Reference: `internal/sandbox/cpu_pool.go`.

A `unix.CPUSet` is the list of its bits. A buffered channel that only one goroutine knows is its
capacity and its contents; sending on it when it is full blocks for good.
-/

namespace Afterglow.Engine

/-! ## Enumerating the CPUs -/

/-- `unix.CPUSet`, of any width. -/
abbrev CPUSet := List Bool

/-- `CPUSet.Count`. -/
def CPUSet.Count (affinity : CPUSet) : ℕ := affinity.count true

/-- `CPUSet.IsSet`. -/
def CPUSet.IsSet (affinity : CPUSet) (cpuID : ℕ) : Bool := affinity.getD cpuID false

/-- `fuel` rounds of the loop of `cpuIDsFromAffinity`; `none` if it has not ended by then. -/
def cpuIDsFromAffinityLoop (affinity : CPUSet) (cpuCount : ℕ) : ℕ → ℕ → List ℕ → Option (List ℕ)
  | 0, _, _ => none
  | fuel + 1, cpuID, cpus =>
    if cpus.length < cpuCount then
      cpuIDsFromAffinityLoop affinity cpuCount fuel (cpuID + 1)
        (if affinity.IsSet cpuID then cpus ++ [cpuID] else cpus)
    else some cpus

/-- The set positions below `cpuID`, in increasing order. -/
def CPUSet.below (affinity : CPUSet) (cpuID : ℕ) : List ℕ := (List.range cpuID).filter affinity.IsSet

theorem CPUSet.below_succ (affinity : CPUSet) (cpuID : ℕ) :
    affinity.below (cpuID + 1) =
      if affinity.IsSet cpuID then affinity.below cpuID ++ [cpuID] else affinity.below cpuID := by
  rw [CPUSet.below, List.range_succ, List.filter_append, List.filter_singleton]
  cases affinity.IsSet cpuID <;> simp [CPUSet.below]

theorem CPUSet.lt_length_of_isSet {affinity : CPUSet} {cpuID : ℕ} (h : affinity.IsSet cpuID = true) :
    cpuID < affinity.length := by
  by_contra hge
  rw [CPUSet.IsSet, List.getD_eq_getElem?_getD, List.getElem?_eq_none (Nat.le_of_not_lt hge)] at h
  exact Bool.false_ne_true h

/-- The population count is the number of set positions. -/
theorem CPUSet.Count_eq_length_below (affinity : CPUSet) :
    affinity.Count = (affinity.below affinity.length).length := by
  induction affinity with
  | nil => rfl
  | cons b bits ih =>
    -- The positions of the tail are those of the whole mask behind its first bit.
    have hshift : ((List.range bits.length).map Nat.succ).filter (CPUSet.IsSet (b :: bits)) =
        (CPUSet.below bits bits.length).map Nat.succ := by
      rw [List.filter_map, CPUSet.below]
      rfl
    rw [CPUSet.below, List.length_cons, List.range_succ_eq_map, List.filter_cons, hshift,
      CPUSet.Count, List.count_cons]
    have hhead : CPUSet.IsSet (b :: bits) 0 = b := rfl
    rw [CPUSet.Count] at ih
    cases b <;> simp [hhead, ih]

/-- A scan that has found them all has passed every set position. -/
theorem CPUSet.below_eq_of_count_le {affinity : CPUSet} {cpuID : ℕ} (hle : cpuID ≤ affinity.length)
    (hcount : affinity.Count ≤ (affinity.below cpuID).length) :
    affinity.below cpuID = affinity.below affinity.length := by
  obtain ⟨n, hn⟩ := Nat.exists_eq_add_of_le hle
  have hsplit : affinity.below affinity.length =
      affinity.below cpuID ++ ((List.range n).map (cpuID + ·)).filter affinity.IsSet := by
    rw [CPUSet.below, hn, List.range_add, List.filter_append]
    rfl
  rw [affinity.Count_eq_length_below, hsplit, List.length_append] at hcount
  have hrest : ((List.range n).map (cpuID + ·)).filter affinity.IsSet = [] :=
    List.length_eq_zero_iff.mp (by omega)
  rw [hsplit, hrest, List.append_nil]

/-- The invariant of the loop is that `cpus` holds the set positions below `cpuID`. -/
theorem cpuIDsFromAffinityLoop_spec (affinity : CPUSet) {fuel cpuID : ℕ}
    (hle : cpuID ≤ affinity.length) (hfuel : affinity.length < fuel + cpuID) :
    cpuIDsFromAffinityLoop affinity affinity.Count fuel cpuID (affinity.below cpuID) =
      some (affinity.below affinity.length) := by
  induction fuel generalizing cpuID with
  | zero => omega
  | succ fuel ih =>
    rw [cpuIDsFromAffinityLoop]
    split
    case isTrue hlt =>
      have hne : cpuID ≠ affinity.length := by
        rintro rfl
        rw [affinity.Count_eq_length_below] at hlt
        exact Nat.lt_irrefl _ hlt
      rw [← CPUSet.below_succ]
      exact ih (by omega) (by omega)
    case isFalse hge => rw [CPUSet.below_eq_of_count_le hle (by omega)]

/-- The loop ends within one round more than the mask is wide. -/
theorem cpuIDsFromAffinityLoop_isSome (affinity : CPUSet) :
    (cpuIDsFromAffinityLoop affinity affinity.Count (affinity.length + 1) 0 []).isSome := by
  have h : cpuIDsFromAffinityLoop affinity affinity.Count (affinity.length + 1) 0 [] = _ :=
    cpuIDsFromAffinityLoop_spec affinity (Nat.zero_le _) (by omega)
  rw [h, Option.isSome_some]

/-- `cpuIDsFromAffinity`. -/
def cpuIDsFromAffinity (affinity : CPUSet) : List ℕ :=
  (cpuIDsFromAffinityLoop affinity affinity.Count (affinity.length + 1) 0 []).get
    (cpuIDsFromAffinityLoop_isSome affinity)

/-- However many rounds beyond the width are allowed, the loop ends with the same list. -/
theorem cpuIDsFromAffinityLoop_eq (affinity : CPUSet) {fuel : ℕ} (hfuel : affinity.length < fuel) :
    cpuIDsFromAffinityLoop affinity affinity.Count fuel 0 [] = some (cpuIDsFromAffinity affinity) := by
  rw [cpuIDsFromAffinity, Option.some_get]
  exact (cpuIDsFromAffinityLoop_spec affinity (Nat.zero_le _) hfuel).trans
    (cpuIDsFromAffinityLoop_spec affinity (Nat.zero_le _) (by omega)).symm

theorem cpuIDsFromAffinity_eq_below (affinity : CPUSet) :
    cpuIDsFromAffinity affinity = affinity.below affinity.length := by
  refine Option.some.inj ?_
  rw [← cpuIDsFromAffinityLoop_eq affinity (Nat.lt_succ_self _)]
  exact cpuIDsFromAffinityLoop_spec affinity (Nat.zero_le _) (by omega)

theorem cpuIDsFromAffinity_increasing (affinity : CPUSet) :
    (cpuIDsFromAffinity affinity).Pairwise (· < ·) := by
  rw [cpuIDsFromAffinity_eq_below]
  exact List.pairwise_lt_range.filter _

theorem mem_cpuIDsFromAffinity {affinity : CPUSet} {cpuID : ℕ} :
    cpuID ∈ cpuIDsFromAffinity affinity ↔ affinity.IsSet cpuID = true := by
  rw [cpuIDsFromAffinity_eq_below, CPUSet.below, List.mem_filter, List.mem_range]
  exact ⟨fun h => h.2, fun h => ⟨CPUSet.lt_length_of_isSet h, h⟩⟩

/-- The pool starts with distinct CPUs. -/
theorem cpuIDsFromAffinity_nodup (affinity : CPUSet) : (cpuIDsFromAffinity affinity).Nodup :=
  (cpuIDsFromAffinity_increasing affinity).imp Nat.ne_of_lt

/-! ## Filling the pool -/

/-- A buffered channel. -/
structure Chan (α : Type) where
  capacity : ℕ
  buffer : List α
  fits : buffer.length ≤ capacity

namespace Chan

variable {α : Type}

/-- `make(chan α, capacity)`. -/
def make (capacity : ℕ) : Chan α := ⟨capacity, [], Nat.zero_le _⟩

/-- `ch <- x`; `none` if it blocks. -/
def send (ch : Chan α) (x : α) : Option (Chan α) :=
  if h : ch.buffer.length < ch.capacity then
    some ⟨ch.capacity, ch.buffer ++ [x], by simpa using Nat.succ_le_of_lt h⟩
  else none

/-- `for _, x := range xs { ch <- x }`; `none` if a send blocks. -/
def sendAll (ch : Chan α) (xs : List α) : Option (Chan α) := xs.foldlM send ch

/-- Sends that fit do not block. -/
theorem sendAll_fits {ch : Chan α} {xs : List α} (h : ch.buffer.length + xs.length ≤ ch.capacity) :
    ∃ hfits, ch.sendAll xs = some ⟨ch.capacity, ch.buffer ++ xs, hfits⟩ := by
  induction xs generalizing ch with
  | nil => exact ⟨by simpa using h, by simp [sendAll]⟩
  | cons x xs ih =>
    rw [List.length_cons] at h
    have hsend : ch.send x = some ⟨ch.capacity, ch.buffer ++ [x], by simp; omega⟩ :=
      dif_pos (by omega)
    obtain ⟨hfits, hrest⟩ := @ih ⟨ch.capacity, ch.buffer ++ [x], by simp; omega⟩ (by simp; omega)
    refine ⟨by simp; omega, ?_⟩
    rw [sendAll, List.foldlM_cons, hsend]
    simp only [sendAll, List.append_assoc, List.singleton_append] at hrest
    exact hrest

end Chan

/-- `newCPUPoolFromIDs`; `none` if one of its own sends blocks. -/
def newCPUPoolFromIDs (cpus : List ℕ) : Option (Except Err (Chan ℕ)) :=
  if cpus.length = 0 then some (.error (.text "cpu affinity contains no available CPUs"))
  else ((Chan.make cpus.length).sendAll cpus).map .ok

/-- `newCPUPool`, given what `unix.SchedGetaffinity` did. -/
def newCPUPool (affinity : Except Err CPUSet) : Option (Except Err (Chan ℕ)) :=
  match affinity with
  | .error e => some (.error (.wrap "get CPU affinity" e))
  | .ok affinity => newCPUPoolFromIDs (cpuIDsFromAffinity affinity)

/-- A pool of any CPUs at all is full of them. -/
theorem newCPUPoolFromIDs_eq {cpus : List ℕ} (h : cpus ≠ []) :
    newCPUPoolFromIDs cpus = some (.ok ⟨cpus.length, cpus, Nat.le_refl _⟩) := by
  have hroom : (Chan.make cpus.length : Chan ℕ).buffer.length + cpus.length ≤ cpus.length := by
    simp [Chan.make]
  obtain ⟨hfits, hsent⟩ := Chan.sendAll_fits hroom
  rw [newCPUPoolFromIDs, if_neg (by simpa using h), hsent]
  rfl

end Afterglow.Engine
