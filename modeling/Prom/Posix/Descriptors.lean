/-
  Prom.Posix.Descriptors — the descriptor table of a process.

  A descriptor is a number, and what it refers to may be anything.  A file that
  is opened gets the lowest number that is free; `dup2` makes a number refer to
  what another one does; a child of `fork` has a copy of the table.

  Main results:
    * `lowest_free`, `lowest_le` — the number a file gets.
    * `file_dup2` — one equation for `dup2`, whether the numbers differ or not.
    * `lt_second_iff` — where the second of two files goes.
-/
import Mathlib.Data.Nat.Find
import Mathlib.Logic.Function.Basic
import Mathlib.Tactic.Common

namespace Prom.Posix

/-- A descriptor table; from some number on nothing is open. -/
structure Descriptors (F : Type) where
  file : Nat → Option F
  bounded : ∃ bound, ∀ n, bound ≤ n → file n = none

namespace Descriptors

variable {F G : Type} (d : Descriptors F)

/-! ## §1. The calls. -/

theorem exists_free : ∃ n, (d.file n).isNone = true := by
  obtain ⟨bound, hbound⟩ := d.bounded
  exact ⟨bound, by rw [hbound bound (Nat.le_refl bound)]; rfl⟩

/-- The lowest free number. -/
def lowest : Nat := Nat.find d.exists_free

/-- Let `n` refer to `f`, or to nothing. -/
def set (n : Nat) (f : Option F) : Descriptors F where
  file := Function.update d.file n f
  bounded := by
    obtain ⟨bound, hbound⟩ := d.bounded
    refine ⟨max bound (n + 1), fun k hk => ?_⟩
    rw [Function.update_of_ne (by omega)]
    exact hbound k (by omega)

/-- Open a file. -/
def opened (f : F) : Descriptors F := d.set d.lowest (some f)

/-- `close(n)`. -/
def close (n : Nat) : Descriptors F := d.set n none

/-- `dup2(old, new)`; it fails if `old` is not open. -/
def dup2 (old new : Nat) : Option (Descriptors F) :=
  match d.file old with
  | none => none
  | some f => some (if old = new then d else d.set new (some f))

/-- The table with other names for what is open. -/
def map (g : F → G) : Descriptors G where
  file n := (d.file n).map g
  bounded := by
    obtain ⟨bound, hbound⟩ := d.bounded
    exact ⟨bound, fun n hn => by rw [hbound n hn]; rfl⟩

/-! ## §2. What a number refers to afterwards. -/

@[simp] theorem file_set (n k : Nat) (f : Option F) :
    (d.set n f).file k = if k = n then f else d.file k := by
  show Function.update d.file n f k = _
  rw [Function.update_apply]

@[simp] theorem file_opened (f : F) (k : Nat) :
    (d.opened f).file k = if k = d.lowest then some f else d.file k := d.file_set _ k _

@[simp] theorem file_close (n k : Nat) :
    (d.close n).file k = if k = n then none else d.file k := d.file_set n k none

@[simp] theorem file_map (g : F → G) (n : Nat) : (d.map g).file n = (d.file n).map g := rfl

/-- **dup2**, also of a number to itself. -/
theorem file_dup2 {old : Nat} {f : F} (hold : d.file old = some f) (new : Nat) :
    ∃ d', d.dup2 old new = some d' ∧ ∀ k, d'.file k = if k = new then some f else d.file k := by
  unfold dup2
  rw [hold]
  refine ⟨_, rfl, fun k => ?_⟩
  by_cases hsame : old = new
  · rw [if_pos hsame, ← hsame]
    split
    · rename_i hk
      rw [hk, hold]
    · rfl
  · rw [if_neg hsame, file_set]

/-! ## §3. The lowest free number. -/

theorem lowest_free : d.file d.lowest = none := by
  have h := Nat.find_spec d.exists_free
  exact Option.isNone_iff_eq_none.mp h

theorem lowest_le {n : Nat} (h : d.file n = none) : d.lowest ≤ n := by
  apply Nat.find_min'
  rw [h]
  rfl

theorem lowest_map (g : F → G) : (d.map g).lowest = d.lowest := by
  apply Nat.le_antisymm
  · apply lowest_le
    rw [file_map, lowest_free]
    rfl
  · apply lowest_le
    have h := (d.map g).lowest_free
    rwa [file_map, Option.map_eq_none_iff] at h

/-- The number of the second of two files is free before, and another one. -/
theorem second_free (f : F) :
    d.file (d.opened f).lowest = none ∧ (d.opened f).lowest ≠ d.lowest := by
  have h := (d.opened f).lowest_free
  rw [file_opened] at h
  split at h
  · cases h
  · exact ⟨h, ‹_›⟩

/-- **The second of two files** goes behind `k` exactly when at most one number
    up to `k` is free. -/
theorem lt_second_iff (f : F) (k : Nat) :
    k < (d.opened f).lowest ↔ ∀ i j, i ≤ k → j ≤ k → d.file i = none → d.file j = none → i = j := by
  obtain ⟨hfree, hne⟩ := d.second_free f
  have hle : d.lowest ≤ (d.opened f).lowest := d.lowest_le hfree
  constructor
  · intro hlt
    -- whatever is free up to `k` was taken by the first file
    have honly : ∀ i, i ≤ k → d.file i = none → i = d.lowest := by
      intro i hi hnone
      by_contra hother
      have hsecond : (d.opened f).file i = none := by
        rw [file_opened, if_neg hother]
        exact hnone
      have := (d.opened f).lowest_le hsecond
      omega
    intro i j hi hj hinone hjnone
    rw [honly i hi hinone, honly j hj hjnone]
  · intro honly
    by_contra hge
    have hsame := honly d.lowest (d.opened f).lowest (by omega) (by omega) d.lowest_free hfree
    exact hne hsame.symm

end Descriptors

end Prom.Posix
