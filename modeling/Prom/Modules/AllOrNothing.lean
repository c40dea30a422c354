/-
  Prom.Modules.AllOrNothing — `installed_mods` as a whole, and what it leaves
  open.

  Where the `init`s of the modules leave the error code alone, `installed_mods`
  stops at the first entry that does not load, and nowhere else.  Nothing it
  allocated is lost.  What it has opened stays open: neither `load_module` nor
  `installed_mods` ever closes an object.

  Main results:
    * `installedMods_all_or_nothing` — all entries, or `NULL` and an error.
    * `failed_load_closes_iff` — when a failure leaves no object open: when
      there was none to open.
-/
import Prom.Modules.Listable

namespace Prom.Modules

open Prom.C Exec Heap Dga Errm Posix

variable {P : System} {i : Fin STACK_SIZE} {w : World}

/-! ## §1. All or nothing. -/

/-- The names up to the first that does not load, and that one. -/
def upToFailure (P : System) (fs : FileSys) (cwd : Nat) (D : CStr) : List CStr → List CStr
  | [] => []
  | n :: ns => n :: if (loads P fs cwd (D.append n)).isSome then upToFailure P fs cwd D ns else []

section UpToFailure

variable {fs : FileSys} {cwd : Nat} {D name : CStr} {done rest : List CStr} {ls : List Loaded}

theorem AllLoad.cons_iff {n : CStr} {ns : List CStr} :
    AllLoad P fs cwd D (n :: ns) ls ↔
      ∃ l ls', ls = l :: ls' ∧ loads P fs cwd (D.append n) = some l ∧ AllLoad P fs cwd D ns ls' := by
  constructor
  · intro h
    cases ls with
    | nil => cases h
    | cons l ls =>
      obtain ⟨hl, hls⟩ := List.cons.inj h
      exact ⟨l, ls, rfl, hl, hls⟩
  · rintro ⟨l, ls', rfl, hl, hls⟩
    exact List.cons_eq_cons.mpr ⟨hl, hls⟩

/-- Where all load, none is the first not to. -/
theorem upToFailure_all (h : AllLoad P fs cwd D done ls) : upToFailure P fs cwd D done = done := by
  induction done generalizing ls with
  | nil => rfl
  | cons n ns ih =>
    obtain ⟨l, ls', rfl, hl, hls⟩ := AllLoad.cons_iff.mp h
    rw [upToFailure, hl, Option.isSome_some, if_pos rfl, ih hls]

theorem upToFailure_first (h : AllLoad P fs cwd D done ls)
    (hname : loads P fs cwd (D.append name) = none) :
    upToFailure P fs cwd D (done ++ name :: rest) = done ++ [name] := by
  induction done generalizing ls with
  | nil =>
    rw [List.nil_append, upToFailure, hname, Option.isSome_none, if_neg (by decide), List.nil_append]
  | cons n ns ih =>
    obtain ⟨l, ls', rfl, hl, hls⟩ := AllLoad.cons_iff.mp h
    rw [List.cons_append, upToFailure, hl, Option.isSome_some, if_pos rfl, ih hls, List.cons_append]

theorem AllLoad.all_isSome (h : AllLoad P fs cwd D done ls) {n : CStr} (hn : n ∈ done) :
    (loads P fs cwd (D.append n)).isSome := by
  obtain ⟨k, hk⟩ := List.getElem?_of_mem hn
  obtain ⟨l, -, hl⟩ := h.get hk
  rw [hl]
  rfl

end UpToFailure

/-- An array with a `struct module` for each of the names. -/
structure Filled (P : System) (D : CStr) (w : World) (names : List CStr) (r : Listing) (w' : World) :
    Prop where
  len : ∃ n, r.len = some n ∧ dgaLen r.array w'.heap = .ok n w'.heap ∧ n.toNat = names.length
  entry : ∀ (k : Nat) (name : CStr), names[k]? = some name →
    ∃ l, loads P w.os.fs w.os.cwd (D.append name) = some l ∧
      load (r.array.add (moduleSize.toNat * k)) moduleSize.toNat w'.heap = .ok l.module.cells w'.heap
  live : ∃ b cells, r.array = arrayPtr b ∧ w'.heap.At b cells
  noError : w'.thread.errCode = none

/-- **All or nothing**: `installed_mods` returns a module for each entry iff they
    all load; else it tries the entries up to the first that does not load and
    returns `NULL` and an error.  The names are freed, and the array unless it
    is returned. -/
theorem installedMods_all_or_nothing (hroom : i.val + 4 < STACK_SIZE)
    (hrest : Rests i.val w.thread w.thread) (hgen : w.heap.Generous) {D t : CStr} {rest : List CStr}
    {d : Nat} (hwords : P.wordexp w.os.fs w.os.cwd D = some (t :: rest)) (hopens : opens P w.os t = .ok d)
    (htidy : InitsTidy P) :
    Yields (installedMods P D) w fun r w' =>
      (r.array ≠ .null ↔
        ∀ n ∈ visible (P.order w.os.fs d), (loads P w.os.fs w.os.cwd (D.append n)).isSome) ∧
      (r.array ≠ .null → Filled P D w (visible (P.order w.os.fs d)) r w') ∧
      (r.array = .null → r.len = none ∧ w'.thread.errCode = some .DYN_SHARED_OBJ_ERROR) ∧
      Asked P D w (upToFailure P w.os.fs w.os.cwd D (visible (P.order w.os.fs d))) w' ∧
      ((t :: rest).length < 2 ^ 64 → Leaves (fun c => r.array = arrayPtr c) w.heap w'.heap) ∧
      Rests i.val w.thread w'.thread := by
  refine (installedMods_run hroom hrest hgen hwords hopens).mono ?_
  rintro r w' ⟨hrests, hends⟩
  cases hends with
  | all ls b hload hquiet hr howned hcode hasked =>
    subst hr
    have hne : arrayPtr b ≠ .null := arrayPtr_ne_null b
    have hlen := howned.holds.len
    rw [List.length_map, List.length_nil, Nat.add_zero] at hlen
    obtain ⟨cells, hlive⟩ := howned.at_.live
    rw [upToFailure_all hload]
    refine ⟨⟨fun _ n hn => hload.all_isSome hn, fun _ => hne⟩, fun _ => ⟨?_, ?_, ⟨b, cells, rfl, hlive⟩, hcode⟩,
      fun hnull => absurd hnull hne, hasked, fun hfew => ?_, hrests⟩
    · exact ⟨_, rfl, hlen.1, hlen.2.trans hload.length.symm⟩
    · intro k name hk
      obtain ⟨l, hl, hloads⟩ := hload.get hk
      exact ⟨l, hloads, howned.holds.read (by rw [List.getElem?_map, hl]; rfl)⟩
    · refine howned.leaves.weaken fun c hc => ?_
      rw [hc.resolve_right (Nat.not_le.mpr hfew)]
  | first done name rest' ls e hsplit hload hquiet hcode hr hleaves herr hasked =>
    subst hr
    -- inits are tidy, so the error is that of a name that does not load
    obtain ⟨hnone, rfl⟩ := htidy.loadCode hcode
    rw [hsplit, upToFailure_first hload hnone]
    refine ⟨⟨fun hne => absurd rfl hne, fun hall => ?_⟩, fun hne => absurd rfl hne, fun _ => ⟨rfl, herr⟩,
      hasked, fun hfew => hleaves.weaken fun c hc => absurd hc (Nat.not_le.mpr hfew), hrests⟩
    have hsome := hall name (List.mem_append_right _ List.mem_cons_self)
    rw [hnone] at hsome
    cases hsome

/-- A system that loads file 0; its `init` leaves the error code. -/
def tidySystem : System :=
  { loadingSystem none with
    object := fun _ => ⟨some ⟨.static 1, 0⟩, some ⟨.static 1, 0⟩, some ⟨fun _ c => c, fresh 32, length_fresh 32⟩⟩ }

theorem tidySystem_tidy : InitsTidy tidySystem := by
  intro o init hinit k c
  cases hinit
  rfl

/-- Of a module `x` and a file `y` nothing is returned. -/
theorem mixed_nothing : ∃ r w', installedMods tidySystem mPath (World.start mixedModules 0) = .ok r w' ∧
    r.array = .null := by
  obtain ⟨r, w', hrun, hiff, -⟩ := installedMods_all_or_nothing (P := tidySystem)
    (w := World.start mixedModules 0) (i := ⟨0, by decide⟩) (d := 1) (by decide)
    (rests_start mixedModules 0) (generous_start _ _)
    (show tidySystem.wordexp mixedModules 0 mPath = some [mPath] from rfl) rfl tidySystem_tidy
  refine ⟨r, w', hrun, ?_⟩
  by_contra hne
  exact absurd (hiff.mp hne) (by decide)

/-! ## §2. What stays open. -/

/-- Every object has as many open references as before. -/
def SameRefs (w w' : World) : Prop := ∀ o, w'.os.refs o = w.os.refs o

/-- `load_module` leaves nothing open iff there was nothing to open. -/
theorem loadModule_sameRefs_iff (hg : w.heap.Grants) {name D : CStr} {a : Except Ptr Module} {w' : World}
    (hrun : loadModule P name D w = .ok a w') :
    SameRefs w w' ↔ objectAt P w.os.fs w.os.cwd (some (D.append name)) = none := by
  obtain ⟨a', w'', hrun', -, -, -, htried⟩ := loadModule_answers (P := P) hg name D
  rw [hrun] at hrun'
  cases hrun'
  have hiff := openAll_sameRefs_iff P D [name] w.os
  rw [List.forall_mem_singleton] at hiff
  rw [SameRefs, htried.os]
  exact hiff

/-- An entry all of whose predecessors load is not behind one that leaves an
    error code. -/
theorem first_le {fs : FileSys} {cwd k : Nat} {D name name' : CStr} {done done' rest rest' : List CStr}
    {ls' : List Loaded} {e : ErrorCode} (hsplit : done ++ name :: rest = done' ++ name' :: rest')
    (hload' : AllLoad P fs cwd D done' ls') (hquiet' : Quiet ls' k)
    (hcode : loadCode P fs cwd D (k + done.length) name = some e) : done'.length ≤ done.length := by
  by_contra hlt
  have hname : done'[done.length]? = some name := by
    have hget := congrArg (fun l => l[done.length]?) hsplit
    simp only [List.getElem?_append_right (Nat.le_refl _), Nat.sub_self, List.getElem?_cons_zero] at hget
    rw [hget, List.getElem?_append_left (Nat.not_le.mp hlt)]
  obtain ⟨l, hl, hloads⟩ := hload'.get hname
  rw [loadCode, hloads] at hcode
  cases hcode.symm.trans (hquiet' done.length l hl)

/-- The entries `installed_mods` has opened before it gives up stay open. -/
theorem installedMods_sameRefs_iff (hroom : i.val + 4 < STACK_SIZE)
    (hrest : Rests i.val w.thread w.thread) (hgen : w.heap.Generous) {D t : CStr} {rest : List CStr}
    {d : Nat} (hwords : P.wordexp w.os.fs w.os.cwd D = some (t :: rest)) (hopens : opens P w.os t = .ok d)
    {done later : List CStr} {name : CStr} {ls : List Loaded}
    (hsplit : visible (P.order w.os.fs d) = done ++ name :: later)
    (hload : AllLoad P w.os.fs w.os.cwd D done ls) (hquiet : Quiet ls w.inits)
    (hname : loads P w.os.fs w.os.cwd (D.append name) = none) {r : Listing} {w' : World}
    (hrun : installedMods P D w = .ok r w') :
    r = ⟨.null, none⟩ ∧ (SameRefs w w' ↔
      done = [] ∧ objectAt P w.os.fs w.os.cwd (some (D.append name)) = none) := by
  obtain ⟨r', w'', hrun', -, hends⟩ := installedMods_run hroom hrest hgen hwords hopens
  rw [hrun] at hrun'
  cases hrun'
  cases hends with
  | all ls' b hload' hquiet' hr howned hcode hasked =>
    -- the name would have loaded
    have hsome := hload'.all_isSome (n := name) (by
      rw [hsplit]
      exact List.mem_append_right _ List.mem_cons_self)
    rw [hname] at hsome
    cases hsome
  | first done' name' later' ls' e hsplit' hload' hquiet' hcode hr hleaves herr hasked =>
    have hcode' : loadCode P w.os.fs w.os.cwd D (w.inits + done.length) name =
        some .DYN_SHARED_OBJ_ERROR := by
      rw [loadCode, hname]
    -- there is one first entry to leave a code
    have heq := hsplit.symm.trans hsplit'
    have hlen : done.length = done'.length :=
      Nat.le_antisymm (first_le heq.symm hload hquiet hcode) (first_le heq hload' hquiet' hcode')
    obtain ⟨rfl, htail⟩ := List.append_inj heq hlen
    obtain ⟨rfl, -⟩ := List.cons.inj htail
    refine ⟨hr, ?_⟩
    have hiff := openAll_sameRefs_iff P D (done ++ [name]) w.os.listed
    rw [SameRefs, hasked.opened]
    refine hiff.trans ⟨fun hnone => ⟨?_, ?_⟩, ?_⟩
    · -- an entry that has loaded was opened
      refine List.eq_nil_iff_forall_not_mem.mpr fun n hn => ?_
      have habsent : objectAt P w.os.fs w.os.cwd (some (D.append n)) = none :=
        hnone n (List.mem_append_left _ hn)
      have hsome := hload.all_isSome hn
      rw [loads_absent habsent] at hsome
      cases hsome
    · exact hnone name (List.mem_append_right _ (List.mem_singleton_self _))
    · rintro ⟨rfl, hnone⟩ n hn
      rw [List.nil_append, List.mem_singleton] at hn
      rw [hn]
      exact hnone

/-- **A failure that leaves nothing open**: for `load_module`, that of `dlopen`;
    for `installed_mods`, that of the first entry if it is one of `dlopen`. -/
theorem failed_load_closes_iff (hroom : i.val + 4 < STACK_SIZE)
    (hrest : Rests i.val w.thread w.thread) (hgen : w.heap.Generous) {D t : CStr} {rest : List CStr}
    {d : Nat} (hwords : P.wordexp w.os.fs w.os.cwd D = some (t :: rest)) (hopens : opens P w.os t = .ok d) :
    (∀ name e w', loadModule P name D w = .ok (.error e) w' →
      (SameRefs w w' ↔ objectAt P w.os.fs w.os.cwd (some (D.append name)) = none)) ∧
    ∀ done name later ls r w', visible (P.order w.os.fs d) = done ++ name :: later →
      AllLoad P w.os.fs w.os.cwd D done ls → Quiet ls w.inits →
      loads P w.os.fs w.os.cwd (D.append name) = none → installedMods P D w = .ok r w' →
      r = ⟨.null, none⟩ ∧ (SameRefs w w' ↔
        done = [] ∧ objectAt P w.os.fs w.os.cwd (some (D.append name)) = none) := by
  constructor
  · intro name e w' hrun
    exact loadModule_sameRefs_iff hgen.grants hrun
  · intro done name later ls r w' hsplit hload hquiet hname hrun
    exact installedMods_sameRefs_iff hroom hrest hgen hwords hopens hsplit hload hquiet hname hrun

/-- Where `dlopen` finds nothing, nothing stays open: two files. -/
theorem file_closed : ∃ w', loadModule bareSystem xName mPath (World.start mixedModules 0) =
      .ok (.error bareSystem.message) w' ∧ SameRefs (World.start mixedModules 0) w' := by
  obtain ⟨a, w', hrun, ha, -⟩ := loadModule_error (P := bareSystem) (w := World.start mixedModules 0)
    rfl xName mPath rfl
  subst ha
  exact ⟨w', hrun, ((failed_load_closes_iff (P := bareSystem) (w := World.start mixedModules 0)
    (i := ⟨0, by decide⟩) (d := 1) (by decide) (rests_start mixedModules 0) (generous_start _ _)
    (show bareSystem.wordexp mixedModules 0 mPath = some [mPath] from rfl) rfl).1 _ _ _ hrun).mpr rfl⟩

/-- A system in which every file is a shared object without symbols. -/
def symbollessSystem : System := { bareSystem with inFile := some }

/-- **What stays open**: a shared object without the symbols of a module; the
    module `x`, though nothing is returned because of the file `y`. -/
theorem failed_load_stays_open :
    (∃ e w', loadModule symbollessSystem xName mPath (World.start mixedModules 0) = .ok (.error e) w' ∧
      ¬SameRefs (World.start mixedModules 0) w') ∧
    ∃ r w', installedMods tidySystem mPath (World.start mixedModules 0) = .ok r w' ∧ r.array = .null ∧
      ¬SameRefs (World.start mixedModules 0) w' := by
  constructor
  · obtain ⟨a, w', hrun, ha, -⟩ := loadModule_error (P := symbollessSystem)
      (w := World.start mixedModules 0) rfl xName mPath (by rfl)
    subst ha
    refine ⟨_, w', hrun, fun hsame => ?_⟩
    exact absurd ((loadModule_sameRefs_iff (generous_start _ _).grants hrun).mp hsame) (by decide)
  · -- `x` loads and `y` does not
    obtain ⟨r, w', hrun, -⟩ := installedMods_run (P := tidySystem) (w := World.start mixedModules 0)
      (i := ⟨0, by decide⟩) (d := 1) (by decide) (rests_start mixedModules 0) (generous_start _ _)
      (show tidySystem.wordexp mixedModules 0 mPath = some [mPath] from rfl) rfl
    have hquiet : Quiet [⟨0, ⟨.static 1, 0⟩, ⟨.static 1, 0⟩, ⟨fun _ c => c, fresh 32, length_fresh 32⟩⟩] 0 := by
      intro j l hj
      cases j with
      | zero =>
        cases hj
        rfl
      | succ j => cases hj
    obtain ⟨rfl, hiff⟩ := installedMods_sameRefs_iff (P := tidySystem) (w := World.start mixedModules 0)
      (i := ⟨0, by decide⟩) (d := 1) (by decide) (rests_start mixedModules 0) (generous_start _ _)
      (show tidySystem.wordexp mixedModules 0 mPath = some [mPath] from rfl) rfl
      (show visible _ = [xName] ++ ⟨ascii "y", by decide⟩ :: [] by rfl) (by rfl) hquiet (by rfl) hrun
    exact ⟨_, w', hrun, rfl, fun hsame => absurd (hiff.mp hsame).1 (by decide)⟩

end Prom.Modules
