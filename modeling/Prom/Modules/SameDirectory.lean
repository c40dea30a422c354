/-
  Prom.Modules.SameDirectory — listing a directory and acting on its entries.

  `mod_names` expands the path of the directory and opens what comes of it.
  `load_module` and `rm_module` put the name behind the path as it is written.
  `Denotes` says that what comes of this stands for the entry that was listed.

  Main results:
    * `denotes_append_iff` — only behind a path that ends in a slash and leads
      there as it is written.
    * `listed_is_acted_on_iff` — a listing, and what can be done to its names.
-/
import Prom.Modules.AllOrNothing

namespace Prom.Modules

open Prom.C Exec Heap Dga Errm Posix

variable {P : System} {w : World} {D n : CStr} {d : Nat}

/-! ## §1. The entry a path stands for. -/

/-- The path stands for the entry `n` of directory `d`; to `dlopen` it is a path
    and not the name of a library. -/
structure Denotes (fs : FileSys) (cwd d : Nat) (path n : CStr) : Prop where
  place : fs.place cwd path.bytes = some (d, n.bytes)
  searched : slash ∈ path.bytes

theorem denotes_append_iff {fs : FileSys} {cwd : Nat} (hn : PlainName n) :
    Denotes fs cwd d (D.append n) n ↔ FileSys.IsDirPath fs cwd D.bytes d := by
  constructor
  · rintro ⟨hplace, hslash⟩
    have hD : slash ∈ D.bytes := (List.mem_append.mp hslash).resolve_right hn.2
    exact (FileSys.place_append_iff hD hn.2 hn.1).mp hplace
  · intro h
    have hlast : D.bytes.getLast? = some slash := of_decide_eq_true h.slash_last
    exact ⟨h.place hn.2 hn.1, List.mem_append_left _ (List.mem_of_getLast? hlast)⟩

/-- The shared object in the file an entry leads to. -/
def entryObject (P : System) (fs : FileSys) (d : Nat) (n : CStr) : Option Nat :=
  match fs.walk fs.links d [n.bytes] with
  | .ok (.file f) => P.inFile f
  | _ => none

/-- What is removed is what the path stands for. -/
theorem remove_place {fs fs' : FileSys} {cwd : Nat} {p : List Byte} (h : fs.remove cwd p = .ok fs') :
    ∃ d' n', fs.place cwd p = some (d', n') ∧ fs' = fs.erase d' n' := by
  rw [FileSys.remove] at h
  split at h
  · cases h
  · rw [FileSys.place]
    -- what is removed is named by the last component
    cases hlast : (components p).getLast? with
    | none =>
      rw [hlast] at h
      cases h
    | some m =>
      rw [hlast] at h
      cases hres : fs.resolveParent cwd p with
      | error e =>
        rw [hres] at h
        cases h
      | ok x =>
        cases x with
        | file f =>
          rw [hres] at h
          cases h
        | dir d' =>
          rw [hres] at h
          refine ⟨d', m, rfl, ?_⟩
          simp only at h
          split at h
          · cases h
          · split at h
            · cases h
            · split at h
              · cases h
              · split at h <;> cases h
                rfl
              · split at h <;> cases h
                rfl

/-! ## §2. Acting on it. -/

/-- `rm_module` removes the entry unless the system refuses to, and `load_module`
    asks for the object it leads to. -/
structure ActsOn (P : System) (D : CStr) (d : Nat) (n : CStr) (w : World) : Prop where
  removes : P.refuse .remove (w.os.calls .remove) = none →
    (∀ d', w.os.fs.lookup d n.bytes = some (.dir d') → w.os.fs.entries d' = []) →
    ∃ w', rmModule P n D w = .ok 0 w' ∧ w'.os.fs = w.os.fs.erase d n.bytes
  loads : ∃ a w', loadModule P n D w = .ok a w' ∧ w'.os = w.os.tried P (some (D.append n)) ∧
    objectAt P w.os.fs w.os.cwd (some (D.append n)) = entryObject P w.os.fs d n

/-- Behind a path to its directory an entry is acted on. -/
theorem actsOn_entry (hg : w.heap.Grants) (hdir : FileSys.IsDirPath w.os.fs w.os.cwd D.bytes d)
    (hn : PlainName n) (hhead : n.bytes.head? ≠ some dot) (hthere : (w.os.fs.lookup d n.bytes).isSome) :
    ActsOn P D d n w := by
  constructor
  · intro hr hempty
    -- a visible name is neither of the two entries remove refuses
    have hdot : n.bytes ≠ [dot] ∧ n.bytes ≠ [dot, dot] := by
      constructor <;> (intro heq; rw [heq] at hhead; exact hhead rfl)
    have hremove : w.os.fs.remove w.os.cwd (D.append n).bytes = .ok (w.os.fs.erase d n.bytes) := by
      show w.os.fs.remove w.os.cwd (D.bytes ++ n.bytes) = _
      rw [FileSys.remove_append hdir hn.2 hn.1, if_neg hdot.1, if_neg hdot.2]
      cases he : w.os.fs.lookup d n.bytes with
      | none =>
        rw [he] at hthere
        cases hthere
      | some e =>
        cases e with
        | dir d' => exact if_pos (hempty d' he)
        | file f => rfl
        | symlink t => rfl
    have hcall : attempt P .remove (onPath (some (D.append n)) FileSys.remove) w.os =
        .ok 0 { w.os.count .remove with fs := w.os.fs.erase d n.bytes } := by
      refine attempt_ok hr ?_
      exact congrArg (Except.map _) hremove
    have hyields : Yields (callOnModPath (remove P) n D) w fun r w' =>
        r = 0 ∧ w'.os = { w.os.count .remove with fs := w.os.fs.erase d n.bytes } :=
      (callOnModPath_granted (remove P) hg hcall).mono fun _ _ h => ⟨h.1, h.2.1⟩
    obtain ⟨r, w', hrun, hret, hos⟩ := hyields
    refine ⟨w', ?_, by rw [hos]⟩
    rw [rmModule_call, hrun, hret]
  · obtain ⟨a, w', hrun, -, -, -, htried⟩ := loadModule_answers (P := P) hg n D
    refine ⟨a, w', hrun, htried.os, ?_⟩
    -- the loader looks the path up as it is, for it has a slash
    have hslash := ((denotes_append_iff hn).mpr hdir).searched
    have hres : w.os.fs.resolve w.os.cwd (D.append n).bytes = w.os.fs.walk w.os.fs.links d [n.bytes] :=
      hdir.resolve_append hn.2 hn.1
    rw [objectAt, if_pos hslash, hres]
    rfl

/-- What does not stand for the entry does not remove it. -/
theorem rmModule_elsewhere (hno : w.os.fs.place w.os.cwd (D.append n).bytes ≠ some (d, n.bytes)) {r : Int}
    {w' : World} (hrun : rmModule P n D w = .ok r w') :
    w'.os.fs.lookup d n.bytes = w.os.fs.lookup d n.bytes := by
  obtain ⟨r', w'', hrun', hval, -⟩ := callOnModPath_updates P .remove FileSys.remove w n D
  replace hrun' : rmModule P n D w = .ok r' w'' := hrun'
  rw [hrun] at hrun'
  cases hrun'
  rcases hval with ⟨-, hfs⟩ | ⟨-, hok⟩
  · rw [hfs]
  · obtain ⟨d', n', hplace, hfs⟩ := remove_place hok
    rw [hfs, FileSys.lookup_erase, if_neg]
    rintro ⟨rfl, rfl⟩
    exact hno hplace

/-! ## §3. After a listing. -/

/-- **Listing and acting use the same directory** iff its path, as it is written,
    ends in a slash and leads there; or nothing is listed. -/
theorem listed_is_acted_on_iff {i : Fin STACK_SIZE} (hroom : i.val + 3 < STACK_SIZE)
    (hrest : Rests i.val w.thread w.thread) (hgen : w.heap.Generous) {t : CStr} {later : List CStr}
    (hwords : P.wordexp w.os.fs w.os.cwd D = some (t :: later)) (hopens : opens P w.os t = .ok d) :
    Yields (modNames P D) w fun r w' =>
      Reads w'.heap r (visible (P.order w.os.fs d)) ∧ w'.os = w.os.listed ∧
      ((∀ n ∈ visible (P.order w.os.fs d), Denotes w'.os.fs w'.os.cwd d (D.append n) n) ↔
        visible (P.order w.os.fs d) = [] ∨ FileSys.IsDirPath w.os.fs w.os.cwd D.bytes d) ∧
      ∀ n ∈ visible (P.order w.os.fs d),
        (Denotes w'.os.fs w'.os.cwd d (D.append n) n → ActsOn P D d n w') ∧
        (w'.os.fs.place w'.os.cwd (D.append n).bytes ≠ some (d, n.bytes) →
          ∀ ret w'', rmModule P n D w' = .ok ret w'' →
            w''.os.fs.lookup d n.bytes = w'.os.fs.lookup d n.bytes) := by
  refine (dirContent_granted hroom hrest hgen hwords hopens).mono ?_
  intro r w' hret
  obtain ⟨hlisted, hk⟩ := hret.listed
  have hfs : w'.os.fs = w.os.fs ∧ w'.os.cwd = w.os.cwd := by
    rw [hret.os]
    exact ⟨rfl, rfl⟩
  refine ⟨hlisted.reads, hret.os, ?_, fun n hn => ⟨fun hden => ?_, fun hno ret w'' hrun => ?_⟩⟩
  · rw [hfs.1, hfs.2]
    constructor
    · intro hall
      -- one listed name is enough to tell where the path leads
      cases hnames : visible (P.order w.os.fs d) with
      | nil => exact .inl rfl
      | cons n ns =>
        have hn : n ∈ visible (P.order w.os.fs d) := by
          rw [hnames]
          exact List.mem_cons_self
        exact .inr ((denotes_append_iff (plain_visible hn).1).mp (hall n hn))
    · rintro (hnil | hdir) n hn
      · rw [hnil] at hn
        cases hn
      · exact (denotes_append_iff (plain_visible hn).1).mpr hdir
  · obtain ⟨hplain, hthere⟩ := plain_visible hn
    exact actsOn_entry (hk.generous hgen).grants ((denotes_append_iff hplain).mp hden) hplain
      ((mem_visible_order P _ d n).mp hn).1 (by rw [hfs.1]; exact hthere)
  · exact rmModule_elsewhere hno hrun

/-- `/m/` with a module `x`. -/
theorem good_acted_on : ∃ r w', modNames tidySystem mPath (World.start goodModules 0) = .ok r w' ∧
    ∀ n ∈ visible (tidySystem.order goodModules 1), ActsOn tidySystem mPath 1 n w' := by
  obtain ⟨r, w', hrun, -, -, hiff, hacts⟩ := listed_is_acted_on_iff (P := tidySystem)
    (w := World.start goodModules 0) (i := ⟨0, by decide⟩) (D := mPath) (d := 1) (by decide)
    (rests_start goodModules 0) (generous_start _ _)
    (show tidySystem.wordexp goodModules 0 mPath = some [mPath] from rfl) rfl
  exact ⟨r, w', hrun, fun n hn => (hacts n hn).1 (hiff.mpr (.inr ⟨rfl, rfl⟩) n hn)⟩

/-- `"/m"`. -/
def mDirPath : CStr := ⟨ascii "/m", by decide⟩

/-- **Without the slash** the directory is listed all the same; its module `x` is
    neither found nor removed. -/
theorem acted_on_elsewhere : ∃ r w', modNames tidySystem mDirPath (World.start goodModules 0) = .ok r w' ∧
    Reads w'.heap r [xName] ∧ (loads tidySystem goodModules 0 (mPath.append xName)).isSome ∧
    (∃ ret w'', rmModule tidySystem xName mDirPath w' = .ok ret w'' ∧
      (w''.os.fs.lookup 1 xName.bytes).isSome) ∧
    ∃ e w'', loadModule tidySystem xName mDirPath w' = .ok (.error e) w'' := by
  have hexpands : tidySystem.wordexp goodModules 0 mDirPath = some [mDirPath] := rfl
  obtain ⟨r, w', hrun, hret⟩ := dirContent_returned (P := tidySystem) (w := World.start goodModules 0)
    (i := ⟨0, by decide⟩) (d := 1) (by decide) (rests_start goodModules 0) hexpands rfl rfl fun _ _ => rfl
  obtain ⟨hlisted, hk⟩ := hret.listed
  have hg : w'.heap.Grants := (hk.generous (generous_start _ _)).grants
  have hfs : w'.os.fs = goodModules ∧ w'.os.cwd = 0 := by
    rw [hret.os]
    exact ⟨rfl, rfl⟩
  refine ⟨r, w', hrun, hlisted.reads, by decide, ?_, ?_⟩
  · obtain ⟨w'', hrm, -⟩ := rmModule_eq (P := tidySystem) xName mDirPath w'
    refine ⟨_, w'', hrm, ?_⟩
    rw [rmModule_elsewhere (d := 1) (by rw [hfs.1, hfs.2]; decide) hrm, hfs.1]
    decide
  · obtain ⟨a, w'', hload, ha, -⟩ := loadModule_error (P := tidySystem) hg xName mDirPath
      (by rw [hfs.1, hfs.2]; rfl)
    subst ha
    exact ⟨_, w'', hload⟩

end Prom.Modules
