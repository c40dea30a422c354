/-
  Prom.Modules.Effects — what a command of prom does to the files.

  Whatever memory is refused and however a command ends short of undefined
  behaviour, it makes one link, makes one removal, removes entries that it has
  listed, or leaves the files alone.  Which of these it was, and where, is said
  by what each command returns.

  Main results:
    * `cmdArgAdd_links` — `add` makes a link at the name that the module exports.
    * `cmdArgRemove_removes` — `remove` removes at the modules path.
    * `cmdArgList_cleans` — `list --clean` only takes entries out of the modules
      directory, `list` leaves the files alone.
-/
import Prom.Modules.RoundTrip
import Prom.Modules.Removals

namespace Prom.Modules

open Prom.C Exec Heap Dga Errm Posix

variable {P : System} {w : World} {i : Fin STACK_SIZE}

/-! ## §1. `abs_path` that returns. -/

/-- `getcwd` without a directory or without memory. -/
theorem getcwd_null (hno : P.getcwd w.os.fs w.os.cwd = none ∨ ¬w.heap.Grants) :
    ∃ h, getcwd P w = .ok .null { w with heap := h } := by
  cases hcwd : P.getcwd w.os.fs w.os.cwd with
  | none =>
    refine ⟨w.heap, ?_⟩
    rw [getcwd, bind_ok (onOs_eq (get_apply _)), hcwd]
    rfl
  | some c =>
    have hg : ¬w.heap.Grants := hno.resolve_left (by rw [hcwd]; rintro ⟨⟩)
    refine ⟨w.heap.deny, ?_⟩
    rw [getcwd, bind_ok (onOs_eq (get_apply _)), hcwd]
    show (onHeap (malloc (c.length + 1)) >>= _) w = _
    rw [bind_ok (onHeap_eq (malloc_denied hg _)), if_pos rfl]
    rfl

/-- Then the code takes the length of a null pointer. -/
theorem absPathFromRelative_null (hrest : Rests i.val w.thread w.thread) (path : CStr)
    (hno : P.getcwd w.os.fs w.os.cwd = none ∨ ¬w.heap.Grants) :
    Undefined (absPathFromRelative P path) w := by
  obtain ⟨h, hget⟩ := getcwd_null (w := w.enter i) hno
  have hdefer := InFrame.defer (w := { w.enter i with heap := h }) hrest.enter
    (hrest.2.2 i (Nat.le_refl _)) .free .null
  refine edf_undefined hrest (Undefined.step hget (Undefined.step hdefer ?_))
  exact Undefined.bind (.of_eq (onHeap_stop rfl)) _

/-- `abs_path` has returned: memory is all that was used. -/
structure PathMade (i : Fin STACK_SIZE) (w : World) (p : Ptr) (w' : World) : Prop where
  heap : Keeps w.heap w'.heap
  os : w'.os = w.os
  string : p ≠ .null → ∃ q, OwnStr w.heap.blocks.length w'.heap p q

theorem Failed.pathMade {lost : Prop} {c : ErrorCode} {p : Ptr} {w' : World}
    (hf : Failed i.val lost c w p w') : PathMade i w p w' :=
  ⟨hf.leaves.keeps, hf.os, fun hp => absurd hf.null hp⟩

theorem Made.pathMade {lost : Prop} {s : CStr} {p : Ptr} {w' : World} (hm : Made i.val lost w s p w') :
    PathMade i w p w' :=
  ⟨hm.keeps, hm.calm.os, fun _ => ⟨s, hm.own⟩⟩

/-- A relative word for which there is no working directory. -/
theorem absPath_stranded (hroom : i.val + 2 < STACK_SIZE) (hrest : Rests i.val w.thread w.thread)
    {path t : CStr} {rest : List CStr} (hwords : P.wordexp w.os.fs w.os.cwd path = some (t :: rest))
    (hrel : t.bytes.head? ≠ some slash)
    (hcopy : w.heap.grants (copyRequest w.heap (t :: rest).length) = true)
    (hno : P.getcwd w.os.fs w.os.cwd = none ∨
      w.heap.grants (copyRequest w.heap (t :: rest).length + 1) = false) :
    Undefined (absPath P path) w := by
  have hroom' : i.val + 1 < STACK_SIZE := by omega
  have hin : InFrame i (w.thread.stack i) w.thread (w.enter i).thread := hrest.enter
  obtain ⟨q, w₁, hexpand, hreq, ⟨-, hmade⟩ | ⟨hdenied, -⟩⟩ := expand_cases (i := ⟨i.val + 1, hroom'⟩)
    (w := w.enter i) hroom (hin.called hroom') hwords
  · have hin₁ := hin.back hmade.calm.thread
    have hdefer := InFrame.defer (w := w₁) hin₁ (hrest.2.2 i (Nat.le_refl _)) .free q
    have hin₂ := hin₁.setFrame { w.thread.stack i with dyns := [(.free, q)] }
    refine edf_undefined hrest (Undefined.step hexpand ?_)
    refine Undefined.step (errored_false hmade.calm.noError) (Undefined.step (onHeap_eq hmade.own.load) ?_)
    rw [if_pos hrel]
    refine Undefined.step hdefer ?_
    refine absPathFromRelative_null (P := P) (i := ⟨i.val + 1, hroom'⟩)
      (w := w₁.withFrame i { w.thread.stack i with dyns := [(.free, q)] }) (hin₂.called hroom') t ?_
    -- the directory is asked for with the request behind the copy's
    refine hno.imp (fun hcwd => ?_) fun hno hg => ?_
    · rw [← hcwd]
      exact congrArg (fun s : Os => P.getcwd s.fs s.cwd) hmade.calm.os
    · have hg' : w₁.heap.grants w₁.heap.requests = true := hg
      rw [hmade.keeps.grants, hreq] at hg'
      exact Bool.false_ne_true (hno.symm.trans hg')
  · exact absurd (hdenied.symm.trans hcopy) Bool.false_ne_true

/-- **`abs_path`**, whatever `malloc` answers: it returns or goes wrong. -/
theorem absPath_ends (hroom : i.val + 2 < STACK_SIZE) (hrest : Rests i.val w.thread w.thread)
    (path : CStr) : Ends (absPath P path) w (PathMade i w) fun _ => True := by
  have hwrong : Undefined (absPath P path) w → Ends (absPath P path) w (PathMade i w) fun _ => True :=
    fun ⟨w', hstop⟩ => .inr ⟨w', hstop, trivial⟩
  cases hwords : P.wordexp w.os.fs w.os.cwd path with
  | none =>
    exact .inl ((absPath_refused (by omega) hrest hwords).mono fun p w' hfail => hfail.pathMade)
  | some words =>
    cases words with
    | nil => exact hwrong (absPath_empty (by omega) hrest hwords)
    | cons t rest =>
      by_cases hno : t.bytes.head? ≠ some slash ∧
          w.heap.grants (copyRequest w.heap (t :: rest).length) = true ∧
          (P.getcwd w.os.fs w.os.cwd = none ∨
            w.heap.grants (copyRequest w.heap (t :: rest).length + 1) = false)
      · exact hwrong (absPath_stranded hroom hrest hwords hno.1 hno.2.1 hno.2.2)
      · refine .inl ((absPath_cases hroom hrest hwords fun hrel hcopy => ?_).mono ?_)
        · have hboth := not_or.mp fun h => hno ⟨hrel, hcopy, h⟩
          exact ⟨Option.isSome_iff_ne_none.mpr hboth.1, (Bool.not_eq_false _).mp hboth.2⟩
        · rintro p w' (⟨-, -, s, -, hmade⟩ | ⟨-, hfail⟩)
          · exact hmade.pathMade
          · exact hfail.pathMade

/-! ## §2. `add`. -/

section Files

variable {A : Type} {w' : World}

/-- What leaves the files alone does so when it returns. -/
theorem Still.returns {m : Exec World A} (hm : Still m) (w : World) :
    Returns m w fun _ w' => SameFiles w w' := by
  intro a w' hrun
  have hsame := hm w
  rwa [hrun] at hsame

theorem DlOnly.sameFiles (h : DlOnly w.os w'.os) : SameFiles w w' := ⟨h.fields.1, h.fields.2.1⟩

theorem still_printAddFailure (P : System) (modPath name : CStr) : Still (printAddFailure P modPath name) := by
  intro w
  obtain ⟨err, hprint⟩ := printAddFailure_eq P modPath name w
  rw [hprint]
  exact ⟨rfl, rfl⟩

theorem still_dlerror (P : System) : Still (onOs (dlerror P)) := by
  refine still_onOs fun s => ?_
  unfold dlerror
  split <;> exact ⟨rfl, rfl⟩

theorem still_unloadModule (P : System) (mod : Module) : Still (unloadModule P mod) := by
  refine (still_onOs fun s => ?_).bind fun _ => still_dlerror P
  unfold dlclose
  split
  · split <;> exact ⟨rfl, rfl⟩
  · exact ⟨rfl, rfl⟩

end Files

/-- The string at the symbol `name` of some object. -/
def Exported (P : System) (h : Heap) (n : CStr) : Prop :=
  ∃ o p, (P.object o).name = some p ∧ loadStr p h = .ok n h

/-- A link has been made, at a path some object exports; the status is 0. -/
def LinkMade (P : System) (w : World) (r : Int) (w' : World) : Prop :=
  r = 0 ∧ ∃ q n, Exported P w.heap n ∧ w.os.fs.symlink w.os.cwd q n.bytes = .ok w'.os.fs

section Add

variable {argv : List CStr} {modPath q : CStr} {abs : Ptr} {w₁ : World}

/-- What is loaded comes from an object with a name. -/
theorem loads_exported {path : CStr} {fs : FileSys} {cwd : Nat} {l : Loaded}
    (hl : loads P fs cwd path = some l) : (P.object l.object).name = some l.name := by
  rcases loads_cases P fs cwd path with ⟨-, hnone⟩ |
    ⟨o, -, ⟨name, desc, init, hname, -, -, hsome⟩ | ⟨-, hnone⟩⟩
  · cases hl.symm.trans hnone
  · cases hl.symm.trans hsome
    exact hname
  · cases hl.symm.trans hnone

theorem null_not_mem_nil : (0 : Byte) ∉ ([] : List Byte) := List.not_mem_nil

/-- What `cmd_arg_add` does once the module is loaded. -/
def addLoaded (P : System) (modPath : CStr) (abs : Ptr) (mod : Module) : Exec World Int := do
  let name ← onHeap (loadStr mod.name)
  let am ← addModule P (← onHeap (loadStr abs)) name ⟨[], null_not_mem_nil⟩
  if am = -1 then
    printAddFailure P modPath name
  let _ ← unloadModule P mod
  onHeap (free abs)
  pure (if am = -1 then 1 else 0)

/-- The end of it: only the status is still to be returned. -/
theorem unloaded_returns (mod : Module) (x : Int) (w : World) :
    Returns (do
      let _ ← unloadModule P mod
      onHeap (free abs)
      pure x : Exec World Int) w fun r w' => r = x ∧ SameFiles w w' := by
  refine ((still_unloadModule P mod).returns w).bind fun _ w₁ h₁ => ?_
  refine ((still_onHeap (free abs)).returns w₁).bind fun _ w₂ h₂ => ?_
  exact Returns.pure ⟨rfl, h₁.trans _ _ _ h₂⟩

theorem addLoaded_links (hexports : Exports P w.heap) (hk : Keeps w.heap w₁.heap) (hsame : SameFiles w w₁)
    {l : Loaded} (hobject : (P.object l.object).name = some l.name) :
    Returns (addLoaded P modPath abs l.module) w₁ fun r w' =>
      LinkMade P w r w' ∨ r = 1 ∧ w'.os.fs = w.os.fs := by
  obtain ⟨n, hn⟩ := hexports l.object l.name (.inl hobject)
  have hname : loadStr l.module.name w₁.heap = .ok n w₁.heap := loadStr_keeps hk hn
  refine Returns.step (onHeap_eq hname) ?_
  refine ((still_onHeap (loadStr abs)).returns w₁).bind fun q w₂ h₂ => ?_
  replace h₂ := hsame.trans _ _ _ h₂
  obtain ⟨r, w₃, hrun, hcase, -, -⟩ := callOnModPath_updates P .symlink
    (fun fs cwd path => fs.symlink cwd q path) w₂ n ⟨[], by decide⟩
  refine Returns.step ((congrFun (addModule_call P q n _) w₂).trans hrun) ?_
  rcases hcase with ⟨rfl, hfs⟩ | ⟨rfl, hfs⟩
  · simp only [if_true]
    refine ((still_printAddFailure P modPath n).returns w₃).bind fun _ w₄ h₄ => ?_
    refine (unloaded_returns l.module 1 w₄).mono ?_
    rintro r w' ⟨rfl, h₅⟩
    exact .inr ⟨rfl, by rw [h₅.1, h₄.1, hfs, h₂.1]⟩
  · simp only [if_neg (show ¬(0 : Int) = -1 by decide)]
    refine (unloaded_returns l.module 0 w₃).mono ?_
    rintro r w' ⟨rfl, h₄⟩
    rw [h₂.1, h₂.2] at hfs
    exact .inl ⟨rfl, q, n, ⟨l.object, l.name, hobject, hn⟩, by rw [h₄.1]; exact hfs⟩

/-- **`add` makes one link**, at a path that some object exports, and returns
    0; or it leaves the files and returns 1. -/
theorem cmdArgAdd_links (hroom : i.val + 2 < STACK_SIZE) (hrest : Rests i.val w.thread w.thread)
    (hself : (P.object P.self).name = none) (hexports : Exports P w.heap) :
    Returns (cmdArgAdd P argv) w fun r w' => LinkMade P w r w' ∨ r = 1 ∧ w'.os.fs = w.os.fs := by
  match argv with
  | [] => exact (Returns.fail _ _ _).step rfl
  | [_] => exact (Returns.fail _ _ _).step rfl
  | _ :: modPath :: _ =>
    rcases absPath_ends (P := P) hroom hrest modPath with ⟨abs, w₁, hrun, hmade⟩ | ⟨w₁, hstop, -⟩
    · refine Returns.step hrun ?_
      by_cases habs : abs = .null
      · rw [if_pos habs]
        exact Returns.pure (.inr ⟨rfl, congrArg Os.fs hmade.os⟩)
      · rw [if_neg habs]
        obtain ⟨q, hown⟩ := hmade.string habs
        have hsame₁ : SameFiles w w₁ := ⟨congrArg Os.fs hmade.os, congrArg Os.cwd hmade.os⟩
        refine Returns.step (onHeap_eq hown.load) ?_
        by_cases hl : w₁.heap.Grants → loads P w₁.os.fs w₁.os.cwd ((⟨[], by decide⟩ : CStr).append q) = none
        · -- no module: the message is printed
          obtain ⟨_, w₂, hload, rfl, -, -, htried⟩ := loadModule_refuses q ⟨[], by decide⟩ hl fun _ => hself
          have hsame₂ := hsame₁.trans _ _ _ htried.dlOnly.sameFiles
          refine Returns.step hload ?_
          refine ((still_onHeap (loadStr P.message)).returns w₂).bind fun message w₃ h₃ => ?_
          refine ((still_onOs (m := printErr _) fun s => ⟨rfl, rfl⟩).returns w₃).bind fun _ w₄ h₄ => ?_
          refine ((still_onHeap (free abs)).returns w₄).bind fun _ w₅ h₅ => ?_
          exact Returns.pure (.inr ⟨rfl, by rw [h₅.1, h₄.1, h₃.1, hsame₂.1]⟩)
        · obtain ⟨hg, hl⟩ := Classical.not_imp.mp hl
          obtain ⟨l, hl⟩ := Option.ne_none_iff_exists'.mp hl
          obtain ⟨_, w₂, hload, rfl, -, -, htried⟩ := loadModule_ok hg q ⟨[], by decide⟩ hl
          refine Returns.step hload ?_
          exact addLoaded_links hexports (hmade.heap.trans htried.keeps)
            (hsame₁.trans _ _ _ htried.dlOnly.sameFiles) (loads_exported hl)
    · exact (Undefined.bind (.of_eq hstop) _).returns

end Add

/-! ## §3. `remove`. -/

/-- **`remove` makes one removal**, of the name behind the modules path, and
    returns 0; or it leaves the files and returns 1. -/
theorem cmdArgRemove_removes {argv : List CStr} :
    Returns (cmdArgRemove P argv) w fun r w' =>
      (r = 0 ∧ ∃ n, argv[1]? = some n ∧
        w.os.fs.remove w.os.cwd (globalModulesPath.append n).bytes = .ok w'.os.fs) ∨
      r = 1 ∧ w'.os.fs = w.os.fs := by
  match argv with
  | [] => exact (Returns.fail _ _ _).step rfl
  | [_] => exact (Returns.fail _ _ _).step rfl
  | _ :: n :: _ =>
    obtain ⟨r, w₁, hrun, hcase, -, -⟩ := callOnModPath_updates P .remove FileSys.remove w n globalModulesPath
    refine Returns.step ((congrFun (rmModule_call P n globalModulesPath) w).trans hrun) ?_
    rcases hcase with ⟨rfl, hfs⟩ | ⟨rfl, hfs⟩
    · -- which message is printed depends on errno
      have hprint : ∀ text, Still (onOs (printErr text)) := fun text => still_onOs fun s => ⟨rfl, rfl⟩
      simp only [if_true]
      refine ((still_onOs (m := get) fun s => ⟨rfl, rfl⟩).returns w₁).bind fun s w₂ h₂ => ?_
      by_cases he : s.errno = .ENOENT
      · simp only [if_pos he]
        refine ((hprint _).returns w₂).bind fun _ w₃ h₃ => ?_
        exact Returns.pure (.inr ⟨rfl, by rw [h₃.1, h₂.1, hfs]⟩)
      · simp only [if_neg he]
        refine ((hprint _).returns w₂).bind fun _ w₃ h₃ => ?_
        exact Returns.pure (.inr ⟨rfl, by rw [h₃.1, h₂.1, hfs]⟩)
    · rw [if_neg (show ¬(0 : Int) = -1 by decide)]
      exact Returns.pure (.inl ⟨rfl, n, rfl, hfs⟩)

/-! ## §4. `list`. -/

theorem still_getModPath (modulesPath name : CStr) : Still (getModPath modulesPath name) := by
  refine (still_onThread _).bind fun _ => (still_onHeap _).bind fun p => ?_
  refine Still.ite ((still_onThread _).bind fun _ => still_pure _) (Still.bind ?_ fun _ => still_pure _)
  exact Still.ite (still_pure _) (still_onHeap _)

theorem still_pathArg (p : Ptr) : Still (pathArg p) :=
  Still.ite (still_pure _) ((still_onHeap _).bind fun _ => still_pure _)

theorem still_dlsymChecked {A : Type} (handle : Ptr) (symbol : SharedObject ModInit → Option A) :
    Still (dlsymChecked P handle symbol) := by
  have hsym : Still (onOs (dlsym P handle symbol)) := by
    refine still_onOs fun s => ?_
    unfold dlsym
    split
    · split <;> exact ⟨rfl, rfl⟩
    · exact ⟨rfl, rfl⟩
  refine hsym.bind fun a => (still_dlerror P).bind fun dlerr => ?_
  exact Still.ite ((still_onThread _).bind fun _ => still_pure _) (still_pure _)

theorem still_loadSymbols (dlhandle : Ptr) : Still (loadSymbols P dlhandle) := by
  refine (still_dlsymChecked _ _).bind fun ⟨_, name⟩ => ?_
  cases name with
  | none => exact still_pure _
  | some name =>
    refine (still_dlsymChecked _ _).bind fun ⟨_, desc⟩ => ?_
    cases desc with
    | none => exact still_pure _
    | some desc =>
      refine (still_dlsymChecked _ _).bind fun ⟨_, init⟩ => ?_
      cases init with
      | none => exact still_pure _
      | some init =>
        have hinit : Still (runInit init) := fun w => ⟨rfl, rfl⟩
        exact hinit.bind fun _ => still_pure _

theorem still_loadModule (name modulesPath : CStr) : Still (loadModule P name modulesPath) := by
  have hopen : ∀ path, Still (onOs (dlopen P path)) := by
    intro path
    refine still_onOs fun s => ?_
    unfold dlopen
    split <;> exact ⟨rfl, rfl⟩
  refine (still_onThread _).bind fun _ => (still_getModPath _ _).bind fun path => ?_
  refine (still_pathArg path).bind fun arg => (hopen arg).bind fun dlhandle => ?_
  refine (still_onHeap _).bind fun _ => (still_dlerror P).bind fun dlerr => ?_
  exact Still.ite ((still_onThread _).bind fun _ => still_pure _) (still_loadSymbols _)

theorem still_installedMods (modulesPath : CStr) : Still (installedMods P modulesPath) := by
  have hfail : ∀ p, Still (installedModsFail p) := fun p => (still_onHeap _).bind fun _ => still_pure _
  refine Still.edf ((still_dirContent P _).bind fun names => still_errored.bind fun e => ?_)
  refine Still.ite (still_pure _) ((still_onThread _).bind fun _ => (still_onHeap _).bind fun allMods => ?_)
  refine Still.ite ((still_onThread _).bind fun _ => still_pure _) ?_
  cases names.len with
  | none => exact still_fail _
  | some len =>
    refine Still.loop (fun st => ?_) maxPasses (allMods, 0)
    refine Still.ite ((still_onHeap _).bind fun modName => (still_onHeap _).bind fun tmp => ?_)
      ((still_onHeap _).bind fun _ => still_pure _)
    refine Still.ite ((still_onThread _).bind fun _ => (hfail _).bind fun _ => still_pure _) ?_
    refine (still_onHeap _).bind fun name => (still_loadModule name _).bind fun mod => ?_
    refine still_errored.bind fun e => Still.ite ((hfail _).bind fun _ => still_pure _) ?_
    exact (still_onHeap _).bind fun _ => (still_onHeap _).bind fun _ => still_pure _

section Clean

variable {D : CStr} {d : Nat}

/-- Whatever path there was memory for, a removal takes out one entry or none. -/
theorem Shrunk.removedAt {fs₀ fs : FileSys} {cwd k : Nat} {n : CStr} (h : Shrunk d fs₀ fs)
    (hpath : FileSys.IsDirPath fs cwd D.bytes d) (hn : PlainName n) (grants : Nat → Bool) (q : Nat) :
    Shrunk d fs₀ ((Posix.removedAt P cwd (pathAt D grants q n) k fs).getD fs) := by
  unfold pathAt
  split
  · exact h.removed hpath hn k
  · exact h

/-- **`clean_ul_mod_names` only takes entries out of its directory**, whatever
    memory is refused, and none if it returns `NULL`. -/
theorem cleanUlModNames_shrinks (hroom : i.val + 3 < STACK_SIZE) (hrest : Rests i.val w.thread w.thread)
    (hself : (P.object P.self).name = none)
    (hpath : ∀ fs, Shrunk d w.os.fs fs → FileSys.IsDirPath fs w.os.cwd D.bytes d) :
    Returns (cleanUlModNames P D) w fun r w' =>
      Shrunk d w.os.fs w'.os.fs ∧ (r.array = .null → w'.os.fs = w.os.fs) := by
  by_cases hlist : ∃ t later d', ListsAll P D t later d' w
  · obtain ⟨t, later, d', hwords, hopens, hg, hgrants⟩ := hlist
    let w₁ : World := { w with thread := { w.thread with errCode := none } }
    obtain ⟨r, w₂, hrun, ⟨nb, ncs, rfl, hnames⟩, hos, -, hcode, -, -⟩ :=
      dirContent_returned (w := w₁) hroom (hrest.setErr none) hwords hg hopens hgrants
    replace hos : w₂.os = w.os.listed := hos
    have hstart : Shrunk d w.os.fs w₂.os.fs := by
      rw [hos]
      exact Shrunk.refl d _
    refine Returns.step (onThread_eq (errmClear_eq w.thread)) (Returns.step hrun ?_)
    refine Returns.step (errored_false hcode) ?_
    by_cases hg₂ : w₂.heap.Grants
    · obtain ⟨cells, hnew, hul⟩ := Owned.new hg₂ (Leaves.refl w₂.heap)
      refine Returns.step (onHeap_eq hnew) ?_
      rw [if_neg (arrayPtr_ne_null _)]
      -- along the loop the directory has only lost entries
      have hends := sweeping_loop (P := P) (D := D) (w := { w₂ with heap := w₂.heap.alloc cells })
        (X := fun _ _ _ _ w' => Shrunk d w.os.fs w'.os.fs) (E := fun _ _ => True)
        (.inr hself) hnames.at_ hnames.at_.toNat_length (fun n hn => short_visible hn)
        (Nat.le_trans (length_visible _) (order_length P _ _))
        (fun calls done bad name rest new dropped ul w₃ w₄ hsplit hs hw hpassed => ?_)
        (fun _ _ _ _ _ _ _ _ _ _ _ _ _ _ _ _ => trivial)
        ⟨⟨_, _, rfl, hul⟩, .memory _ .none, rfl, rfl, rfl, rfl, rfl, rfl, ⟨_, rfl⟩, rfl⟩ hstart
      · rcases hends with ⟨r, w', hloop, calls, bad, w₃, ⟨hs, -, rfl⟩, hw⟩ | ⟨w', hloop, -⟩
        · obtain ⟨b, cs, hr, -⟩ := hs.owned
          refine Returns.of_eq hloop ⟨hw, fun hnull => ?_⟩
          rw [hr] at hnull
          exact absurd hnull (arrayPtr_ne_null b)
        · exact (Undefined.of_eq hloop).returns
      · cases hpassed with
        | keep _ _ _ hdl => rwa [hdl.fields.1]
        | drop _ _ _ _ _ _ hfs =>
          rw [hfs]
          have hname : name ∈ visible (P.order w.os.fs d') := by
            rw [hsplit]
            exact List.mem_append_right _ List.mem_cons_self
          have hcwd : w₃.os.cwd = w.os.cwd := by
            rw [hs.cwd, hos]
            rfl
          rw [hcwd]
          exact hw.removedAt (hpath _ hw) (plain_visible hname).1 _ _
    · refine Returns.step (onHeap_eq (dgaNew_denied hg₂ 0 8)) ?_
      rw [if_neg headless_ne_null]
      rcases headless_ends (D := D) hself hnames.at_ with ⟨_, _, _, hfalse⟩ | ⟨w', hloop, -⟩
      · exact hfalse.elim
      · exact (Undefined.of_eq hloop).returns
  · obtain ⟨-, hsame⟩ := clean_unlisted (P := P) (D := D) hroom hrest fun t later d' h => hlist ⟨t, later, d', h⟩
    intro r w' hrun
    rw [hsame r w' hrun]
    exact ⟨Shrunk.refl d _, fun _ => rfl⟩

/-- **`list`** leaves the files alone.  With `--clean` the modules directory may
    have lost entries, in which case 0 is returned. -/
theorem cmdArgList_cleans {argv : List CStr} (hroom : i.val + 3 < STACK_SIZE)
    (hrest : Rests i.val w.thread w.thread) (hself : (P.object P.self).name = none)
    (hpath : ∀ fs, Shrunk d w.os.fs fs → FileSys.IsDirPath fs w.os.cwd globalModulesPath.bytes d) :
    Returns (cmdArgList P argv) w fun r w' =>
      (r = 0 ∧ argv.any (·.bytes = ascii "--clean") = true ∧ Shrunk d w.os.fs w'.os.fs) ∨
        w'.os.fs = w.os.fs := by
  have hprint : ∀ text, Still (onOs (printOut text)) := fun text => still_onOs fun s => ⟨rfl, rfl⟩
  unfold cmdArgList
  split
  · rename_i hclean
    refine (cleanUlModNames_shrinks hroom hrest hself hpath).bind fun damaged w₁ hdamaged => ?_
    by_cases hnull : damaged.array = .null
    · rw [if_pos hnull]
      exact Returns.pure (.inr (hdamaged.2 hnull))
    · rw [if_neg hnull]
      cases damaged.len with
      | none => exact Returns.fail _ _ _
      | some len =>
        have hloop : Still (loop maxPasses (printRemovedPass damaged.array len) 0) := by
          refine Still.loop (fun k => Still.ite ?_ (still_pure _)) maxPasses 0
          exact (still_onHeap _).bind fun _ => (still_onHeap _).bind fun _ => (hprint _).bind fun _ =>
            still_pure _
        refine (hloop.returns w₁).bind fun _ w₂ h₂ => ((still_onHeap _).returns w₂).bind fun _ w₃ h₃ => ?_
        refine Returns.pure (.inl ⟨rfl, hclean, ?_⟩)
        rw [h₃.1, h₂.1]
        exact hdamaged.1
  · -- without it nothing is removed
    refine (Still.returns ((still_installedMods _).bind fun mods =>
      Still.ite (still_pure _) ?_) w).mono fun _ _ h => .inr h.1
    have hloop : Still (loop maxPasses (printModulePass mods.array (mods.len.getD 0)) 0) := by
      refine Still.loop (fun k => Still.ite ?_ (still_pure _)) maxPasses 0
      exact (hprint _).bind fun _ => (still_onHeap _).bind fun _ => (still_onHeap _).bind fun _ =>
        (hprint _).bind fun _ => (still_onHeap _).bind fun _ => (still_onHeap _).bind fun _ =>
        (hprint _).bind fun _ => still_pure _
    exact hloop.bind fun _ => (still_onHeap _).bind fun _ => (hprint _).bind fun _ => still_pure _

end Clean

end Prom.Modules
