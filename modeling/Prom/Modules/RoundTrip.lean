/-
  Prom.Modules.RoundTrip — adding a module, listing it and removing it.

  `cmd_arg_add` hands `add_module` a modules path of its own, the empty string;
  `cmd_arg_list` and `cmd_arg_remove` use the global one.  A name without a
  slash behind the empty string is a name in the working directory.

  Main results:
    * `cmdArgAdd_yields` — the link is made in the working directory.
    * `cmdArgRemove_yields` — an entry of the modules directory is removed.
    * `add_list_remove_iff` — when the three commands agree.
    * `added_elsewhere` — a module that is added and not in the store.
-/
import Prom.Modules.Listable
import Prom.Modules.Printing

namespace Prom.Modules

open Prom.C Exec Heap Dga Errm Posix

variable {P : System} {w : World}

/-! ## §1. `cmd_arg_add`. -/

/-- Behind the empty string a path is itself. -/
theorem empty_append (s : CStr) (h : (0 : Byte) ∉ ([] : List Byte)) : (⟨[], h⟩ : CStr).append s = s := rfl

/-- What `cmd_arg_add` leaves of the rest when it has made its attempt. -/
structure AddLeaves (k : Nat) (w w' : World) : Prop where
  cwd : w'.os.cwd = w.os.cwd
  opens : w'.os.calls .opendir = w.os.calls .opendir
  removes : w'.os.calls .remove = w.os.calls .remove
  inits : w'.inits = w.inits + 1
  heap : Keeps w.heap w'.heap
  thread : Rests k w.thread w'.thread

theorem printAddFailure_eq (P : System) (modPath name : CStr) (w : World) :
    ∃ err, printAddFailure P modPath name w = .ok () { w with os := { w.os with err } } := by
  let w₁ : World := { w with os := { w.os with
    err := w.os.err ++ [ascii "Failed to add module from " ++ modPath.bytes ++ ascii ": "] } }
  have hfirst : onOs (printErr (ascii "Failed to add module from " ++ modPath.bytes ++ ascii ": ")) w =
      .ok () w₁ := rfl
  have hget : onOs get w₁ = .ok w₁.os w₁ := onOs_eq (get_apply _)
  rw [printAddFailure, bind_ok hfirst, bind_ok hget]
  by_cases he : w₁.os.errno = .EEXIST
  · simp only [if_pos he]
    exact ⟨_, rfl⟩
  · simp only [if_neg he]
    exact ⟨_, rfl⟩

/-- `unload_module` of a module that was loaded. -/
theorem unloadModule_eq (l : Loaded) (w : World) :
    ∃ p s, unloadModule P l.module w = .ok p { w with os := s } ∧ DlOnly w.os s := by
  obtain ⟨s₁, hclose, hs₁⟩ : ∃ s₁, dlclose (objectPtr l.object) w.os = .ok () s₁ ∧ DlOnly w.os s₁ := by
    by_cases hrefs : w.os.refs l.object = 0
    · exact ⟨_, if_pos hrefs, rfl⟩
    · exact ⟨_, if_neg hrefs, rfl⟩
  obtain ⟨p, s₂, herr, hs₂⟩ : ∃ p s₂, dlerror P s₁ = .ok p s₂ ∧ DlOnly s₁ s₂ := by
    by_cases hfailed : s₁.dlFailed = true
    · exact ⟨_, _, if_pos hfailed, rfl⟩
    · exact ⟨_, _, if_neg hfailed, rfl⟩
  refine ⟨p, s₂, ?_, hs₁.trans hs₂⟩
  have hclose' : onOs (dlclose l.module.dlhandle) w = .ok () { w with os := s₁ } := onOs_eq hclose
  rw [unloadModule, bind_ok hclose']
  exact onOs_eq herr

section Add

variable {i : Fin STACK_SIZE} {a p q n : CStr} {rest : List CStr} {l : Loaded}

/-- The end of `cmd_arg_add`: the module is closed again and the path freed. -/
theorem unload_free_yields {h : Heap} {abs : Ptr} (hown : OwnStr h.blocks.length w.heap abs q)
    (hk : Keeps h w.heap) (l : Loaded) (x : Int) :
    Yields (do
      let _ ← unloadModule P l.module
      onHeap (free abs)
      pure x : Exec World Int) w fun r w' => r = x ∧ DlOnly w.os w'.os ∧ w'.thread = w.thread ∧
        w'.inits = w.inits ∧ Keeps h w'.heap := by
  obtain ⟨e, s, hunload, hos⟩ := unloadModule_eq (P := P) l w
  obtain ⟨h', hfree, hk'⟩ := hown.free hk
  exact Yields.step hunload (Yields.step (onHeap_eq hfree) (Yields.pure ⟨rfl, hos, rfl, rfl, hk'⟩))

/-- That leaves the command where the link left it. -/
theorem AddLeaves.finish {w₃ : World} {abs : Ptr} (hleaves : AddLeaves i.val w w₃)
    (hown : OwnStr w.heap.blocks.length w₃.heap abs q) (l : Loaded) (err : List (List Byte)) (x : Int) :
    Yields (do
      let _ ← unloadModule P l.module
      onHeap (free abs)
      pure x : Exec World Int) { w₃ with os := { w₃.os with err } } fun r w' =>
        r = x ∧ AddLeaves i.val w w' ∧ w'.os.fs = w₃.os.fs := by
  refine (unload_free_yields (w := { w₃ with os := { w₃.os with err } }) hown hleaves.heap l x).mono ?_
  intro r w' ⟨hr, hos, hthread, hinits, hk⟩
  obtain ⟨hfs, hcwd, hcalls, -⟩ := hos.fields
  refine ⟨hr, ⟨hcwd.trans hleaves.cwd, ?_, ?_, hinits.trans hleaves.inits, hk, ?_⟩, hfs⟩
  · rw [hcalls]
    exact hleaves.opens
  · rw [hcalls]
    exact hleaves.removes
  · rw [hthread]
    exact hleaves.thread

/-- **`cmd_arg_add`** of a module: its name is linked as a path of its own. -/
theorem cmdArgAdd_yields (a : CStr) (rest : List CStr) (hroom : i.val + 2 < STACK_SIZE)
    (hrest : Rests i.val w.thread w.thread) (hgen : w.heap.Generous) (hq : absPathOf P w.os.fs w.os.cwd p = some q)
    (hl : loads P w.os.fs w.os.cwd q = some l) (hn : loadStr l.name w.heap = .ok n w.heap) :
    Yields (cmdArgAdd P (a :: p :: rest)) w fun r w' => AddLeaves i.val w w' ∧
      (r = 0 ∧ w.os.fs.symlink w.os.cwd q n.bytes = .ok w'.os.fs ∨
        r = 1 ∧ w'.os.fs = w.os.fs) ∧
      (P.refuse .symlink (w.os.calls .symlink) = none →
        ∀ fs, w.os.fs.symlink w.os.cwd q n.bytes = .ok fs → r = 0) := by
  obtain ⟨abs, w₁, habs, hown, hk₁, hcalm⟩ := absPath_yields hroom hrest hgen hq
  obtain ⟨r₂, w₂, hload, hr₂, hthread₂, hinits₂, htried⟩ := loadModule_ok (P := P) (w := w₁)
    (l := l) (hk₁.generous hgen).grants q ⟨[], by decide⟩
    (by rw [empty_append, hcalm.os]; exact hl)
  subst hr₂
  have hk₂ := htried.keeps
  obtain ⟨hfs₂, hcwd₂, hcalls₂, -⟩ := htried.dlOnly.fields
  rw [hcalm.os] at hfs₂ hcwd₂ hcalls₂
  have hk₀₂ := hk₁.trans hk₂
  have hown₂ := hown.keeps hk₂
  have hname : loadStr l.module.name w₂.heap = .ok n w₂.heap := loadStr_keeps hk₀₂ hn
  -- the link
  obtain ⟨r, s, hlink, hup⟩ := attempt_updates P .symlink (fun fs cwd path => fs.symlink cwd q path)
    (some ((⟨[], by decide⟩ : CStr).append n)) w₂.os
  obtain ⟨r₃, w₃, hadd, hr₃, hos₃, -, hlight⟩ := callOnModPath_granted (symlink P q)
    (hk₀₂.generous hgen).grants hlink
  have hown₃ := hown₂.keeps hlight.heap
  have hrest₃ := hup.rest
  rw [← hos₃] at hrest₃
  -- the link touches the files and errno, nothing else
  have hleaves₃ : AddLeaves i.val w w₃ := by
    refine ⟨?_, ?_, ?_, ?_, hk₀₂.trans hlight.heap, hlight.rests ?_⟩
    · rw [hrest₃]
      exact hcwd₂
    · rw [hrest₃, ← hcalls₂]
      rfl
    · rw [hrest₃, ← hcalls₂]
      rfl
    · rw [hlight.inits, hinits₂, hcalm.inits]
    · rw [hthread₂]
      exact hcalm.thread.setErr _
  refine Yields.step habs ?_
  rw [if_neg hown.ne_null]
  refine Yields.step (onHeap_eq hown.load) (Yields.step hload (Yields.step (onHeap_eq hname)
    (Yields.step (onHeap_eq hown₂.load) (Yields.step ((congrFun (addModule_call P q n _) w₂).trans hadd) ?_))))
  rcases hup.value with ⟨hr, hfs⟩ | ⟨hr, path, hpath, hfs⟩
  · have hfailed : r₃ = -1 := by rw [hr₃, if_pos hr]
    obtain ⟨err, hprint⟩ := printAddFailure_eq P p n w₃
    simp only [if_pos hfailed]
    refine Yields.step hprint ((hleaves₃.finish hown₃ l err 1).mono ?_)
    intro x w' ⟨hx, hleaves, hfs'⟩
    refine ⟨hleaves, .inr ⟨hx, by rw [hfs', hos₃, hfs, hfs₂]⟩, ?_⟩
    intro hrefuse fs hok
    -- then the call could not have failed
    have hrun : onPath (some ((⟨[], by decide⟩ : CStr).append n)) (fun fs cwd path =>
        fs.symlink cwd q path) (w₂.os.count .symlink) = .ok { w₂.os.count .symlink with fs } := by
      show (w₂.os.fs.symlink w₂.os.cwd q n.bytes).map _ = _
      rw [hfs₂, hcwd₂, hok]
      rfl
    rw [attempt_ok (by rw [hcalls₂]; exact hrefuse) hrun] at hlink
    cases hlink
    cases hr
  · have hlinked : ¬r₃ = -1 := by
      rw [hr₃, if_neg (by rw [hr]; decide)]
      decide
    simp only [if_neg hlinked]
    refine (hleaves₃.finish hown₃ l w₃.os.err 0).mono ?_
    intro x w' ⟨hx, hleaves, hfs'⟩
    refine ⟨hleaves, .inl ⟨hx, ?_⟩, fun _ _ _ => hx⟩
    cases hpath
    rw [hfs₂, hcwd₂] at hfs
    rw [hfs', hos₃]
    exact hfs

end Add

/-! ## §2. `cmd_arg_remove`. -/

/-- **`cmd_arg_remove`** returns 0 iff the entry was removed. -/
theorem cmdArgRemove_yields (hg : w.heap.Grants) (a n : CStr) (rest : List CStr) :
    Yields (cmdArgRemove P (a :: n :: rest)) w fun r w' =>
      r = 0 ∧ removed P w.os.cwd (globalModulesPath.append n) (w.os.calls .remove) w.os.fs =
        some w'.os.fs ∨
      r = 1 ∧ removed P w.os.cwd (globalModulesPath.append n) (w.os.calls .remove) w.os.fs = none := by
  obtain ⟨v, s, hremove, -, hfs, hval⟩ := remove_eq P (globalModulesPath.append n) w.os
  obtain ⟨v', w₁, hrm, hv', hos, -, -⟩ := callOnModPath_granted (remove P) hg hremove
  refine Yields.step ((congrFun (rmModule_call P n globalModulesPath) w).trans hrm) ?_
  rcases hval with ⟨hv, hsome⟩ | ⟨hv, hnone⟩
  · rw [if_neg (by rw [hv', hv]; decide)]
    refine Yields.pure (.inl ⟨rfl, ?_⟩)
    obtain ⟨fs, hfs'⟩ := Option.isSome_iff_exists.mp hsome
    rw [hfs', Option.getD_some] at hfs
    rw [hfs', hos, hfs]
  · rw [if_pos (by rw [hv', hv]; decide)]
    have hget : onOs get w₁ = .ok w₁.os w₁ := onOs_eq (get_apply _)
    refine Yields.step hget ?_
    -- the message depends on errno, the result does not
    by_cases he : w₁.os.errno = .ENOENT
    · simp only [if_pos he]
      exact Yields.step rfl (Yields.pure (.inr ⟨rfl, hnone⟩))
    · simp only [if_neg he]
      exact Yields.step rfl (Yields.pure (.inr ⟨rfl, hnone⟩))

/-! ## §3. What a new link loads. -/

section Links

variable {fs fs' : FileSys} {cwd d : Nat} {path path' q n : CStr} {l : Loaded}

/-- What is loaded from a path with a slash is in a file. -/
theorem loads_file (hs : slash ∈ path.bytes) (hl : loads P fs cwd path = some l) :
    ∃ f, fs.resolve cwd path.bytes = .ok (.file f) := by
  rcases loads_cases P fs cwd path with ⟨-, hnone⟩ | ⟨o, ho, -⟩
  · rw [hl] at hnone
    cases hnone
  · rw [objectAt, if_pos hs] at ho
    cases hres : fs.resolve cwd path.bytes with
    | error e =>
      rw [hres] at ho
      cases ho
    | ok x =>
      cases x with
      | dir d =>
        rw [hres] at ho
        cases ho
      | file f => exact ⟨f, rfl⟩

/-- Two paths to one file load the same. -/
theorem loads_congr (hs : slash ∈ path.bytes) (hs' : slash ∈ path'.bytes)
    (h : fs'.resolve cwd path'.bytes = fs.resolve cwd path.bytes) :
    loads P fs' cwd path' = loads P fs cwd path := by
  rw [loads, loads, objectAt, objectAt, if_pos hs, if_pos hs', h]

theorem slash_mem_global (n : CStr) : slash ∈ (globalModulesPath.append n).bytes :=
  List.mem_append_left _ (by decide)

variable (hdir : FileSys.IsDirPath fs cwd globalModulesPath.bytes d)
  (habs : q.bytes.head? = some slash) (hins : fs.insert d n.bytes (.symlink q) = .ok fs')
include hdir habs hins

/-- The entry leads to the file it was made for. -/
theorem link_leads (hl : loads P fs cwd q = some l) :
    fs'.resolve cwd (globalModulesPath.append n).bytes = fs.resolve cwd q.bytes := by
  obtain ⟨f, hf⟩ := loads_file (List.mem_of_mem_head? habs) hl
  rw [hf]
  exact FileSys.resolve_link hdir habs hins hf

theorem link_loads (hl : loads P fs cwd q = some l) :
    loads P fs' cwd (globalModulesPath.append n) = some l := by
  rw [← hl]
  exact loads_congr (List.mem_of_mem_head? habs) (slash_mem_global n)
    (link_leads hdir habs hins hl)

/-- With the new link among them, all entries load. -/
theorem linked_load (hl : loads P fs cwd q = some l)
    (hold : ∀ m ∈ visible (P.order fs d), (loads P fs cwd (globalModulesPath.append m)).isSome) :
    ∃ ls, AllLoad P fs' cwd globalModulesPath (visible (P.order fs' d)) ls := by
  refine allLoad_of_isSome fun m hm => ?_
  obtain ⟨hdot, hthere⟩ := (mem_visible_order P fs' d m).mp hm
  rw [FileSys.lookup_insert hins] at hthere
  by_cases hmn : m = n
  · rw [hmn, link_loads hdir habs hins hl]
    rfl
  · rw [if_neg fun h => hmn (CStr.ext h.2)] at hthere
    have hsome := hold m ((mem_visible_order P fs d m).mpr ⟨hdot, hthere⟩)
    obtain ⟨l', hl'⟩ := Option.isSome_iff_exists.mp hsome
    -- an older entry leads where it led
    obtain ⟨f, hf⟩ := loads_file (slash_mem_global m) hl'
    have hsame : fs'.resolve cwd (globalModulesPath.append m).bytes =
        fs.resolve cwd (globalModulesPath.append m).bytes := by
      rw [hf]
      exact FileSys.resolve_mono (FileSys.insert_extends hins) hf
    rw [loads_congr (slash_mem_global m) (slash_mem_global m) hsame]
    exact hsome

end Links

/-! ## §4. The three commands. -/

/-- The modules directory `d` has gained the entry `n`, a link to `q`; nothing
    else has changed. -/
structure Gained (fs fs' : FileSys) (cwd d : Nat) (n q : CStr) : Prop where
  link : fs'.lookup d n.bytes = some (.symlink q)
  leads : fs'.resolve cwd (globalModulesPath.append n).bytes = fs.resolve cwd q.bytes
  others : ∀ i m, ¬(i = d ∧ m = n.bytes) → fs'.lookup i m = fs.lookup i m

/-- What is expected of the store after `cmd_arg_add` of module `n`, whose
    absolute path is `q`: the entry is there, `cmd_arg_list` prints it, and
    `cmd_arg_remove` then takes it out again. -/
def CommandsAgree (P : System) (d : Nat) (n q : CStr) (listArgv : List CStr) (a : CStr)
    (w w' : World) : Prop :=
  Gained w.os.fs w'.os.fs w.os.cwd d n q ∧
    ∃ w₂, cmdArgList P listArgv w' = .ok 0 w₂ ∧
      nameLine n ∈ w₂.os.out.drop w'.os.out.length ∧
      ∃ w₃, cmdArgRemove P [a, n] w₂ = .ok 0 w₃ ∧ w₃.os.fs.entries d = w.os.fs.entries d

section Agree

variable {i : Fin STACK_SIZE} {a p q n : CStr} {rest listArgv : List CStr} {l : Loaded} {d : Nat}
  {w' : World}

/-- The line of a module that is among those printed. -/
theorem nameLine_mem {h : Heap} {fs : FileSys} {cwd : Nat} {ls : List Loaded}
    {texts : List (CStr × CStr)} {names : List CStr}
    (hload : AllLoad P fs cwd globalModulesPath names ls) (htexts : List.Forall₂ (Named h) ls texts)
    (hn : n ∈ names) (hl : loads P fs cwd (globalModulesPath.append n) = some l)
    (hname : loadStr l.name h = .ok n h) : nameLine n ∈ texts.flatMap moduleLines := by
  obtain ⟨j, hj⟩ := List.getElem?_of_mem hn
  obtain ⟨l', hl', hload'⟩ := hload.get hj
  rw [hl] at hload'
  cases hload'
  obtain ⟨hlt, heq⟩ := List.getElem?_eq_some_iff.mp hl'
  have hlt' : j < texts.length := htexts.length_eq ▸ hlt
  have hnamed := htexts.get hlt hlt'
  rw [List.get_eq_getElem, List.get_eq_getElem, heq] at hnamed
  have htext : texts[j].1 = n := by
    have hsame := hnamed.1.symm.trans hname
    injection hsame
  refine List.mem_flatMap.mpr ⟨texts[j], List.getElem_mem hlt', ?_⟩
  rw [moduleLines, htext]
  exact List.mem_cons_of_mem _ List.mem_cons_self

/-- The removal takes out what the link put in. -/
theorem removed_link {w₂ : World} (hdir : FileSys.IsDirPath w.os.fs w.os.cwd globalModulesPath.bytes d)
    (hplain : PlainName n) (hleaves : AddLeaves i.val w w')
    (hins : w.os.fs.insert d n.bytes (.symlink q) = .ok w'.os.fs) (hlist : ListLeaves i.val w' w₂) :
    removed P w₂.os.cwd (globalModulesPath.append n) (w₂.os.calls .remove) w₂.os.fs =
      if P.refuse .remove (w.os.calls .remove) = none then some w.os.fs else none := by
  rw [hlist.cwd, hlist.removes, hlist.fs, hleaves.cwd, hleaves.removes, removed]
  cases P.refuse .remove (w.os.calls .remove) with
  | some e => rfl
  | none =>
    have hv := (FileSys.insert_eq_ok hins).1
    have hlink : w'.os.fs.lookup d n.bytes = some (.symlink q) := by
      rw [FileSys.lookup_insert hins, if_pos ⟨rfl, rfl⟩]
    have hrem : w'.os.fs.remove w.os.cwd (globalModulesPath.append n).bytes = .ok w.os.fs := by
      show w'.os.fs.remove w.os.cwd (globalModulesPath.bytes ++ n.bytes) = _
      rw [FileSys.remove_append (hdir.extends (FileSys.insert_extends hins)) hplain.2 hplain.1,
        if_neg hv.2.2.2.1, if_neg hv.2.2.2.2.1, hlink, FileSys.erase_insert hins]
    simp only [hrem, if_true]
    rfl

/-- With the link in the modules directory, the rest depends on the listing and
    the removal. -/
theorem linked_agree_iff (hroom : i.val + 4 < STACK_SIZE) (hgen : w.heap.Generous)
    (hword : ∀ fs cwd, P.wordexp fs cwd globalModulesPath = some [globalModulesPath])
    (hexports : Exports P w.heap)
    (hdir : FileSys.IsDirPath w.os.fs w.os.cwd globalModulesPath.bytes d)
    (hold : ∀ m ∈ visible (P.order w.os.fs d),
      (loads P w.os.fs w.os.cwd (globalModulesPath.append m)).isSome)
    (habs : q.bytes.head? = some slash) (hl : loads P w.os.fs w.os.cwd q = some l)
    (hn : loadStr l.name w.heap = .ok n w.heap) (hplain : PlainName n)
    (hdot : n.bytes.head? ≠ some dot)
    (hargv : listArgv.any (·.bytes = ascii "--clean") = false) (hleaves : AddLeaves i.val w w')
    (hins : w.os.fs.insert d n.bytes (.symlink q) = .ok w'.os.fs) :
    CommandsAgree P d n q listArgv a w w' ↔
      P.refuse .opendir (w.os.calls .opendir) = none ∧
      P.refuse .remove (w.os.calls .remove) = none ∧
      QuietListing P w'.os.fs w.os.cwd globalModulesPath d (w.inits + 1) := by
  have hgained : Gained w.os.fs w'.os.fs w.os.cwd d n q := by
    refine ⟨?_, link_leads hdir habs hins hl, ?_⟩
    · rw [FileSys.lookup_insert hins, if_pos ⟨rfl, rfl⟩]
    · intro i m h
      rw [FileSys.lookup_insert hins, if_neg h]
  have hdir' := hdir.extends (FileSys.insert_extends hins)
  have hpath : LeadsTo P w'.os globalModulesPath d := by
    refine ⟨hword _ _, ?_⟩
    rw [hleaves.cwd]
    exact hdir'.leads
  have hgen' := hleaves.heap.generous hgen
  obtain ⟨ls, hload⟩ := linked_load hdir habs hins hl hold
  have hload' : AllLoad P w'.os.fs w'.os.cwd globalModulesPath (visible (P.order w'.os.fs d)) ls := by
    rw [hleaves.cwd]
    exact hload
  rw [quietListing_iff hload, ← hleaves.opens, ← hleaves.inits]
  constructor
  · rintro ⟨-, w₂, hlist, -, w₃, hremove, -⟩
    -- a refused listing makes the command return 1
    have hopen : P.refuse .opendir (w'.os.calls .opendir) = none := by
      cases hrefuse : P.refuse .opendir (w'.os.calls .opendir) with
      | none => rfl
      | some e =>
        have hone := cmdArgList_refused hroom hleaves.thread.refl_of hgen' hargv hpath hrefuse hlist
        cases hone
    obtain ⟨r, w₂', hlist', -, hloud, hleaves₂⟩ := cmdArgList_yields hroom hleaves.thread.refl_of hgen'
      hargv hpath hopen hload' (exports_keeps hexports hleaves.heap)
    rw [hlist] at hlist'
    cases hlist'
    obtain ⟨r, w₃', hremove', hcase⟩ :=
      cmdArgRemove_yields (P := P) (hleaves₂.heap.generous hgen').grants a n []
    rw [hremove] at hremove'
    cases hremove'
    refine ⟨hopen, ?_, ?_⟩
    · rcases hcase with ⟨-, hsome⟩ | ⟨hone, -⟩
      · rw [removed_link hdir hplain hleaves hins hleaves₂] at hsome
        by_contra hrefuse
        rw [if_neg hrefuse] at hsome
        cases hsome
      · cases hone
    · by_contra hq
      cases hloud hq
  · intro ⟨hopen, hrefuse, hq⟩
    obtain ⟨r, w₂, hlist, hquiet, -, hleaves₂⟩ := cmdArgList_yields hroom hleaves.thread.refl_of hgen'
      hargv hpath hopen hload' (exports_keeps hexports hleaves.heap)
    obtain ⟨hr, texts, htexts, hout⟩ := hquiet hq
    subst hr
    obtain ⟨r, w₃, hremove, hcase⟩ :=
      cmdArgRemove_yields (P := P) (hleaves₂.heap.generous hgen').grants a n []
    rw [removed_link hdir hplain hleaves hins hleaves₂, if_pos hrefuse] at hcase
    rcases hcase with ⟨hr, hfs⟩ | ⟨-, hnone⟩
    · subst hr
      refine ⟨hgained, w₂, hlist, ?_, w₃, hremove, ?_⟩
      · rw [hout, List.append_assoc, List.drop_left]
        -- the link is listed, so its name is printed
        have hvis : n ∈ visible (P.order w'.os.fs d) :=
          (mem_visible_order P _ d n).mpr ⟨hdot, by rw [hgained.link]; rfl⟩
        exact List.mem_append_left _ (nameLine_mem hload htexts hvis
          (link_loads hdir habs hins hl) (loadStr_keeps hleaves.heap hn))
      · rw [← Option.some.inj hfs]
    · cases hnone

/-- **When add, list and remove agree**: the working directory is the modules
    directory itself, the system refuses neither the listing nor the removal,
    and no `init` that the listing runs leaves an error code. -/
theorem add_list_remove_iff (hroom : i.val + 4 < STACK_SIZE)
    (hrest : Rests i.val w.thread w.thread) (hgen : w.heap.Generous)
    (hword : ∀ fs cwd, P.wordexp fs cwd globalModulesPath = some [globalModulesPath])
    (hgetcwd : ∀ fs cwd c, P.getcwd fs cwd = some c → c.bytes.head? = some slash)
    (hexports : Exports P w.heap)
    (hdir : FileSys.IsDirPath w.os.fs w.os.cwd globalModulesPath.bytes d)
    (hold : ∀ m ∈ visible (P.order w.os.fs d),
      (loads P w.os.fs w.os.cwd (globalModulesPath.append m)).isSome)
    (hq : absPathOf P w.os.fs w.os.cwd p = some q) (hl : loads P w.os.fs w.os.cwd q = some l)
    (hn : loadStr l.name w.heap = .ok n w.heap) (hplain : PlainName n)
    (hdot : n.bytes.head? ≠ some dot) (hnew : w.os.fs.lookup d n.bytes = none)
    (hargv : listArgv.any (·.bytes = ascii "--clean") = false)
    (hadd : cmdArgAdd P (a :: p :: rest) w = .ok 0 w') :
    CommandsAgree P d n q listArgv a w w' ↔
      w.os.cwd = d ∧ P.refuse .opendir (w.os.calls .opendir) = none ∧
      P.refuse .remove (w.os.calls .remove) = none ∧
      ∀ fs, w.os.fs.insert d n.bytes (.symlink q) = .ok fs →
        QuietListing P fs w.os.cwd globalModulesPath d (w.inits + 1) := by
  have hroom' : i.val + 2 < STACK_SIZE := by omega
  have habs := absPathOf_absolute (hgetcwd _ _) hq
  -- the path the link is made at is relative
  obtain ⟨hleaves, hlink⟩ : AddLeaves i.val w w' ∧
      w.os.fs.insert w.os.cwd n.bytes (.symlink q) = .ok w'.os.fs := by
    obtain ⟨r, w₁, hrun, hleaves, hcase, -⟩ :=
      cmdArgAdd_yields a rest hroom' hrest hgen hq hl hn
    rw [hadd] at hrun
    cases hrun
    rcases hcase with ⟨-, hlink⟩ | ⟨hbad, -⟩
    · exact ⟨hleaves, FileSys.symlink_name_ok hplain.2 hplain.1 hlink⟩
    · cases hbad
  by_cases hcwd : w.os.cwd = d
  · rw [hcwd] at hlink
    rw [linked_agree_iff hroom hgen hword hexports hdir hold habs hl hn hplain hdot hargv hleaves hlink]
    refine ⟨fun ⟨hopen, hrefuse, hquiet⟩ => ⟨hcwd, hopen, hrefuse, ?_⟩,
      fun ⟨_, hopen, hrefuse, hquiet⟩ => ⟨hopen, hrefuse, hquiet _ hlink⟩⟩
    intro fs hfs
    rw [hlink] at hfs
    cases hfs
    exact hquiet
  · -- the link is in the working directory, and the modules directory as it was
    refine ⟨fun ⟨hgained, _⟩ => ?_, fun h => absurd h.1 hcwd⟩
    have hmiss := hgained.link
    rw [FileSys.lookup_insert hlink, if_neg fun h => hcwd h.1.symm, hnew] at hmiss
    cases hmiss

end Agree

/-! ## §5. Examples. -/

/-- `/p` and the empty directory `/home/nullp0tr/.prom/modules`, number 4. -/
def homeModules : FileSys where
  dirs := [⟨0, [(ascii "home", .dir 1), (ascii "p", .file 0)], by decide, by decide, by decide⟩,
    ⟨0, [(ascii "nullp0tr", .dir 2)], by decide, by decide, by decide⟩,
    ⟨1, [(ascii ".prom", .dir 3)], by decide, by decide, by decide⟩,
    ⟨2, [(ascii "modules", .dir 4)], by decide, by decide, by decide⟩,
    emptyDir 3]

/-- `"/p"`. -/
def pPath : CStr := ⟨ascii "/p", by decide⟩

/-- `"module"`, the name of a command. -/
def commandName : CStr := ⟨ascii "module", by decide⟩

/-- A process in directory `cwd`; the string at address 1 is `x`. -/
def homeWorld (cwd : Nat) : World :=
  { World.start homeModules cwd with
    heap := ⟨[], [strCells xName, strCells xName], fun _ => true, 0⟩ }

theorem homeWorld_name {cwd : Nat} {path : CStr} {l : Loaded}
    (hl : loads (loadingSystem none) homeModules cwd path = some l) :
    loadStr l.name (homeWorld cwd).heap = .ok xName (homeWorld cwd).heap := by
  rcases loads_cases (loadingSystem none) homeModules cwd path with ⟨-, hnone⟩ |
    ⟨o, -, ⟨name, desc, init, hname, -, -, hsome⟩ | ⟨-, hnone⟩⟩
  · rw [hl] at hnone
    cases hnone
  · rw [hl] at hsome
    cases hsome
    cases hname
    rfl
  · rw [hl] at hnone
    cases hnone

theorem pPath_loads (cwd : Nat) : ∃ l, loads (loadingSystem none) homeModules cwd pPath = some l :=
  ⟨_, rfl⟩

/-- `/p` is added as `x`, from any directory that has room for it. -/
theorem homeWorld_adds (cwd : Nat) {fs : FileSys}
    (hok : homeModules.symlink cwd pPath xName.bytes = .ok fs) :
    ∃ w', cmdArgAdd (loadingSystem none) [commandName, pPath] (homeWorld cwd) = .ok 0 w' ∧
      w'.os.fs = fs := by
  obtain ⟨l, hl⟩ := pPath_loads cwd
  obtain ⟨r, w', hrun, -, hcase, hzero⟩ := cmdArgAdd_yields (P := loadingSystem none)
    (w := homeWorld cwd) (i := ⟨0, by decide⟩) commandName [] (by decide)
    (rests_start homeModules cwd) (generous_start homeModules cwd) (p := pPath) rfl hl
    (homeWorld_name hl)
  have hr : r = 0 := hzero rfl fs hok
  subst hr
  refine ⟨w', hrun, ?_⟩
  rcases hcase with ⟨-, hfs⟩ | ⟨hone, -⟩
  · exact (Except.ok.inj (hok.symm.trans hfs)).symm
  · cases hone

theorem homeModules_path (cwd : Nat) :
    FileSys.IsDirPath homeModules cwd globalModulesPath.bytes 4 := ⟨by rfl, by rfl⟩

theorem homeWorld_exports (cwd : Nat) : Exports (loadingSystem none) (homeWorld cwd).heap := by
  intro o q hq
  rcases hq with hq | hq
  · cases hq
    exact ⟨xName, rfl⟩
  · cases hq
    exact ⟨xName, rfl⟩

/-- From the modules directory itself, the three commands agree. -/
theorem added_in_store : ∃ w', cmdArgAdd (loadingSystem none) [commandName, pPath] (homeWorld 4) =
      .ok 0 w' ∧
    CommandsAgree (loadingSystem none) 4 xName pPath [commandName] commandName (homeWorld 4) w' := by
  obtain ⟨l, hl⟩ := pPath_loads 4
  obtain ⟨w', hrun, -⟩ := homeWorld_adds 4 rfl
  have hq : absPathOf (loadingSystem none) homeModules 4 pPath = some pPath := rfl
  refine ⟨w', hrun, (add_list_remove_iff (w := homeWorld 4) (i := ⟨0, by decide⟩) (by decide)
    (rests_start homeModules 4) (generous_start homeModules 4) (fun _ _ => rfl)
    (fun _ _ _ h => by cases h) (homeWorld_exports 4) (homeModules_path 4) ?_ hq hl (homeWorld_name hl)
    (by decide) (by decide) (by rfl) (by decide) hrun).mpr ⟨rfl, rfl, rfl, ?_⟩⟩
  · intro m hm
    cases hm
  · intro fs hfs j n l' hn hl'
    rw [loadingSystem_init hl']

/-- **From another directory**: the module is added there, and is not in the
    store. -/
theorem added_elsewhere : ∃ w', cmdArgAdd (loadingSystem none) [commandName, pPath] (homeWorld 0) =
      .ok 0 w' ∧
    w'.os.fs.lookup 0 (ascii "x") = some (.symlink pPath) ∧
    w'.os.fs.lookup 4 (ascii "x") = none := by
  obtain ⟨w', hrun, hfs⟩ := homeWorld_adds 0 rfl
  refine ⟨w', hrun, ?_, ?_⟩
  · rw [hfs]
    rfl
  · rw [hfs]
    rfl

end Prom.Modules
