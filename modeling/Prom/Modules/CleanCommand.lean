/-
  Prom.Modules.CleanCommand — what `prom module list --clean` reports.

  The command prints `Removed: x` for every name `clean_ul_mod_names` returns,
  and that function does not look at what `remove` answers.  So a line says
  that the entry was refused by `load_module`, and nothing of whether it is
  still there; the next cleaning tells.

  Main results:
    * `printRemoved_loop` — one line for each name of the array.
    * `clean_reports` — the lines of one command, and nothing left of it.
    * `cleanings_report` — what a series of cleanings prints.
-/
import Prom.Modules.Sessions

namespace Prom.Modules

open Prom.C Exec Heap Dga Errm Posix

variable {P : System} {w : World}

/-! ## §1. The loop that prints. -/

section Loop

variable {b k : Nat} {cs : List Nat} {names : List CStr} {n : CStr}

/-- One pass prints one name. -/
theorem printRemovedPass_eq (hn : NamesAt w.heap b cs names []) (hk : names[k]? = some n) :
    printRemovedPass (arrayPtr b) (BitVec.ofNat 64 names.length) k w =
      .ok (.inl (k + 1)) { w with os := Os.printed w.os [removedLine n] } := by
  obtain ⟨hlt, -⟩ := List.getElem?_eq_some_iff.mp hk
  obtain ⟨c, hc⟩ : ∃ c, cs[k]? = some c := ⟨_, List.getElem?_eq_getElem (by rw [hn.length]; exact hlt)⟩
  have hptr : onHeap (loadPtr ((arrayPtr b).add (8 * k))) w = .ok (arrayPtr c) w := onHeap_eq (hn.elem hc)
  have hstr : onHeap (loadStr (arrayPtr c)) w = .ok n w := onHeap_eq (hn.names k c n hc hk).load
  rw [printRemovedPass, if_pos (by rw [hn.toNat_length]; exact hlt), bind_ok hptr, bind_ok hstr,
    bind_ok (printOut_eq w (removedLine n))]
  rfl

/-- **The loop prints every name**, in order, and changes nothing else. -/
theorem printRemoved_loop (hn : NamesAt w.heap b cs names []) (hfew : names.length < maxPasses) :
    Yields (loop maxPasses (printRemovedPass (arrayPtr b) (BitVec.ofNat 64 names.length)) 0) w fun _ w' =>
      w' = { w with os := Os.printed w.os (names.map removedLine) } := by
  refine Yields.over (I := fun done _ k w' => k = done.length ∧
    w' = { w with os := Os.printed w.os (done.map removedLine) }) ?_ ?_ hfew ⟨rfl, ?_⟩
  · rintro done n rest k w' rfl ⟨rfl, rfl⟩
    have hk : (done ++ n :: rest)[done.length]? = some n := by
      rw [List.getElem?_append_right (Nat.le_refl _), Nat.sub_self, List.getElem?_cons_zero]
    refine Yields.of_eq (printRemovedPass_eq hn hk) ⟨?_, ?_⟩
    · rw [List.length_append, List.length_singleton]
    · simp only [Os.printed, List.map_append, List.map_cons, List.map_nil, List.append_assoc]
  · rintro k w' ⟨rfl, rfl⟩
    rw [printRemovedPass, if_neg (by rw [hn.toNat_length]; exact Nat.lt_irrefl _)]
    exact Yields.pure ⟨(), rfl, rfl⟩
  · simp only [Os.printed, List.map_nil, List.append_nil]

end Loop

/-! ## §2. One command. -/

/-- The calls of a cleaning print nothing. -/
theorem CallsMade.out {D : CStr} {calls : List ModCall} {w' : World} (h : CallsMade P D w calls w') :
    w'.os.out = w.os.out := by
  induction h with
  | none => rfl
  | memory h made ih => exact ih
  | load made asks run ih =>
    rw [asks.2]
    exact ih
  | @remove calls w₁ w₂ name path ret made asks run ih =>
    obtain ⟨v, hasks⟩ := asks.2
    obtain ⟨s, hremove, hrest, -⟩ := removeAt_eq P path w₁.os
    obtain ⟨-, rfl⟩ := Result.ok.inj (hasks.symm.trans hremove)
    rw [hrest]
    exact ih

/-- What `list --clean` leaves: a line for each of these names, each of which
    it asked to be removed; the path of the directory has `n` words. -/
structure CleanLeaves (P : System) (k n : Nat) (names : List CStr) (w w' : World) : Prop where
  out : w'.os.out = w.os.out ++ names.map removedLine
  fs : w'.os.fs = afterRemovals P w.os.cwd globalModulesPath names (w.os.calls .remove) w.os.fs
  removes : w'.os.calls .remove = w.os.calls .remove + names.length
  cwd : w'.os.cwd = w.os.cwd
  heap : Leaves (fun _ => 2 ^ 64 ≤ n) w.heap w'.heap
  thread : Rests k w.thread w'.thread

section Command

variable {i : Fin STACK_SIZE} {argv later : List CStr} {t : CStr} {d : Nat}

/-- **`cmd_arg_list` with `--clean`**: a line for each entry refused, in the
    order of the listing. -/
theorem cmdArgList_leaves (hroom : i.val + 3 < STACK_SIZE) (hrest : Rests i.val w.thread w.thread)
    (hgen : w.heap.Generous) (hargv : argv.any (·.bytes = ascii "--clean") = true)
    (hwords : P.wordexp w.os.fs w.os.cwd globalModulesPath = some (t :: later))
    (hopens : opens P w.os t = .ok d) :
    Yields (cmdArgList P argv) w fun r w' => r = 0 ∧
      CleanLeaves P i.val (t :: later).length (refusedNames P w.os.cwd globalModulesPath
        (visible (P.order w.os.fs d)) (w.os.calls .remove) w.os.fs) w w' := by
  rw [cmdArgList, if_pos hargv]
  refine (cleanUlModNames_selects hroom hrest hgen hwords hopens).bind ?_
  rintro r w₁ ⟨calls, bad, hsel⟩
  obtain ⟨b, cs, rfl, howned⟩ := hsel.result
  obtain ⟨w₂, w₃, hlisted, -, hmade, hos⟩ := hsel.made
  have hout : w₁.os.out = w.os.out := by
    rw [hos, hmade.out, hlisted]
    rfl
  have hfew : bad.length < maxPasses := by
    rw [← howned.at_.toNat_length]
    exact BitVec.isLt _
  rw [← hsel.names_eq]
  show Yields (if arrayPtr b = .null then _ else _) w₁ _
  rw [if_neg (arrayPtr_ne_null b)]
  refine (printRemoved_loop howned.at_ hfew).bind ?_
  rintro _ w₄ rfl
  -- the names are printed and given back
  obtain ⟨⟨-, hfree⟩, hleaves⟩ := howned.frees
  refine Yields.step (onHeap_eq hfree) (Yields.pure ⟨rfl, ?_, hsel.fs, hsel.removes, hsel.cwd, hleaves,
    hsel.thread⟩)
  rw [← hout]
  rfl

/-- Where every entry loads, none is refused. -/
theorem refusedNames_nil {cwd k : Nat} {D : CStr} {ns : List CStr} {fs : FileSys} {ls : List Loaded}
    (h : AllLoad P fs cwd D ns ls) : refusedNames P cwd D ns k fs = [] := by
  induction ns generalizing ls with
  | nil => rfl
  | cons n ns ih =>
    cases ls with
    | nil => cases h
    | cons l ls =>
      obtain ⟨hhead, htail⟩ := List.cons_eq_cons.mp h
      rw [refusedNames, show loads P fs cwd (D.append n) = some l from hhead]
      exact ih htail

/-- A command line that cleans. -/
theorem cmdMain_clean (P : System) (shellMain : List CStr → Exec World Int)
    (hcommand : command argv = .list true) :
    ∃ args, cmdMain P shellMain argv = cmdArgList P args ∧ args.any (·.bytes = ascii "--clean") = true := by
  have hcases := cmdMain_cases P shellMain argv
  rwa [hcommand] at hcases

end Command

/-! ## §3. Cleaning again and again. -/

/-- Another process finds the same objects and words; what it is refused, and
    the order of its listings, are its own. -/
structure Alike (P Q : System) : Prop where
  wordexp : Q.wordexp = P.wordexp
  object : Q.object = P.object
  inFile : Q.inFile = P.inFile
  soname : Q.soname = P.soname

/-- prom, one invocation after the other, answered by the status and by what it
    has printed. -/
def promPrints (shellMain : List CStr → Exec World Int) :
    Machine FileSys Invocation (Int × List (List Byte)) where
  step fs inv :=
    match cmdMain inv.system shellMain inv.argv (inv.world fs) with
    | .ok status w => (w.os.fs, [(status, w.os.out)])
    | .stop (.exit status) w => (w.os.fs, [(status, w.os.out)])
    | .stop _ w => (w.os.fs, [])

/-- An invocation that cleans: memory is granted and the directory opened. -/
structure Cleans (P : System) (inv : Invocation) : Prop where
  command : command inv.argv = .list true
  alike : Alike P inv.system
  memory : inv.heap.Generous
  opened : inv.system.refuse .opendir 0 = none

/-- Broken entries of the modules directory may be gone, and nothing else. -/
structure Thinned (P : System) (d : Nat) (fs fs' : FileSys) : Prop where
  shrunk : Shrunk d fs fs'
  others : ∀ m, (∀ n ∈ broken P fs 0 globalModulesPath d, m ≠ n.bytes) → fs'.lookup d m = fs.lookup d m

section Series

variable {P Q : System} {d cwd : Nat} {fs fs' fs'' : FileSys} {D n : CStr}
  {inv : Invocation}

theorem Alike.loads (h : Alike P Q) (fs : FileSys) (cwd : Nat) (path : CStr) :
    Modules.loads Q fs cwd path = Modules.loads P fs cwd path := by
  have hat : objectAt Q fs cwd (some path) = objectAt P fs cwd (some path) := by
    rw [objectAt, objectAt, h.inFile, h.soname]
  rw [Modules.loads, Modules.loads, hat, h.object]

theorem Shrunk.trans (h : Shrunk d fs fs') (h' : Shrunk d fs' fs'') : Shrunk d fs fs'' :=
  ⟨h.same.trans h'.same, fun n e he => h.sub n e (h'.sub n e he)⟩

theorem Shrunk.isSome (h : Shrunk d fs fs') {m : Name} (hm : (fs'.lookup d m).isSome) :
    (fs.lookup d m).isSome := by
  obtain ⟨e, he⟩ := Option.isSome_iff_exists.mp hm
  rw [h.sub m e he]
  rfl

/-- What is fixed stays so for every process, whatever entries are gone. -/
theorem FixedModules.alike (hfixed : FixedModules P fs cwd D d) (h : Alike P Q) (hs : Shrunk d fs fs') :
    FixedModules Q fs' cwd D d := by
  refine ⟨fun fs'' h'' => ?_, fun fs'' h'' => hfixed.path fs'' (hs.trans h''), fun fs'' h'' n hthere => ?_⟩
  · rw [h.wordexp]
    exact hfixed.plain fs'' (hs.trans h'')
  · rw [h.loads, h.loads, hfixed.same fs'' (hs.trans h'') n hthere,
      hfixed.same fs' hs n (h''.isSome hthere)]

/-- An entry loads the same from every working directory. -/
theorem loads_anywhere (hpath : FileSys.IsDirPath fs cwd globalModulesPath.bytes d)
    (hpath' : FileSys.IsDirPath fs 0 globalModulesPath.bytes d) (hn : PlainName n) :
    loads P fs cwd (globalModulesPath.append n) = loads P fs 0 (globalModulesPath.append n) := by
  have hres : fs.resolve cwd (globalModulesPath.append n).bytes =
      fs.resolve 0 (globalModulesPath.append n).bytes :=
    (hpath.resolve_append hn.2 hn.1).trans (hpath'.resolve_append hn.2 hn.1).symm
  rw [loads, loads, objectAt, objectAt, if_pos (slash_mem_global n), if_pos (slash_mem_global n), hres]

/-- What a process finds broken is what was broken at first and is still there. -/
theorem mem_broken_iff (hfixed : ∀ cwd, FixedModules P fs cwd globalModulesPath d) (h : Alike P Q)
    (hs : Shrunk d fs fs') : n ∈ broken Q fs' cwd globalModulesPath d ↔
      n ∈ broken P fs 0 globalModulesPath d ∧ (fs'.lookup d n.bytes).isSome := by
  have hrefl := Shrunk.refl d fs
  have hmem : ∀ {R : System} {g : FileSys} {c : Nat}, n ∈ broken R g c globalModulesPath d ↔
      (n.bytes.head? ≠ some dot ∧ (g.lookup d n.bytes).isSome) ∧ fails R g c globalModulesPath n = true := by
    intro R g c
    rw [broken, List.mem_filter, mem_visible_order]
  rw [hmem, hmem]
  -- an entry that is there was there, and loads the same
  have hstill : n.bytes.head? ≠ some dot → (fs'.lookup d n.bytes).isSome →
      (fs.lookup d n.bytes).isSome ∧
        fails Q fs' cwd globalModulesPath n = fails P fs 0 globalModulesPath n := by
    intro hdot hthere
    have hbefore := hs.isSome hthere
    have hplain := (plain_visible ((mem_visible_order P fs d n).mpr ⟨hdot, hbefore⟩)).1
    refine ⟨hbefore, ?_⟩
    rw [fails, fails, h.loads, (hfixed cwd).same fs' hs n hthere,
      loads_anywhere ((hfixed cwd).path fs hrefl) ((hfixed 0).path fs hrefl) hplain]
  constructor
  · rintro ⟨⟨hdot, hthere⟩, hfails⟩
    obtain ⟨hbefore, hsame⟩ := hstill hdot hthere
    exact ⟨⟨⟨hdot, hbefore⟩, hsame.symm.trans hfails⟩, hthere⟩
  · rintro ⟨⟨⟨hdot, -⟩, hfails⟩, hthere⟩
    exact ⟨⟨hdot, hthere⟩, (hstill hdot hthere).2.trans hfails⟩

/-- One cleaning: a line for each entry found broken. -/
theorem step_cleans (shellMain : List CStr → Exec World Int)
    (hfixed : ∀ cwd, FixedModules P fs cwd globalModulesPath d) (ht : Thinned P d fs fs')
    (hc : Cleans P inv) :
    ∃ names : List CStr, ((promPrints shellMain).step fs' inv).2 = [(0, names.map removedLine)] ∧
      names.Nodup ∧ (∀ n, n ∈ names ↔ n ∈ broken P fs 0 globalModulesPath d ∧
        (fs'.lookup d n.bytes).isSome) ∧
      Thinned P d fs ((promPrints shellMain).step fs' inv).1 := by
  have hfixed' : FixedModules inv.system fs' inv.cwd globalModulesPath d :=
    (hfixed inv.cwd).alike hc.alike ht.shrunk
  have hpath := hfixed'.path fs' (Shrunk.refl d fs')
  obtain ⟨args, hmain, hargs⟩ := cmdMain_clean inv.system shellMain hc.command
  obtain ⟨r, w, hrun, rfl, hleaves⟩ := cmdArgList_leaves (P := inv.system) (w := inv.world fs')
    (i := ⟨0, by decide⟩) (by decide) (rests_start fs' inv.cwd) hc.memory hargs
    (hfixed'.plain fs' (Shrunk.refl d fs')) (opens_ok hc.opened hpath.leads)
  -- the entries do not depend on each other: those refused are those broken
  have hnames : refusedNames inv.system (inv.world fs').os.cwd globalModulesPath
      (visible (inv.system.order (inv.world fs').os.fs d)) ((inv.world fs').os.calls .remove)
      (inv.world fs').os.fs = broken inv.system fs' inv.cwd globalModulesPath d :=
    refusedNames_fixed hfixed' (Shrunk.refl d fs') (fun n hn => (plain_visible hn).1)
      (nodup_visible inv.system fs' d) fun n hn => (plain_visible hn).2
  rw [hnames] at hleaves
  have hstep : (promPrints shellMain).step fs' inv = (w.os.fs, [(0, w.os.out)]) := by
    simp only [promPrints, hmain, hrun]
  have hplain : ∀ n ∈ broken inv.system fs' inv.cwd globalModulesPath d, PlainName n :=
    fun n hn => (plain_broken n hn).1
  have hpaths := fun fs'' h'' => hfixed'.path fs'' h''
  refine ⟨broken inv.system fs' inv.cwd globalModulesPath d, ?_, (nodup_visible inv.system fs' d).filter _,
    fun n => mem_broken_iff hfixed hc.alike ht.shrunk, ?_⟩
  · rw [hstep, hleaves.out]
    rfl
  · rw [hstep, hleaves.fs]
    refine ⟨ht.shrunk.trans (shrunk_afterRemovals hpaths (Shrunk.refl d fs') hplain), fun m hm => ?_⟩
    rw [← ht.others m hm]
    exact lookup_afterRemovals hpaths (Shrunk.refl d fs') hplain fun n hn =>
      hm n ((mem_broken_iff hfixed hc.alike ht.shrunk).mp hn).1

/-- **WHAT A SERIES OF CLEANINGS PRINTS.**  Where every entry of the modules
directory loads, or fails to, whatever other entries are gone, each invocation —
from any directory, with any removals refused and any order of listing, but with
memory and a directory that is opened — returns 0 and prints `Removed: x` once
for exactly those entries, broken at first, that no earlier one has got rid of.
So a line of one invocation comes again in the next if and only if it was not
true.  Every other entry is as it was at the end. -/
theorem cleanings_report (shellMain : List CStr → Exec World Int)
    (hfixed : ∀ cwd, FixedModules P fs cwd globalModulesPath d) (series : List Invocation)
    (hcleans : ∀ inv ∈ series, Cleans P inv) :
    (∀ before inv after, series = before ++ inv :: after →
      ∃ names : List CStr,
      ((promPrints shellMain).step ((promPrints shellMain).after fs before) inv).2 =
        [(0, names.map removedLine)] ∧ names.Nodup ∧
      ∀ n, n ∈ names ↔ n ∈ broken P fs 0 globalModulesPath d ∧
        (((promPrints shellMain).after fs before).lookup d n.bytes).isSome) ∧
    (∀ e m, (e = d → ∀ n ∈ broken P fs 0 globalModulesPath d, m ≠ n.bytes) →
      ((promPrints shellMain).after fs series).lookup e m = fs.lookup e m) := by
  have hthinned : ∀ before : List Invocation, (∀ inv ∈ before, Cleans P inv) →
      Thinned P d fs ((promPrints shellMain).after fs before) := by
    intro before hbefore
    refine Machine.invariant (P := fun _ inv => Cleans P inv) (fun fs' inv ht hc => ?_)
      ⟨Shrunk.refl d fs, fun _ _ => rfl⟩ (Machine.along_of_mem hbefore)
    obtain ⟨names, -, -, -, hnext⟩ := step_cleans shellMain hfixed ht hc
    exact hnext
  refine ⟨?_, fun e m hother => ?_⟩
  · rintro before inv after rfl
    obtain ⟨names, hout, hnodup, hmem, -⟩ := step_cleans shellMain hfixed
      (hthinned before fun i hi => hcleans i (List.mem_append_left _ hi))
      (hcleans inv (List.mem_append_right _ List.mem_cons_self))
    exact ⟨names, hout, hnodup, hmem⟩
  · have hend := hthinned series hcleans
    by_cases he : e = d
    · subst he
      exact hend.others m (hother rfl)
    · exact hend.shrunk.same.lookup he m

end Series

/-! ### A directory `y` that is not empty, and a module `x`. -/

/-- The modules directory with `x`, a file that loads, and `y`. -/
def stuckHome : FileSys where
  dirs := homeModules.dirs.take 4 ++
    [⟨3, [(ascii "x", .file 0), (ascii "y", .dir 5)], by decide, by decide, by decide⟩,
      ⟨4, [(ascii "inside", .file 2)], by decide, by decide, by decide⟩]

/-- `prom module list` -/
def listLine : List CStr := [tPath, commandName, ⟨ascii "list", by decide⟩]

/-- `prom module list --clean` -/
def cleanLine : List CStr := listLine ++ [⟨ascii "--clean", by decide⟩]

/-- Run in directory `cwd`. -/
def cleanInvocation (cwd : Nat) : Invocation :=
  ⟨loadingSystem none, cwd, (World.start stuckHome cwd).heap, cleanLine⟩

theorem stuckHome_fixed (cwd : Nat) : FixedModules (loadingSystem none) stuckHome cwd globalModulesPath 4 := by
  have hpath : FileSys.IsDirPath (stuckHome.emptied 4) 0 globalModulesPath.bytes 4 := ⟨by rfl, by rfl⟩
  refine fixed_of_noLinks (fun _ => rfl) (fun fs' h => store_anywhere (hpath.of_emptied h.same)) ?_
  intro n e hl
  obtain ⟨l₁, l₂, heq, -⟩ := List.lookup_eq_some_iff.mp
    (show [(ascii "x", Entry.file 0), (ascii "y", .dir 5)].lookup n = some e from hl)
  have hnodes : ∀ x ∈ [(ascii "x", Entry.file 0), (ascii "y", .dir 5)],
      (FileSys.Entry.node x.2).isSome := by decide
  exact hnodes (n, e) (by rw [heq]; exact List.mem_append_right _ List.mem_cons_self)

theorem cleanInvocation_cleans (cwd : Nat) : Cleans (loadingSystem none) (cleanInvocation cwd) :=
  ⟨show command cleanLine = .list true by decide, ⟨rfl, rfl, rfl, rfl⟩, generous_start stuckHome cwd, rfl⟩

/-- The second invocation prints what the first has printed. -/
theorem stuckHome_again : ∃ names : List CStr,
    ((promPrints fun _ => pure 0).step ((promPrints fun _ => pure 0).after stuckHome [cleanInvocation 0])
      (cleanInvocation 4)).2 = [(0, names.map removedLine)] ∧ names.Nodup ∧
    ∀ n, n ∈ names ↔ n ∈ broken (loadingSystem none) stuckHome 0 globalModulesPath 4 ∧
      (((promPrints fun _ => pure 0).after stuckHome [cleanInvocation 0]).lookup 4 n.bytes).isSome :=
  (cleanings_report (fun _ => pure 0) stuckHome_fixed [cleanInvocation 0, cleanInvocation 4] (by
    intro inv hinv
    rcases List.mem_cons.mp hinv with rfl | hinv
    · exact cleanInvocation_cleans 0
    · rw [List.mem_singleton.mp hinv]
      exact cleanInvocation_cleans 4)).1 [cleanInvocation 0] (cleanInvocation 4) [] rfl

end Prom.Modules
