/-
  Prom.Modules.Printing — what `prom module list` prints.

  The names and descriptions that are printed lie in the loaded objects;
  `Exports` says that these are strings.

  Main results:
    * `printModules_loop` — three lines for each module of an array.
    * `cmdArgList_yields` — every visible entry being loadable, all modules if
      no `init` leaves an error code, and a failure otherwise.
    * `cmdArgList_refused` — a failure when the directory is not opened.
-/
import Prom.Modules.Installing

namespace Prom.Modules

open Prom.C Exec Heap Dga Errm Posix

variable {P : System} {w : World}

/-! ## §1. Names and descriptions. -/

/-- The symbols `name` and `desc` of every object are strings. -/
def Exports (P : System) (h : Heap) : Prop :=
  ∀ o p, (P.object o).name = some p ∨ (P.object o).desc = some p → ∃ s, loadStr p h = .ok s h

/-- An object's name and description. -/
def Named (h : Heap) (l : Loaded) (t : CStr × CStr) : Prop :=
  loadStr l.name h = .ok t.1 h ∧ loadStr l.desc h = .ok t.2 h

theorem exports_keeps {h h' : Heap} (he : Exports P h) (hk : Keeps h h') : Exports P h' := by
  intro o p hp
  obtain ⟨s, hs⟩ := he o p hp
  exact ⟨s, loadStr_keeps hk hs⟩

theorem named_keeps {h h' : Heap} {l : Loaded} {t : CStr × CStr} (hn : Named h l t) (hk : Keeps h h') :
    Named h' l t := ⟨loadStr_keeps hk hn.1, loadStr_keeps hk hn.2⟩

/-- What is loaded has a name and a description. -/
theorem loads_named {h : Heap} (he : Exports P h) {fs : FileSys} {cwd : Nat} {path : CStr} {l : Loaded}
    (hl : loads P fs cwd path = some l) : ∃ t, Named h l t := by
  rcases loads_cases P fs cwd path with ⟨-, hnone⟩ |
    ⟨o, -, ⟨name, desc, init, hname, hdesc, -, hsome⟩ | ⟨-, hnone⟩⟩
  · rw [hl] at hnone
    cases hnone
  · rw [hl] at hsome
    cases hsome
    obtain ⟨s, hs⟩ := he o name (.inl hname)
    obtain ⟨s', hs'⟩ := he o desc (.inr hdesc)
    exact ⟨(s, s'), hs, hs'⟩
  · rw [hl] at hnone
    cases hnone

theorem allLoad_named {h : Heap} (he : Exports P h) {fs : FileSys} {cwd : Nat} {D : CStr}
    {names : List CStr} {ls : List Loaded} (hload : AllLoad P fs cwd D names ls) :
    ∃ texts, List.Forall₂ (Named h) ls texts := by
  induction ls generalizing names with
  | nil => exact ⟨[], .nil⟩
  | cons l ls ih =>
    cases names with
    | nil => cases hload
    | cons n names =>
      obtain ⟨hhead, htail⟩ := List.cons_eq_cons.mp hload
      obtain ⟨t, ht⟩ := loads_named he hhead
      obtain ⟨texts, htexts⟩ := ih htail
      exact ⟨t :: texts, .cons ht htexts⟩

/-! ## §2. The loop that prints. -/

/-- What is printed of one module. -/
def moduleLines (t : CStr × CStr) : List (List Byte) := [ruleLine, nameLine t.1, descLine t.2]

/-- A pointer in the middle of what can be read. -/
theorem loadPtr_field {h : Heap} {p q : Ptr} {n k : Nat} {cells : List Cell}
    (hload : load p n h = .ok cells h) (hin : k + 8 ≤ n) (hslice : slice cells k 8 = encodePtr q) :
    loadPtr (p.add k) h = .ok q h := by
  have hpart := load_part hload hin
  rw [hslice] at hpart
  rw [loadPtr, loadAs, bind_ok hpart, decodePtr_encodePtr]
  rfl

theorem Module.slice_name (m : Module) : slice m.cells 8 8 = encodePtr m.name :=
  slice_middle (encodePtr m.dlhandle) (encodePtr m.name) (encodePtr m.desc ++ m.cbs)
    (by simp only [Module.cells, List.append_assoc]) (length_encodePtr _) (length_encodePtr _)

theorem Module.slice_desc (m : Module) : slice m.cells 16 8 = encodePtr m.desc :=
  slice_middle (encodePtr m.dlhandle ++ encodePtr m.name) (encodePtr m.desc) m.cbs rfl
    (by rw [List.length_append, length_encodePtr, length_encodePtr]) (length_encodePtr _)

/-- Printed text is added to what was printed before. -/
def Os.printed (s : Os) (lines : List (List Byte)) : Os := { s with out := s.out ++ lines }

theorem printOut_eq (w : World) (text : List Byte) :
    onOs (printOut text) w = .ok () { w with os := Os.printed w.os [text] } := rfl

section Loop

variable {own : Nat → Prop} {arr : Ptr} {ls : List Loaded} {texts : List (CStr × CStr)} {len : Size}

/-- One pass prints one module. -/
theorem printModulePass_eq {k : Nat} {l : Loaded} {t : CStr × CStr}
    (hm : HoldsMods own w.heap arr (ls.map Loaded.module) []) (hlen : len.toNat = ls.length)
    (hl : ls[k]? = some l) (hn : Named w.heap l t) :
    printModulePass arr len k w =
      .ok (.inl (k + 1)) { w with os := Os.printed w.os (moduleLines t) } := by
  have hk : k < len.toNat := by
    rw [hlen]
    exact (List.getElem?_eq_some_iff.mp hl).1
  have hread := hm.read (k := k) (m := l.module) (by rw [List.getElem?_map, hl]; rfl)
  have hsize : moduleSize.toNat = 56 := rfl
  have hname := loadPtr_field hread (by rw [hsize]; decide) l.module.slice_name
  have hdesc := loadPtr_field hread (by rw [hsize]; decide) l.module.slice_desc
  rw [Ptr.add, Ptr.add, Nat.add_assoc] at hname hdesc
  -- the rule, the name and the description are printed one after the other
  let w₁ : World := { w with os := Os.printed w.os [ruleLine] }
  let w₂ : World := { w₁ with os := Os.printed w₁.os [nameLine t.1] }
  have hptr₁ : onHeap (loadPtr (arr.add (moduleSize.toNat * k + 8))) w₁ = .ok l.name w₁ :=
    onHeap_eq hname
  have hstr₁ : onHeap (loadStr l.name) w₁ = .ok t.1 w₁ := onHeap_eq hn.1
  have hptr₂ : onHeap (loadPtr (arr.add (moduleSize.toNat * k + 16))) w₂ = .ok l.desc w₂ :=
    onHeap_eq hdesc
  have hstr₂ : onHeap (loadStr l.desc) w₂ = .ok t.2 w₂ := onHeap_eq hn.2
  have hlines : Os.printed w.os (moduleLines t) = Os.printed w₂.os [descLine t.2] := by
    simp only [w₁, w₂, Os.printed, moduleLines, List.append_assoc, List.cons_append, List.nil_append]
  rw [printModulePass, if_pos hk, bind_ok (printOut_eq w ruleLine), bind_ok hptr₁, bind_ok hstr₁,
    bind_ok (printOut_eq w₁ (nameLine t.1)), bind_ok hptr₂, bind_ok hstr₂,
    bind_ok (printOut_eq w₂ (descLine t.2)), hlines]
  rfl

/-- **The loop prints every module**, in order, and changes nothing else. -/
theorem printModules_loop (hm : HoldsMods own w.heap arr (ls.map Loaded.module) [])
    (hlen : len.toNat = ls.length) (hfew : ls.length < maxPasses)
    (htexts : List.Forall₂ (Named w.heap) ls texts) :
    Yields (loop maxPasses (printModulePass arr len) 0) w fun _ w' =>
      w' = { w with os := Os.printed w.os (texts.flatMap moduleLines) } := by
  have hcount := htexts.length_eq
  -- after `k` passes the first `k` modules are printed
  refine Yields.loop
    (I := fun n k w' => n = ls.length - k ∧ k ≤ ls.length ∧
      w' = { w with os := Os.printed w.os ((texts.take k).flatMap moduleLines) })
    ?_ hfew ⟨rfl, Nat.zero_le _, ?_⟩
  · intro n k w' ⟨hn, hk, hw'⟩
    subst hw'
    rcases Nat.lt_or_eq_of_le hk with hlt | heq
    · obtain ⟨l, hl⟩ : ∃ l, ls[k]? = some l := ⟨_, List.getElem?_eq_getElem hlt⟩
      obtain ⟨t, ht⟩ : ∃ t, texts[k]? = some t := ⟨_, List.getElem?_eq_getElem (hcount ▸ hlt)⟩
      have hnamed : Named w.heap l t := by
        obtain ⟨hlk, rfl⟩ := List.getElem?_eq_some_iff.mp hl
        obtain ⟨htk, rfl⟩ := List.getElem?_eq_some_iff.mp ht
        exact htexts.get hlk htk
      refine Yields.of_eq (printModulePass_eq
        (w := { w with os := Os.printed w.os ((texts.take k).flatMap moduleLines) }) hm hlen hl hnamed)
        ⟨ls.length - (k + 1), by omega, rfl, hlt, ?_⟩
      rw [List.take_add_one, ht, Option.toList_some, List.flatMap_append, List.flatMap_singleton]
      simp only [Os.printed, List.append_assoc]
    · rw [printModulePass, if_neg (by rw [hlen, heq]; exact Nat.lt_irrefl _),
        List.take_of_length_le (by omega)]
      exact Yields.pure rfl
  · simp only [Os.printed, List.take_zero, List.flatMap_nil, List.append_nil]

end Loop

/-! ## §3. `cmd_arg_list`. -/

section List

variable {i : Fin STACK_SIZE} {argv : List CStr} {d : Nat} {ls : List Loaded}

/-- What `list` leaves. -/
structure ListLeaves (k : Nat) (w w' : World) : Prop where
  fs : w'.os.fs = w.os.fs
  cwd : w'.os.cwd = w.os.cwd
  removes : w'.os.calls .remove = w.os.calls .remove
  heap : Keeps w.heap w'.heap
  thread : Rests k w.thread w'.thread

/-- **`cmd_arg_list`**, all visible entries being loadable: the modules are
    printed, unless an `init` leaves an error code. -/
theorem cmdArgList_yields (hroom : i.val + 4 < STACK_SIZE) (hrest : Rests i.val w.thread w.thread)
    (hgen : w.heap.Generous) (hargv : argv.any (·.bytes = ascii "--clean") = false)
    (hpath : LeadsTo P w.os globalModulesPath d)
    (hr : P.refuse .opendir (w.os.calls .opendir) = none)
    (hload : AllLoad P w.os.fs w.os.cwd globalModulesPath (visible (P.order w.os.fs d)) ls)
    (hexports : Exports P w.heap) :
    Yields (cmdArgList P argv) w fun r w' =>
      (Quiet ls w.inits → r = 0 ∧ ∃ texts, List.Forall₂ (Named w.heap) ls texts ∧
        w'.os.out = w.os.out ++ texts.flatMap moduleLines ++ [ruleLine]) ∧
      (¬Quiet ls w.inits → r = 1) ∧ ListLeaves i.val w w' := by
  have hfew : ls.length < maxPasses := by
    have hmax : DIR_MAX + 2 < maxPasses := by decide
    have hle := Nat.le_trans (length_visible _) (order_length P w.os.fs d)
    have hlen := hload.length
    omega
  rw [cmdArgList, if_neg (by rw [hargv]; decide)]
  refine (installedMods_yields hroom hrest hgen hpath hr hload).bind ?_
  intro mods w₁ ⟨hquiet, hloud, hos, hk, hthread⟩
  obtain ⟨hfs, hcwd, hcalls, hout⟩ := hos.fields
  have hremoves : w₁.os.calls .remove = w.os.calls .remove := by
    rw [hcalls]
    rfl
  by_cases hq : Quiet ls w.inits
  · obtain ⟨⟨n, hn, hlen⟩, hmods⟩ := hquiet hq
    obtain ⟨texts, htexts⟩ := allLoad_named hexports hload
    -- the listing has left the names where they were
    have htexts₁ : List.Forall₂ (Named w₁.heap) ls texts := htexts.imp fun _ _ h => named_keeps h hk
    rw [if_neg hmods.ne_null, hn]
    refine (printModules_loop hmods hlen hfew htexts₁).bind ?_
    intro _ w₂ hw₂
    subst hw₂
    obtain ⟨h', hfree, hs⟩ := hmods.free
    refine Yields.step (onHeap_eq (show freeInstalledMods mods.array w₁.heap = .ok () h' from hfree))
      (Yields.step (printOut_eq _ ruleLine) (Yields.pure ⟨fun _ => ⟨rfl, texts, htexts, ?_⟩,
        fun h => absurd hq h, hfs, hcwd, hremoves, Spares.keeps hk hs fun _ hb => hb, hthread⟩))
    show w₁.os.out ++ texts.flatMap moduleLines ++ [ruleLine] = _
    rw [hout]
    rfl
  · rw [hloud hq, if_pos rfl]
    exact Yields.pure ⟨fun h => absurd h hq, fun _ => rfl, hfs, hcwd, hremoves, hk, hthread⟩

/-- `cmd_arg_list` of a directory the system does not open does not succeed. -/
theorem cmdArgList_refused (hroom : i.val + 4 < STACK_SIZE) (hrest : Rests i.val w.thread w.thread)
    (hgen : w.heap.Generous) (hargv : argv.any (·.bytes = ascii "--clean") = false)
    (hpath : LeadsTo P w.os globalModulesPath d) {e : Errno}
    (hr : P.refuse .opendir (w.os.calls .opendir) = some e) {r : Int} {w' : World}
    (hrun : cmdArgList P argv w = .ok r w') : r = 1 := by
  rw [cmdArgList, if_neg (by rw [hargv]; decide)] at hrun
  cases hmods : installedMods P globalModulesPath w with
  | stop e w₁ =>
    rw [bind_stop hmods] at hrun
    cases hrun
  | ok mods w₁ =>
    rw [bind_ok hmods, if_pos (installedMods_refused (fun _ => runInit) hroom hrest hgen hpath hr hmods)] at hrun
    cases hrun
    rfl

end List

end Prom.Modules
