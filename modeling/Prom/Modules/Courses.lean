/-
  Prom.Modules.Courses — cleaning and listing with any `init` functions.

  The entries of a directory are gone through one after the other, and each
  `init` that is run may change what the next finds.  A `course` is that
  sequence on scenes: which entries are accepted is given, what the files and
  the error code are behind the last entry follows.

  Main results:
    * `cleanUlModNames_follows` — `clean_ul_mod_names` that returns an array has
      followed the course of the cleaning.
    * `installedMods_follows` — `installed_mods` returns a module for each entry
      if the course of the listing is quiet to its end.
    * `installedMods_fails` — otherwise it returns nothing, if it returns.
-/
import Prom.Modules.Cleaning
import Prom.Modules.Installing
import Prom.Modules.Inits

namespace Prom.Modules

open Prom.C Exec Heap Dga Errm Posix

variable (P : System) (I : Ptr → ModInit → Init) (accepts : CStr → Option Loaded) (D : CStr)

/-! ## §1. Courses. -/

/-- The object behind a path has been looked for, with the error code clear. -/
def Scene.tried (s : Scene) (path : CStr) : Scene := { s with os := s.os.tried P (some path), code := none }

/-- `load_module`: the `init` of an entry that is accepted is run. -/
def Scene.load (n : CStr) (s : Scene) : Option Scene :=
  match accepts n with
  | some l => (I (objectPtr l.object) l.init).effect (s.tried P (D.append n))
  | none => some { s.tried P (D.append n) with code := some .DYN_SHARED_OBJ_ERROR }

/-- A pass of `clean_ul_mod_names`: an entry that is refused is asked to be
    removed. -/
def Scene.clean (n : CStr) (s : Scene) : Option Scene :=
  match accepts n with
  | some _ => s.load P I accepts D n
  | none => some { s with
      os := (remove P (some (D.append n)) (s.tried P (D.append n)).os).state
      code := none }

/-- A pass of `installed_mods`: an error code ends the course. -/
def Scene.quiet (n : CStr) (s : Scene) : Option Scene :=
  (s.load P I accepts D n).bind fun s' => if s'.code = none then some s' else none

/-- One entry after the other, as long as the `init`s return. -/
def course (step : CStr → Scene → Option Scene) : List CStr → Scene → Option Scene
  | [], s => some s
  | n :: ns, s => (step n s).bind (course step ns)

/-- The directory has been listed. -/
def Scene.listed (s : Scene) : Scene := { s with os := s.os.listed, code := none }

/-- The same in the body of `installed_mods`, which has put off freeing the
    names. -/
def Scene.entered (s : Scene) : Scene :=
  { s with os := s.os.listed, code := none, curr := s.curr + 1, frame := some ⟨0, 0, 1⟩ }

/-- The course of a cleaning of directory `d`. -/
def cleaned (d : Nat) (s : Scene) : Option Scene :=
  course (Scene.clean P I accepts D) (visible (P.order s.os.fs d)) s.listed

/-- The course of a listing of it. -/
def listed (d : Nat) (s : Scene) : Option Scene :=
  course (Scene.quiet P I accepts D) (visible (P.order s.os.fs d)) s.entered

/-- What the functions are given for the `init`s. -/
def callOf : CallInit := fun handle init => (I handle init).run

variable {P I accepts D} {w w' : World} {c : Nat} {s s' : Scene} {name : CStr}

/-! ## §2. `load_module`. -/

/-- The world in which the object has been looked for. -/
theorem loadModule_tries (hgen : w.heap.Generous) (name D : CStr) :
    ∃ w₁, LoadTried P w (some (D.append name)) w₁ ∧ w₁.thread = { w.thread with errCode := none } ∧
      w₁.inits = w.inits ∧
      (loads P w.os.fs w.os.cwd (D.append name) = none →
        loadModuleWith P (callOf I) name D w = .ok (.error P.message)
          { w₁ with thread := { w.thread with errCode := some .DYN_SHARED_OBJ_ERROR } }) ∧
      ∀ l, loads P w.os.fs w.os.cwd (D.append name) = some l →
        loadModuleWith P (callOf I) name D w =
          ((I (objectPtr l.object) l.init).run >>= fun cbs =>
            pure (.ok ⟨objectPtr l.object, l.name, l.desc, cbs⟩) : Exec World (Except Ptr Module)) w₁ := by
  obtain ⟨w₁, c, htried, hthread, hc, hinits, habsent, hopened⟩ :=
    loadModule_opens (P := P) (callOf I) name D w
  rw [modPathArg, if_pos hgen.grants] at htried habsent hopened
  rw [hc hgen.grants] at hthread
  -- the loader has no failure to report
  have hdl : { w₁.os with dlFailed := false } = w₁.os := by
    rw [htried.os]
    rfl
  refine ⟨w₁, htried, hthread, hinits, ?_, ?_⟩
  all_goals
    rcases loads_cases P w.os.fs w.os.cwd (D.append name) with ⟨ho, hnone⟩ |
      ⟨o, ho, ⟨nm, desc, init, hname, hdesc, hinit, hsome⟩ | ⟨hmissing, hnone⟩⟩
  · exact fun _ => habsent ho
  · intro h
    cases h.symm.trans hsome
  · intro _
    rw [hopened o ho, loadSymbols_error (callOf I) hmissing, hdl, hthread]
  · intro l h
    cases h.symm.trans hnone
  · intro l h
    cases h.symm.trans hsome
    rw [hopened o ho, loadSymbols_called (callOf I) hname hdesc hinit, hdl]
    rfl
  · intro l h
    cases h.symm.trans hnone

/-- **`load_module`** of an entry that is refused. -/
theorem loadModule_refused (hgen : w.heap.Generous) (hl : loads P w.os.fs w.os.cwd (D.append name) = none) :
    ∃ w', loadModuleWith P (callOf I) name D w = .ok (.error P.message) w' ∧
      w'.scene = { w.scene.tried P (D.append name) with code := some .DYN_SHARED_OBJ_ERROR } ∧
      Leaves (fun _ => False) w.heap w'.heap ∧
      w'.thread = { w.thread with errCode := some .DYN_SHARED_OBJ_ERROR } := by
  obtain ⟨w₁, htried, hthread, hinits, hnone, -⟩ := loadModule_tries (P := P) (I := I) hgen name D
  refine ⟨_, hnone hl, ?_, htried.leaves, rfl⟩
  rw [World.scene, htried.os, hinits]
  rfl

/-- **`load_module`** of an entry that is accepted does what its `init` does. -/
theorem loadModule_accepted (hrest : Rests c w.thread w.thread) (hgen : w.heap.Generous) {l : Loaded}
    (hl : loads P w.os.fs w.os.cwd (D.append name) = some l) :
    match (I (objectPtr l.object) l.init).effect (w.scene.tried P (D.append name)) with
    | none => ∃ e w', loadModuleWith P (callOf I) name D w = .stop e w'
    | some s => Yields (loadModuleWith P (callOf I) name D) w fun r w' =>
        ∃ cbs, r = .ok ⟨objectPtr l.object, l.name, l.desc, cbs⟩ ∧ Left w s cbs w' := by
  obtain ⟨w₁, htried, hthread, hinits, -, hcalled⟩ := loadModule_tries (P := P) (I := I) hgen name D
  have hscene : w₁.scene = w.scene.tried P (D.append name) := by
    rw [World.scene, htried.os, hinits, hthread]
    rfl
  have hrest₁ : Rests c w.thread w₁.thread := by
    rw [hthread]
    exact hrest.setErr none
  have hgen₁ := htried.keeps.generous hgen
  rw [← hscene]
  cases heffect : (I (objectPtr l.object) l.init).effect w₁.scene with
  | none =>
    obtain ⟨e, w', hstop⟩ := (I (objectPtr l.object) l.init).stops c w₁ hrest₁.refl_of hgen₁ heffect
    exact ⟨e, w', (hcalled l hl).trans (bind_stop hstop _)⟩
  | some s =>
    obtain ⟨cbs, w', hrun, hleft⟩ := (I (objectPtr l.object) l.init).returns c w₁ s hrest₁.refl_of hgen₁ heffect
    refine Yields.of_eq ((hcalled l hl).trans (bind_ok hrun _)) ⟨cbs, rfl, hleft.after ?_ htried.leaves⟩
    exact Puts.none hrest hrest₁ htried.leaves.keeps.length

/-! ## §3. `clean_ul_mod_names`. -/

/-- The entries of these that are refused. -/
def refusedOf (accepts : CStr → Option Loaded) (names : List CStr) : List CStr :=
  names.filter fun n => (accepts n).isNone

/-- The loop, started in `w₀` with `c` frames in use, has gone through the entries
    `done`; `s` is what is seen of `w`. -/
structure Vetting (accepts : CStr → Option Loaded) (w₀ : World) (c : Nat) (done : List CStr) (ulNames : Ptr)
    (s : Scene) (w : World) : Prop where
  owned : ∃ b cs, ulNames = arrayPtr b ∧
    Owned (fun _ => True) w₀.heap w.heap b cs (refusedOf accepts done) []
  rests : Rests c w.thread w.thread
  scene : w.scene = s

section Vetting

variable {w₀ : World} {done rest names : List CStr} {ulNames : Ptr} {len : Size} {nb : Nat} {ncs : List Nat}

theorem refusedOf_some {l : Loaded} (h : accepts name = some l) (done : List CStr) :
    refusedOf accepts (done ++ [name]) = refusedOf accepts done := by
  simp only [refusedOf, List.filter_append, List.filter_cons, h, Option.isNone_some, Bool.false_eq_true,
    if_false, List.filter_nil, List.append_nil]

theorem refusedOf_none (h : accepts name = none) (done : List CStr) :
    refusedOf accepts (done ++ [name]) = refusedOf accepts done ++ [name] := by
  simp only [refusedOf, List.filter_append, List.filter_cons, h, Option.isNone_none, if_true, List.filter_nil]

/-- **A pass follows the course.** -/
theorem Vetting.pass (hv : Vetting accepts w₀ c done ulNames s w) (hgen : w₀.heap.Generous)
    (hnames : NamesAt w₀.heap nb ncs (done ++ name :: rest) [])
    (hlen : len.toNat = (done ++ name :: rest).length) (hshort : name.length ≤ NAME_MAX)
    (hfew : done.length ≤ DIR_MAX + 2) (hl : loads P s.os.fs s.os.cwd (D.append name) = accepts name) :
    match s.clean P I accepts D name with
    | none => ∃ e w', cleanPassWith P (callOf I) D (arrayPtr nb) len (ulNames, done.length) w = .stop e w'
    | some s' => ∃ p w', cleanPassWith P (callOf I) D (arrayPtr nb) len (ulNames, done.length) w =
        .ok (.inl (p, done.length + 1)) w' ∧ Vetting accepts w₀ c (done ++ [name]) p s' w' := by
  obtain ⟨⟨b, cs, rfl, howned⟩, hrest, rfl⟩ := hv
  have hkeeps : Keeps w₀.heap w.heap := howned.leaves.keeps
  have hgen' := hkeeps.generous hgen
  obtain ⟨x, hblock, hkept, hdropped, hstopped⟩ := cleanPass_asks (P := P) (D := D) hnames hlen (callOf I)
    (arrayPtr b) hkeeps
  rw [Scene.clean]
  cases haccepts : accepts name with
  | some l =>
    rw [haccepts] at hl
    have hrun := loadModule_accepted (P := P) (I := I) hrest hgen' hl
    simp only [Scene.load, haccepts]
    cases heffect : (I (objectPtr l.object) l.init).effect (w.scene.tried P (D.append name)) with
    | none =>
      rw [heffect] at hrun
      obtain ⟨e, w', hstop⟩ := hrun
      exact ⟨e, w', hstopped e w' hstop⟩
    | some s' =>
      rw [heffect] at hrun
      obtain ⟨_, w', hload, cbs, rfl, hleft⟩ := hrun
      obtain ⟨qs, ps, hputs⟩ := hleft.frames
      refine ⟨_, w', hkept _ w' hload, ⟨b, cs, rfl, ?_⟩, hputs.rests hrest, hleft.scene⟩
      -- nothing is noted
      rw [refusedOf_some haccepts]
      exact (howned.after hleft.heap).weaken fun _ _ => trivial
  | none =>
    rw [haccepts] at hl
    obtain ⟨w₁, hload, hscene, hleaves, hthread⟩ := loadModule_refused (P := P) (I := I) hgen' hl
    have hgen₁ := hleaves.keeps.generous hgen'
    have hfew' : (refusedOf accepts done).length ≤ DIR_MAX + 2 :=
      Nat.le_trans (List.length_filter_le _ _) hfew
    obtain ⟨h, b', w', hbody, howned', -, -, hrm⟩ := cleanRefused_removes (P := P) (D := D) (k := done.length)
      (arrayPtr nb) (hblock.mono fun cells hat => hleaves.keeps.at_ x cells hat)
      ((howned.after hleaves).weaken fun _ _ => trivial) hgen₁.grants (hgen₁ _ (Nat.le_succ _)) hshort hfew'
    have hpath : modPathArg D name h = some (D.append name) :=
      if_pos (howned'.leaves.keeps.generous hgen).grants
    rw [hpath] at hrm
    obtain ⟨⟨v, hasks⟩, -, -, hleaves', -, ⟨e, hthread', hnone⟩, hinits⟩ := hrm
    rw [hnone (howned'.leaves.keeps.generous hgen).grants] at hthread'
    refine ⟨_, w', (hdropped _ w₁ hload).trans hbody,
      ⟨b', cs ++ [w₁.heap.blocks.length], rfl, ?_⟩, ?_, ?_⟩
    · rw [refusedOf_none haccepts]
      exact (howned'.after hleaves').weaken fun _ _ => trivial
    · rw [hthread']
      show Rests c { w₁.thread with errCode := none } { w₁.thread with errCode := none }
      rw [hthread]
      exact hrest
    · have hos : w₁.os = (w.scene.tried P (D.append name)).os := congrArg Scene.os hscene
      have hin : w₁.inits = w.inits := congrArg Scene.inits hscene
      have hrun : remove P (some (D.append name)) w₁.os = .ok v w'.os := hasks
      rw [← hos, hrun, World.scene, hthread', hinits]
      show Scene.mk w'.os w₁.inits none w₁.thread.curr _ = _
      rw [hin, hthread]
      rfl

end Vetting

section Whole

variable {i : Fin STACK_SIZE} {d : Nat}

end Whole

/-! ## §4. `installed_mods`. -/

/-- The `struct module` of an entry: what `dlopen` and `dlsym` found, and whatever
    the `init` has filled in. -/
def Fills (accepts : CStr → Option Loaded) (n : CStr) (m : Module) : Prop :=
  ∃ l, accepts n = some l ∧ m.dlhandle = objectPtr l.object ∧ m.name = l.name ∧ m.desc = l.desc ∧
    m.cbs.length = 32

theorem Fills.length {n : CStr} {m : Module} (h : Fills accepts n m) : m.cells.length = moduleSize.toNat := by
  obtain ⟨l, -, -, -, -, hcbs⟩ := h
  simp only [Module.cells, List.length_append, length_encodePtr, hcbs]
  rfl

/-- The loop, started in `w₀`, has loaded the entries `done` into the array in block
    `b`, and the `init`s have put these entries into the frame. -/
structure Stocking (accepts : CStr → Option Loaded) (w₀ : World) (done : List CStr) (b : Nat)
    (ms : List Module) (qs ps : List Deferral) (s : Scene) (w : World) : Prop where
  owned : OwnedMods (fun _ => True) w₀.heap w.heap b ms []
  filled : List.Forall₂ (Fills accepts) done ms
  puts : Puts w₀ w qs ps
  clear : ∀ e ∈ qs ++ ps, ¬e.own b
  scene : w.scene = s

section Stocking

variable {w₀ : World} {done rest names : List CStr} {b : Nat} {ms : List Module} {qs ps : List Deferral}
  {namesArr : Ptr} {len : Size} {own : Nat → Prop} {j : Fin STACK_SIZE}

/-- What the loop is started with: the frame `j` of the body, and the names. -/
structure Stage (w₀ : World) (c : Nat) (j : Fin STACK_SIZE) (own : Nat → Prop) (namesArr : Ptr)
    (names : List CStr) (len : Size) : Prop where
  rests : Rests c w₀.thread w₀.thread
  curr : w₀.thread.curr = (j.val : Int)
  generous : w₀.heap.Generous
  held : HoldsNames own w₀.heap namesArr names []
  older : ∀ x, own x → ¬w₀.heap.blocks.length ≤ x
  len : len.toNat = names.length
  few : names.length ≤ DIR_MAX + 2

/-- **A pass follows the course**: it goes on if there is no error code behind the
    `init`, returns nothing if there is, and stops with an `init` that does not
    return. -/
theorem Stocking.pass (hs : Stocking accepts w₀ done b ms qs ps s w)
    (hst : Stage w₀ c j own namesArr names len) (hsplit : names = done ++ name :: rest)
    (hl : loads P s.os.fs s.os.cwd (D.append name) = accepts name) :
    match s.load P I accepts D name with
    | none => ∃ e w', installedModsPassWith P (callOf I) D namesArr len (arrayPtr b, done.length) w = .stop e w'
    | some s' =>
      (s'.code = none → ∃ b' m qs' ps' w',
        installedModsPassWith P (callOf I) D namesArr len (arrayPtr b, done.length) w =
          .ok (.inl (arrayPtr b', done.length + 1)) w' ∧
        Stocking accepts w₀ (done ++ [name]) b' (ms ++ [m]) qs' ps' s' w') ∧
      (s'.code ≠ none → ∃ w',
        installedModsPassWith P (callOf I) D namesArr len (arrayPtr b, done.length) w =
          .ok (.inr ⟨.null, none⟩) w') := by
  obtain ⟨howned, hfilled, hputs, hclear, rfl⟩ := hs
  obtain ⟨hrest, hcurr, hgen, hnames, hown, hlen, hfew⟩ := hst
  have hcount : ms.length = done.length := hfilled.length_eq.symm
  have hmax : DIR_MAX + 2 < 2 ^ 50 := by decide
  have hlt : done.length < names.length := by
    rw [hsplit, List.length_append, List.length_cons]
    omega
  have hname : names[done.length]? = some name := by
    rw [hsplit, List.getElem?_append_right (Nat.le_refl _), Nat.sub_self, List.getElem?_cons_zero]
  have hfits : Fits moduleSize (ms.length + 1) := by
    rw [hcount, Fits, headerSize, show moduleSize.toNat = 56 from rfl]
    omega
  have hkeeps : Keeps w₀.heap w.heap := howned.leaves.keeps
  have hnames' := hnames.spared (spares_of_keeps hkeeps fun _ => False) fun _ _ hf => hf
  have hapart : ∀ x, own x → x ≠ b := by
    rintro x hx rfl
    exact hown x hx howned.later
  obtain ⟨_, _, howned₁, ⟨rfl, cells, rfl⟩, hadded, hfailed, hstopped⟩ :=
    installedModsPass_asks (P := P) (D := D) (callOf I) howned (hkeeps.generous hgen).grants hfits hnames' hapart
      hname (hlen ▸ hlt)
  let w₁ : World := { w with heap := (w.heap.release b).alloc cells }
  have hrest₁ : Rests c w₁.thread w₁.thread := hputs.rests hrest
  have hgen₁ : w₁.heap.Generous := howned₁.leaves.keeps.generous hgen
  have hlen₁ : w₁.heap.blocks.length = w.heap.blocks.length + 1 := by
    rw [length_alloc, length_release]
  -- the array has moved, and was none of the blocks that are put off
  have hto₁ : Puts w₀ w₁ qs ps := by
    refine hputs.trans (Puts.none hrest₁ hrest₁ (by rw [hlen₁]; exact Nat.le_succ _)) fun e he x hx cs hat => ?_
    refine At_alloc_old ((At_release_ne ?_).mpr hat)
    rintro rfl
    exact hclear e he hx
  rw [Scene.load]
  cases haccepts : accepts name with
  | none =>
    -- an entry that is refused leaves an error code
    rw [haccepts] at hl
    obtain ⟨w₂, hload, hscene, hleaves, hthread⟩ := loadModule_refused (P := P) (I := I) hgen₁ hl
    refine ⟨fun hcode => ?_, fun _ => ⟨_, hfailed _ w₂ _ _ hload (by rw [hthread])
      (howned₁.after hleaves).free.1⟩⟩
    cases hcode
  | some l =>
    rw [haccepts] at hl
    have hrun := loadModule_accepted (P := P) (I := I) hrest₁ hgen₁ hl
    simp only
    rw [show w₁.scene = w.scene from rfl] at hrun
    cases heffect : (I (objectPtr l.object) l.init).effect (w.scene.tried P (D.append name)) with
    | none =>
      rw [heffect] at hrun
      obtain ⟨e, w', hstop⟩ := hrun
      exact ⟨e, w', hstopped e w' hstop⟩
    | some s' =>
      rw [heffect] at hrun
      obtain ⟨_, w₂, hload, cbs, rfl, hleft⟩ := hrun
      have howned₂ : OwnedMods (fun _ => True) w₀.heap w₂.heap w.heap.blocks.length ms
          [fresh moduleSize.toNat] :=
        ⟨howned₁.at_.mono (hleft.heap.keeps.at_ _),
          (howned₁.leaves.trans hleft.heap).weaken fun _ _ => .inr trivial, howned₁.later⟩
      have hcode : w₂.thread.errCode = s'.code := congrArg Scene.code hleft.scene
      refine ⟨fun hnone => ?_, fun hsome => ?_⟩
      · obtain ⟨qs', ps', hputs₂⟩ := hleft.frames
        have hto₂ : Puts w₀ w₂ (qs' ++ qs) (ps' ++ ps) :=
          hto₁.trans hputs₂ fun e _ x _ cs => hleft.heap.keeps.at_ x cs
        have hclear₂ : ∀ e ∈ (qs' ++ qs) ++ (ps' ++ ps), ¬e.own w.heap.blocks.length := by
          intro e he hx
          rcases mem_both he with he | he
          · have := ((hputs₂.added j (hputs.curr.trans hcurr)).fresh e he _ hx).1
            omega
          · exact Nat.lt_irrefl _ ((hputs.added j hcurr).fresh e he _ hx).2
        let m : Module := ⟨objectPtr l.object, l.name, l.desc, cbs⟩
        have hfills : Fills accepts name m := ⟨l, haccepts, rfl, rfl, rfl, hleft.cbs⟩
        have hlast := howned₂.holds.len
        rw [hcount, List.length_singleton] at hlast
        obtain ⟨cells', hstore, howned₃⟩ := howned₂.store hfills.length
        have hsub : (BitVec.ofNat 64 (done.length + 1) - 1).toNat = ms.length := by
          rw [hcount]
          exact toNat_sub_one hlast.2
        refine ⟨_, m, qs' ++ qs, ps' ++ ps, _, hadded _ w₂ _ _ hload (hcode.trans hnone) hlast.1
          (by rw [hsub]; exact hstore), howned₃, ?_, ?_, ?_, hleft.scene⟩
        · exact List.rel_append hfilled (List.Forall₂.cons hfills .nil)
        · -- the struct is stored in none of the blocks that are put off
          let w₃ : World := { w₂ with heap := w₂.heap.put w.heap.blocks.length cells' }
          have hstill : Puts w₂ w₃ [] [] :=
            Puts.none (hto₂.rests hrest) (hto₂.rests hrest) (Nat.le_of_eq (length_put _ _ _).symm)
          refine hto₂.trans hstill fun e he x hx cs hat => (At_put_ne ?_).mpr hat
          rintro rfl
          exact hclear₂ e he hx
        · exact hclear₂
      · obtain ⟨e, he⟩ := Option.ne_none_iff_exists'.mp hsome
        exact ⟨_, hfailed _ w₂ e _ hload (hcode.trans he) howned₂.free.1⟩

end Stocking

section Listing

variable {i : Fin STACK_SIZE} {d : Nat} {w₀ w₃ : World} {b₁ : Nat} {cs₁ : List Nat} {names : List CStr}

/-- `installed_mods` has come to its loop: the names are in the blocks `b₁` and
    `cs₁`, and the frame of the body holds `free_mod_names`. -/
structure Entered (i : Fin STACK_SIZE) (w w₀ : World) (names : List CStr) (b₁ : Nat) (cs₁ : List Nat) :
    Prop where
  frame : InFrame i { w.thread.stack i with dyns := [(.freeModNames, arrayPtr b₁)] } w.thread w₀.thread
  held : NamesAt w₀.heap b₁ cs₁ names []
  empty : (w.thread.stack i).Empty

/-- The array of what has been loaded. -/
structure Stocked (accepts : CStr → Option Loaded) (names : List CStr) (r : Listing) (w : World) : Prop where
  len : r.len = some (BitVec.ofNat 64 names.length)
  mods : ∃ ms, HoldsMods (fun _ => True) w.heap r.array ms [] ∧ List.Forall₂ (Fills accepts) names ms

end Listing

end Prom.Modules
