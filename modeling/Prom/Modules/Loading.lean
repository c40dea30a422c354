/-
  Prom.Modules.Loading — what `load_module` returns.

  `loads` is what the dynamic loader makes of a path: the object and the
  values of its three symbols, or nothing.  `load_module` returns accordingly;
  the error code it leaves is the one the module's `init` leaves.  Whatever it
  returns, an object that was found stays open.

  Main results:
    * `loadModule_ok`, `loadModule_error` — with memory granted.
    * `loadModule_refuses` — with or without it.
    * `refs_openAll` — how often an object was opened by a series of calls.
-/
import Prom.Modules.Store

namespace Prom.Modules

open Prom.C Exec Heap Dga Errm Posix

variable {P : System} {w : World}

/-! ## §1. What a path loads. -/

/-- An object with its symbols. -/
structure Loaded where
  object : Nat
  name : Ptr
  desc : Ptr
  init : ModInit

/-- What `dlopen` and `dlsym` find at a path. -/
def loads (P : System) (fs : FileSys) (cwd : Nat) (path : CStr) : Option Loaded :=
  match objectAt P fs cwd (some path) with
  | none => none
  | some o =>
    match (P.object o).name, (P.object o).desc, (P.object o).init with
    | some name, some desc, some init => some ⟨o, name, desc, init⟩
    | _, _, _ => none

/-- The `struct module` it fills in. -/
def Loaded.module (l : Loaded) : Module := ⟨objectPtr l.object, l.name, l.desc, l.init.cbs⟩

/-- Only the state of the dynamic loader has changed. -/
def DlOnly (s s' : Os) : Prop := s' = { s with refs := s'.refs, dlFailed := s'.dlFailed }

theorem DlOnly.refl (s : Os) : DlOnly s s := rfl

theorem DlOnly.trans {s s' s'' : Os} (h : DlOnly s s') (h' : DlOnly s' s'') : DlOnly s s'' := by
  rw [DlOnly] at h h' ⊢
  rw [h', h]

theorem DlOnly.fields {s s' : Os} (h : DlOnly s s') :
    s'.fs = s.fs ∧ s'.cwd = s.cwd ∧ s'.calls = s.calls ∧ s'.out = s.out := by
  rw [DlOnly] at h
  rw [h]
  exact ⟨rfl, rfl, rfl, rfl⟩

theorem loads_cases (P : System) (fs : FileSys) (cwd : Nat) (path : CStr) :
    objectAt P fs cwd (some path) = none ∧ loads P fs cwd path = none ∨
    ∃ o, objectAt P fs cwd (some path) = some o ∧
      ((∃ name desc init, (P.object o).name = some name ∧ (P.object o).desc = some desc ∧
          (P.object o).init = some init ∧ loads P fs cwd path = some ⟨o, name, desc, init⟩) ∨
        ((P.object o).name = none ∨ (P.object o).desc = none ∨ (P.object o).init = none) ∧
          loads P fs cwd path = none) := by
  unfold loads
  -- first the object, then its three symbols in the order of the source
  cases ho : objectAt P fs cwd (some path) with
  | none => exact .inl ⟨rfl, rfl⟩
  | some o =>
    refine .inr ⟨o, rfl, ?_⟩
    simp only
    cases hname : (P.object o).name with
    | none => exact .inr ⟨.inl rfl, rfl⟩
    | some name =>
      cases hdesc : (P.object o).desc with
      | none => exact .inr ⟨.inr (.inl rfl), rfl⟩
      | some desc =>
        cases hinit : (P.object o).init with
        | none => exact .inr ⟨.inr (.inr rfl), rfl⟩
        | some init => exact .inl ⟨name, desc, init, rfl, rfl, rfl, rfl⟩

theorem loads_absent {fs : FileSys} {cwd : Nat} {path : CStr}
    (h : objectAt P fs cwd (some path) = none) : loads P fs cwd path = none := by
  rw [loads, h]

/-! ## §2. `load_module`. -/

section Symbols

variable {A : Type} {symbol : SharedObject ModInit → Option A} {o : Nat}

theorem dlsymChecked_some {a : A} (h : symbol (P.object o) = some a) :
    dlsymChecked P (objectPtr o) symbol w =
      .ok (.null, some a) { w with os := { w.os with dlFailed := false } } := by
  have hsym : dlsym P (objectPtr o) symbol w.os = .ok (some a) { w.os with dlFailed := false } := by
    simp only [dlsym, objectPtr, h]
  rw [dlsymChecked, bind_ok (onOs_eq hsym)]
  rfl

theorem dlsymChecked_none (h : symbol (P.object o) = none) :
    dlsymChecked P (objectPtr o) symbol w =
      .ok (P.message, none)
        { w with
          os := { w.os with dlFailed := false }
          thread := { w.thread with errCode := some .DYN_SHARED_OBJ_ERROR } } := by
  have hsym : dlsym P (objectPtr o) symbol w.os = .ok none { w.os with dlFailed := true } := by
    simp only [dlsym, objectPtr, h]
  have herr : onOs (dlerror P) { w with os := { w.os with dlFailed := true } } =
      .ok P.message { w with os := { w.os with dlFailed := false } } := onOs_eq rfl
  rw [dlsymChecked, bind_ok (onOs_eq hsym), bind_ok herr]
  show (if P.message ≠ .null then _ else _ : Exec World (Ptr × Option A)) _ = _
  rw [if_pos P.message_ne_null]
  rfl

/-- All three symbols are there: `init` is called. -/
theorem loadSymbols_called (call : CallInit) {name desc : Ptr} {init : ModInit}
    (hname : (P.object o).name = some name) (hdesc : (P.object o).desc = some desc)
    (hinit : (P.object o).init = some init) :
    loadSymbolsWith P call (objectPtr o) w =
      (call (objectPtr o) init >>= fun cbs => pure (.ok ⟨objectPtr o, name, desc, cbs⟩) :
        Exec World (Except Ptr Module)) { w with os := { w.os with dlFailed := false } } := by
  rw [loadSymbolsWith, bind_ok (dlsymChecked_some hname)]
  simp only
  rw [bind_ok (dlsymChecked_some hdesc)]
  simp only
  rw [bind_ok (dlsymChecked_some hinit)]

theorem loadSymbols_ok {name desc : Ptr} {init : ModInit} (hname : (P.object o).name = some name)
    (hdesc : (P.object o).desc = some desc) (hinit : (P.object o).init = some init) :
    loadSymbols P (objectPtr o) w =
      .ok (.ok (Loaded.module ⟨o, name, desc, init⟩))
        { w with
          os := { w.os with dlFailed := false }
          thread := { w.thread with errCode := init.leaves w.inits w.thread.errCode }
          inits := w.inits + 1 } :=
  loadSymbols_called (fun _ => runInit) hname hdesc hinit

/-- A symbol is missing. -/
theorem loadSymbols_error (call : CallInit)
    (h : (P.object o).name = none ∨ (P.object o).desc = none ∨ (P.object o).init = none) :
    loadSymbolsWith P call (objectPtr o) w =
      .ok (.error P.message)
        { w with
          os := { w.os with dlFailed := false }
          thread := { w.thread with errCode := some .DYN_SHARED_OBJ_ERROR } } := by
  rw [loadSymbolsWith]
  cases hname : (P.object o).name with
  | none =>
    rw [bind_ok (dlsymChecked_none hname)]
    rfl
  | some name =>
    rw [bind_ok (dlsymChecked_some hname)]
    simp only
    cases hdesc : (P.object o).desc with
    | none =>
      rw [bind_ok (dlsymChecked_none hdesc)]
      rfl
    | some desc =>
      rw [bind_ok (dlsymChecked_some hdesc)]
      simp only
      cases hinit : (P.object o).init with
      | none =>
        rw [bind_ok (dlsymChecked_none hinit)]
        rfl
      | some init =>
        -- all three are there, against the hypothesis
        rw [hname, hdesc, hinit] at h
        simp only [reduceCtorEq, or_false] at h

end Symbols

theorem dlOnly_tried (P : System) (path : Option CStr) (s : Os) : DlOnly s (s.tried P path) := rfl

/-- `load_module` has looked for the object at a path; its own memory is free. -/
structure LoadTried (P : System) (w : World) (path : Option CStr) (w' : World) : Prop where
  os : w'.os = w.os.tried P path
  leaves : Leaves (fun _ => False) w.heap w'.heap
  requests : w'.heap.requests = w.heap.requests + 1

theorem LoadTried.dlOnly {path : Option CStr} {w' : World} (ht : LoadTried P w path w') :
    DlOnly w.os w'.os := by
  rw [ht.os]
  exact dlOnly_tried P path w.os

theorem LoadTried.keeps {path : Option CStr} {w' : World} (ht : LoadTried P w path w') :
    Keeps w.heap w'.heap := ht.leaves.keeps

/-- `dlopen` and the `dlerror` behind it, between which the path is freed. -/
theorem dlopen_checked (path : Option CStr) (s : Os) :
    (objectAt P s.fs s.cwd path = none →
      dlopen P path s = .ok .null { s with dlFailed := true } ∧
        dlerror P { s with dlFailed := true } = .ok P.message (s.tried P path)) ∧
    ∀ o, objectAt P s.fs s.cwd path = some o →
      dlopen P path s = .ok (objectPtr o) (s.tried P path) ∧
        dlerror P (s.tried P path) = .ok .null (s.tried P path) := by
  constructor
  · intro ho
    -- one more reference to this object, the others as before
    have htried : s.tried P path = { s with dlFailed := false } := by
      simp only [Os.tried, ho, reduceCtorEq, if_false]
    refine ⟨by rw [dlopen, ho], ?_⟩
    rw [htried]
    rfl
  · intro o ho
    have htried : s.tried P path =
        { s with dlFailed := false, refs := fun i => if i = o then s.refs o + 1 else s.refs i } := by
      simp only [Os.tried, ho, Option.some.injEq, Os.mk.injEq, true_and, and_true]
      funext i
      by_cases hi : i = o
      · rw [if_pos hi.symm, if_pos hi, hi]
      · rw [if_neg (Ne.symm hi), if_neg hi]
    exact ⟨by rw [dlopen, ho, htried], rfl⟩

/-- The world in which the object at a path has been looked for. -/
theorem loadModule_opens (call : CallInit) (name D : CStr) (w : World) :
    ∃ w' c, LoadTried P w (modPathArg D name w.heap) w' ∧ w'.thread = { w.thread with errCode := c } ∧
      (w.heap.Grants → c = none) ∧ w'.inits = w.inits ∧
      (objectAt P w.os.fs w.os.cwd (modPathArg D name w.heap) = none →
        loadModuleWith P call name D w =
          .ok (.error P.message)
            { w' with thread := { w.thread with errCode := some .DYN_SHARED_OBJ_ERROR } }) ∧
      ∀ o, objectAt P w.os.fs w.os.cwd (modPathArg D name w.heap) = some o →
        loadModuleWith P call name D w = loadSymbolsWith P call (objectPtr o) w' := by
  obtain ⟨p, w₂, h₂, c, hpath, harg, hfree, hos, hinits, hthread, hc, hleaves, hreq⟩ :=
    getModPath_arg D name { w with thread := { w.thread with errCode := none } }
  replace hos : w₂.os = w.os := hos
  -- the path is freed before `dlerror` is asked
  obtain ⟨hnone, hsome⟩ := dlopen_checked (P := P) (modPathArg D name w.heap) w.os
  let w₃ : World := { w₂ with heap := h₂, os := w.os.tried P (modPathArg D name w.heap) }
  refine ⟨w₃, c, ⟨rfl, hleaves, hreq⟩, hthread, hc, hinits, ?_, ?_⟩
  · intro ho
    obtain ⟨hopen, herr⟩ := hnone ho
    have hopen' : onOs (dlopen P (modPathArg D name w.heap)) w₂ =
        .ok .null { w₂ with os := { w.os with dlFailed := true } } := onOs_eq (by rw [hos]; exact hopen)
    have herr' : onOs (dlerror P) { w₂ with heap := h₂, os := { w.os with dlFailed := true } } =
        .ok P.message w₃ := onOs_eq herr
    rw [loadModuleWith, bind_ok (onThread_eq (errmClear_eq _)), bind_ok hpath, bind_ok harg, bind_ok hopen',
      bind_ok (hfree _), bind_ok herr', if_pos P.message_ne_null]
    have herror : onThread (errmError .DYN_SHARED_OBJ_ERROR) w₃ =
        .ok () { w₃ with thread := { w.thread with errCode := some .DYN_SHARED_OBJ_ERROR } } := by
      refine onThread_eq ?_
      show errmError _ w₂.thread = _
      rw [hthread]
      rfl
    rw [bind_ok herror]
    rfl
  · intro o ho
    obtain ⟨hopen, herr⟩ := hsome o ho
    have hopen' : onOs (dlopen P (modPathArg D name w.heap)) w₂ =
        .ok (objectPtr o) { w₂ with os := w.os.tried P (modPathArg D name w.heap) } :=
      onOs_eq (by rw [hos]; exact hopen)
    have herr' : onOs (dlerror P) w₃ = .ok .null w₃ := onOs_eq herr
    rw [loadModuleWith, bind_ok (onThread_eq (errmClear_eq _)), bind_ok hpath, bind_ok harg, bind_ok hopen',
      bind_ok (hfree _), bind_ok herr', if_neg fun hne => hne rfl]

/-- **`load_module`** of a path that loads returns no message; the error code
    is what `init` makes of a clear one. -/
theorem loadModule_ok (hg : w.heap.Grants) (name modulesPath : CStr) {l : Loaded}
    (hl : loads P w.os.fs w.os.cwd (modulesPath.append name) = some l) :
    Yields (loadModule P name modulesPath) w fun r w' => r = .ok l.module ∧
      w'.thread = { w.thread with errCode := l.init.leaves w.inits none } ∧
      w'.inits = w.inits + 1 ∧ LoadTried P w (some (modulesPath.append name)) w' := by
  obtain ⟨w₁, c, htried, hthread, hc, hinits, -, hopened⟩ :=
    loadModule_opens (P := P) (fun _ => runInit) name modulesPath w
  rw [modPathArg, if_pos hg] at htried hopened
  rw [hc hg] at hthread
  rcases loads_cases P w.os.fs w.os.cwd (modulesPath.append name) with ⟨-, hnone⟩ |
    ⟨o, ho, ⟨nm, desc, init, hname, hdesc, hinit, hsome⟩ | ⟨-, hnone⟩⟩
  · rw [hnone] at hl
    cases hl
  · rw [hsome] at hl
    cases hl
    refine Yields.of_eq ((hopened o ho).trans (loadSymbols_ok hname hdesc hinit)) ⟨rfl, ?_, ?_, ?_⟩
    · rw [hthread, hinits]
    · rw [hinits]
    · exact ⟨by rw [htried.os]; rfl, htried.leaves, htried.requests⟩
  · rw [hnone] at hl
    cases hl

/-- **`load_module`** returns a message if the path does not load.  Without
    memory for the path it asks for the program itself, which has no `name`. -/
theorem loadModule_refuses (name D : CStr)
    (hl : w.heap.Grants → loads P w.os.fs w.os.cwd (D.append name) = none)
    (hself : ¬w.heap.Grants → (P.object P.self).name = none) :
    Yields (loadModule P name D) w fun r w' => r = .error P.message ∧
      w'.thread = { w.thread with errCode := some .DYN_SHARED_OBJ_ERROR } ∧
      w'.inits = w.inits ∧ LoadTried P w (modPathArg D name w.heap) w' := by
  obtain ⟨w₁, c, htried, hthread, -, hinits, habsent, hopened⟩ :=
    loadModule_opens (P := P) (fun _ => runInit) name D w
  -- an object that is found lacks a symbol
  have hmissing : ∀ o, objectAt P w.os.fs w.os.cwd (modPathArg D name w.heap) = some o →
      (P.object o).name = none ∨ (P.object o).desc = none ∨ (P.object o).init = none := by
    intro o ho
    by_cases hg : w.heap.Grants
    · rw [modPathArg, if_pos hg] at ho
      rcases loads_cases P w.os.fs w.os.cwd (D.append name) with ⟨hnone, -⟩ |
        ⟨o', ho', ⟨nm, desc, init, -, -, -, hsome⟩ | ⟨hmissing, -⟩⟩
      · rw [hnone] at ho
        cases ho
      · rw [hl hg] at hsome
        cases hsome
      · rw [ho'] at ho
        cases ho
        exact hmissing
    · rw [modPathArg, if_neg hg] at ho
      cases ho
      exact .inl (hself hg)
  cases ho : objectAt P w.os.fs w.os.cwd (modPathArg D name w.heap) with
  | none => exact Yields.of_eq (habsent ho) ⟨rfl, rfl, hinits, htried.os, htried.leaves, htried.requests⟩
  | some o =>
    refine Yields.of_eq ((hopened o ho).trans (loadSymbols_error _ (hmissing o ho))) ⟨rfl, ?_, hinits, ?_⟩
    · rw [hthread]
    · exact ⟨by rw [htried.os]; rfl, htried.leaves, htried.requests⟩

/-- **`load_module`** of a path that does not load returns a message, and
    `init` is not run. -/
theorem loadModule_error (hg : w.heap.Grants) (name modulesPath : CStr)
    (hl : loads P w.os.fs w.os.cwd (modulesPath.append name) = none) :
    Yields (loadModule P name modulesPath) w fun r w' => r = .error P.message ∧
      w'.thread = { w.thread with errCode := some .DYN_SHARED_OBJ_ERROR } ∧
      w'.inits = w.inits ∧ LoadTried P w (some (modulesPath.append name)) w' := by
  have hpath : modPathArg modulesPath name w.heap = some (modulesPath.append name) := if_pos hg
  rw [← hpath]
  exact loadModule_refuses name modulesPath (fun _ => hl) fun hno => absurd hg hno

/-- What `load_module` answers. -/
def answer (P : System) : Option Loaded → Except Ptr Module
  | some l => .ok l.module
  | none => .error P.message

/-- The error code `load_module` leaves, `init`s having been run `k` times. -/
def loadCode (P : System) (fs : FileSys) (cwd : Nat) (D : CStr) (k : Nat) (name : CStr) :
    Option ErrorCode :=
  match loads P fs cwd (D.append name) with
  | some l => l.init.leaves k none
  | none => some .DYN_SHARED_OBJ_ERROR

/-- Only a name that loads leaves none. -/
theorem loadCode_none {fs : FileSys} {cwd k : Nat} {D name : CStr} (h : loadCode P fs cwd D k name = none) :
    ∃ l, loads P fs cwd (D.append name) = some l ∧ l.init.leaves k none = none := by
  rw [loadCode] at h
  cases hl : loads P fs cwd (D.append name) with
  | none =>
    rw [hl] at h
    cases h
  | some l =>
    rw [hl] at h
    exact ⟨l, rfl, h⟩

/-- Both cases at once. -/
theorem loadModule_answers (hg : w.heap.Grants) (name D : CStr) :
    Yields (loadModule P name D) w fun r w' =>
      r = answer P (loads P w.os.fs w.os.cwd (D.append name)) ∧
      w'.thread = { w.thread with errCode := loadCode P w.os.fs w.os.cwd D w.inits name } ∧
      w'.inits = (if (loads P w.os.fs w.os.cwd (D.append name)).isSome then w.inits + 1 else w.inits) ∧
      LoadTried P w (some (D.append name)) w' := by
  unfold loadCode
  cases hl : loads P w.os.fs w.os.cwd (D.append name) with
  | some l => exact loadModule_ok hg name D hl
  | none => exact loadModule_error hg name D hl

/-- The `init`s leave the error code as it is. -/
def InitsTidy (P : System) : Prop :=
  ∀ o init, (P.object o).init = some init → ∀ k c, init.leaves k c = c

theorem InitsTidy.loaded (htidy : InitsTidy P) {fs : FileSys} {cwd : Nat} {path : CStr} {l : Loaded}
    (hl : loads P fs cwd path = some l) (k : Nat) (c : Option ErrorCode) : l.init.leaves k c = c := by
  rcases loads_cases P fs cwd path with ⟨-, hnone⟩ |
    ⟨o, -, ⟨nm, desc, init, -, -, hinit, hsome⟩ | ⟨-, hnone⟩⟩
  · rw [hnone] at hl
    cases hl
  · rw [hsome] at hl
    cases hl
    exact htidy o init hinit k c
  · rw [hnone] at hl
    cases hl

/-- Then only a name that does not load leaves one. -/
theorem InitsTidy.loadCode (htidy : InitsTidy P) {fs : FileSys} {cwd k : Nat} {D name : CStr}
    {e : ErrorCode} (hcode : loadCode P fs cwd D k name = some e) :
    loads P fs cwd (D.append name) = none ∧ e = .DYN_SHARED_OBJ_ERROR := by
  rw [Modules.loadCode] at hcode
  cases hl : loads P fs cwd (D.append name) with
  | none =>
    rw [hl] at hcode
    exact ⟨rfl, (Option.some.inj hcode).symm⟩
  | some l =>
    rw [hl] at hcode
    cases hcode.symm.trans (htidy.loaded hl k none)

/-! ## §3. A series of calls. -/

/-- A call of `load_module` or `rm_module` for a name: the path the system was
    asked for, and the answer or the result. -/
inductive ModCall where
  | load (name : CStr) (path : Option CStr) (answer : Except Ptr Module)
  | remove (name : CStr) (path : Option CStr) (ret : Int)

/-- These calls were made from `w` on, one after the other; besides them only
    memory was used. -/
inductive CallsMade (P : System) (D : CStr) (w : World) : List ModCall → World → Prop where
  | none : CallsMade P D w [] w
  | memory {calls : List ModCall} {w₁ : World} (h : Heap) (made : CallsMade P D w calls w₁) :
      CallsMade P D w calls { w₁ with heap := h }
  | load {calls : List ModCall} {w₁ w₂ : World} {name : CStr} {path : Option CStr}
      {answer : Except Ptr Module} (made : CallsMade P D w calls w₁)
      (asks : path = modPathArg D name w₁.heap ∧ w₂.os = w₁.os.tried P path)
      (run : loadModule P name D w₁ = .ok answer w₂) :
      CallsMade P D w (calls ++ [.load name path answer]) w₂
  | remove {calls : List ModCall} {w₁ w₂ : World} {name : CStr} {path : Option CStr} {ret : Int}
      (made : CallsMade P D w calls w₁)
      (asks : path = modPathArg D name w₁.heap ∧ ∃ v, Posix.remove P path w₁.os = .ok v w₂.os)
      (run : rmModule P name D w₁ = .ok ret w₂) :
      CallsMade P D w (calls ++ [.remove name path ret]) w₂

/-- The call for a name, in a system with these files. -/
def loadCall (P : System) (fs : FileSys) (cwd : Nat) (D : CStr) (name : CStr) : ModCall :=
  .load name (some (D.append name)) (answer P (loads P fs cwd (D.append name)))

/-- The objects of these names have been asked for, one after the other. -/
def openAll (P : System) (D : CStr) (names : List CStr) (s : Os) : Os :=
  names.foldl (fun s n => s.tried P (some (D.append n))) s

theorem openAll_concat (P : System) (D : CStr) (names : List CStr) (name : CStr) (s : Os) :
    openAll P D (names ++ [name]) s = (openAll P D names s).tried P (some (D.append name)) :=
  List.foldl_concat ..

theorem dlOnly_openAll (P : System) (D : CStr) (names : List CStr) (s : Os) :
    DlOnly s (openAll P D names s) := by
  induction names generalizing s with
  | nil => exact DlOnly.refl s
  | cons n ns ih => exact (dlOnly_tried P _ s).trans (ih _)

/-- **Nothing is closed**: an object has been opened once for each of the names
    that lead to it. -/
theorem refs_openAll (P : System) (D : CStr) (names : List CStr) (s : Os) (o : Nat) :
    (openAll P D names s).refs o = s.refs o +
      names.countP fun n => objectAt P s.fs s.cwd (some (D.append n)) = some o := by
  induction names generalizing s with
  | nil => rfl
  | cons n ns ih =>
    have hrest : (openAll P D (n :: ns) s).refs o = (s.tried P (some (D.append n))).refs o +
        ns.countP fun n => objectAt P s.fs s.cwd (some (D.append n)) = some o := ih _
    rw [hrest, List.countP_cons]
    show (if _ then _ else _) + _ = _
    by_cases ho : objectAt P s.fs s.cwd (some (D.append n)) = some o
    · rw [if_pos ho, if_pos (decide_eq_true ho)]
      omega
    · rw [if_neg ho, if_neg (by rw [decide_eq_true_eq]; exact ho)]
      omega

/-- The references are as before iff there was nothing to open. -/
theorem openAll_sameRefs_iff (P : System) (D : CStr) (names : List CStr) (s : Os) :
    (∀ o, (openAll P D names s).refs o = s.refs o) ↔
      ∀ n ∈ names, objectAt P s.fs s.cwd (some (D.append n)) = none := by
  constructor
  · intro hsame n hn
    cases ho : objectAt P s.fs s.cwd (some (D.append n)) with
    | none => rfl
    | some o =>
      -- the object was opened for this name
      have hzero := (refs_openAll P D names s o).symm.trans (hsame o)
      have hcount := List.countP_eq_zero.mp (Nat.add_left_cancel (hzero.trans (Nat.add_zero _).symm)) n hn
      rw [decide_eq_true_eq] at hcount
      exact absurd ho hcount
  · intro hnone o
    rw [refs_openAll, List.countP_eq_zero.mpr, Nat.add_zero]
    intro n hn
    rw [hnone n hn, decide_eq_true_eq]
    rintro ⟨⟩

end Prom.Modules
