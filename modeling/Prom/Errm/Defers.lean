/-
  Prom.Errm.Defers — the functions of src/errm/errm.c and the edf macros of
  src/errm/errm.h.

  A thread has an error code and a stack of STACK_SIZE frames.  A frame holds
  the handlers deferred by one running function: static ones, whose argument
  was copied into the frame's pool, and dynamic ones, whose argument is a
  pointer.  The used part of each array is a list with the last entry first.

  Handlers are values of a type `H`; what running one does is the parameter
  `handle`, because handlers are functions of the program that uses the
  library.  The thread's state is reached through a lens, so the same
  functions serve any program.

  Main results:
    * `deferPush_eq`, `deferPop_eq`, `defer_eq`, `staticDefer_eq` and their
      refusals — one equation for each branch.
    * `edfFunc_refused` — a call with every frame in use aborts.
-/
import Prom.C.Cell
import Prom.C.Exec
import Mathlib.Logic.Function.Basic

namespace Prom.Errm

open Prom.C Exec

/-! ## §1. The thread's state. -/

/-- `enum error_codes`; no error is `none`. -/
inductive ErrorCode where
  | NO_PERMISSIONS
  | NOT_ENOUGH_MEMORY
  | NOT_THE_EXPECTED
  | DOES_NOT_EXIST
  | LIMIT_EXCEEDED
  | PARSING_ERROR
  | DYN_SHARED_OBJ_ERROR
  | UNKNOWN_ERROR
  deriving Repr, DecidableEq

def STACK_SIZE : Nat := 12
def MAX_DYN_DEFERS : Nat := 12
def MAX_STATIC_DEFERS : Nat := 6
/-- `MAX_STATIC_DEFERS * sizeof(void *)`. -/
def POOL_SIZE : Nat := MAX_STATIC_DEFERS * 8

/-- `struct defer_data_t`; `static_len` and `dyn_len` are the lengths of the
    lists. -/
structure Frame (H : Type) where
  /-- Handlers with the place of their argument in the pool, last one first. -/
  statics : List (H × Nat)
  /-- Handlers with their argument, last one first. -/
  dyns : List (H × Ptr)
  /-- `pool.data`. -/
  pool : List Cell
  /-- `pool.used`. -/
  used : Size

/-- `struct error_manager` and `struct defer_stack_t` of one thread. -/
structure Thread (H : Type) where
  errCode : Option ErrorCode
  stack : Fin STACK_SIZE → Frame H
  curr : Int

/-- A frame with nothing deferred; the pool may hold anything. -/
def Frame.Empty {H : Type} (fr : Frame H) : Prop :=
  fr.statics = [] ∧ fr.dyns = [] ∧ fr.used = 0 ∧ fr.pool.length = POOL_SIZE

/-- A frame of zero bytes. -/
def Frame.zero (H : Type) : Frame H := ⟨[], [], List.replicate POOL_SIZE (.byte 0), 0⟩

/-- The thread before it runs anything: `errm = {0}`,
    `defer_stack = {.curr = -1}`. -/
def Thread.start (H : Type) : Thread H := ⟨none, fun _ => .zero H, -1⟩

/-- The argument a handler is called with: the pointer it was deferred with,
    or a place in the pool of a frame. -/
inductive Arg where
  | ptr (p : Ptr)
  | pool (frame : Fin STACK_SIZE) (off : Nat)
  deriving Repr, DecidableEq

variable {H : Type}

/-- Replace a frame. -/
def Thread.setFrame (t : Thread H) (i : Fin STACK_SIZE) (fr : Frame H) : Thread H :=
  { t with stack := Function.update t.stack i fr }

@[simp] theorem setFrame_same (t : Thread H) (i : Fin STACK_SIZE) (fr : Frame H) :
    (t.setFrame i fr).stack i = fr := Function.update_self _ _ _

theorem setFrame_ne {t : Thread H} {i j : Fin STACK_SIZE} (fr : Frame H) (hne : j ≠ i) :
    (t.setFrame i fr).stack j = t.stack j := Function.update_of_ne hne _ _

@[simp] theorem setFrame_curr (t : Thread H) (i : Fin STACK_SIZE) (fr : Frame H) :
    (t.setFrame i fr).curr = t.curr := rfl

@[simp] theorem setFrame_errCode (t : Thread H) (i : Fin STACK_SIZE) (fr : Frame H) :
    (t.setFrame i fr).errCode = t.errCode := rfl

/-- The frame with index `curr`, if the array has one. -/
def Thread.currFrame? (t : Thread H) : Option (Fin STACK_SIZE) :=
  match t.curr with
  | .ofNat n => if h : n < STACK_SIZE then some ⟨n, h⟩ else none
  | .negSucc _ => none

theorem currFrame?_eq {t : Thread H} {i : Fin STACK_SIZE} (h : t.curr = (i.val : Int)) :
    t.currFrame? = some i := by
  rw [Thread.currFrame?, h]
  exact dif_pos i.isLt

/-! ## §2. The source: errm.c. -/

/-- `errm_error(err_code)`. -/
def errmError (c : ErrorCode) : Exec (Thread H) Unit := modify fun t => { t with errCode := some c }

/-- `errm_clear()`. -/
def errmClear : Exec (Thread H) Unit := modify fun t => { t with errCode := none }

/-- `errm_error_code()`. -/
def errmErrorCode : Exec (Thread H) (Option ErrorCode) := do return (← get).errCode

/-- `defer_push()`; false is its refusal. -/
def deferPush : Exec (Thread H) Bool := fun t =>
  if t.curr ≥ (STACK_SIZE : Int) - 1 then .ok false t
  else .ok true { t with curr := t.curr + 1 }

/-- `defer_pop()`. -/
def deferPop : Exec (Thread H) Bool := fun t =>
  if t.curr ≤ -1 then .ok false t
  else .ok true { t with curr := t.curr - 1 }

/-- `defer_stack.stack + defer_stack.curr`, to be accessed. -/
def currStackframe : Exec (Thread H) (Fin STACK_SIZE) := fun t =>
  match t.currFrame? with
  | some i => .ok i t
  | none => .stop .undefined t

/-- `static_defer(handle, s, arg)`; `obj` is the object at `arg`. -/
def staticDefer (handle : H) (s : Size) (obj : List Cell) : Exec (Thread H) Unit := do
  let i ← currStackframe
  let fr := (← get).stack i
  if fr.statics.length ≥ MAX_STATIC_DEFERS then fail .abort
  else if (fr.used + s).toNat > POOL_SIZE then fail .abort
  else if obj.length < s.toNat ∨ fr.used.toNat + s.toNat > fr.pool.length then
    -- `memcpy` outside the object or outside the pool
    fail .undefined
  else
    modify (·.setFrame i
      { fr with
        used := fr.used + s
        pool := splice fr.pool fr.used.toNat (obj.take s.toNat)
        statics := (handle, fr.used.toNat) :: fr.statics })

/-- `defer(handle, arg)`. -/
def defer (handle : H) (arg : Ptr) : Exec (Thread H) Unit := do
  let i ← currStackframe
  let fr := (← get).stack i
  if fr.dyns.length ≥ MAX_DYN_DEFERS then fail .abort
  else modify (·.setFrame i { fr with dyns := (handle, arg) :: fr.dyns })

/-- Take the last static entry off a frame. -/
def popStatic (i : Fin STACK_SIZE) : Exec (Thread H) (Option (H × Nat)) := fun t =>
  match (t.stack i).statics with
  | [] => .ok none t
  | e :: rest => .ok (some e) (t.setFrame i { t.stack i with statics := rest })

/-- Take the last dynamic entry off a frame. -/
def popDyn (i : Fin STACK_SIZE) : Exec (Thread H) (Option (H × Ptr)) := fun t =>
  match (t.stack i).dyns with
  | [] => .ok none t
  | e :: rest => .ok (some e) (t.setFrame i { t.stack i with dyns := rest })

/-- The object of `n` bytes at a place in the pool. -/
def poolObject (i : Fin STACK_SIZE) (off : Nat) (n : Size) : Exec (Thread H) (List Cell) := fun t =>
  if off + n.toNat ≤ (t.stack i).pool.length then .ok (slice (t.stack i).pool off n.toNat) t
  else .stop .undefined t

/-- A bound on the passes of a loop that nothing running can exceed. -/
def maxPasses : Nat := 2 ^ 64

section Running

variable {σ α : Type} (thread : Lens σ (Thread H)) (handle : H → Arg → Exec σ Unit)

/-- One pass of the first loop of `run_defers`. -/
def staticPass (i : Fin STACK_SIZE) (_ : Unit) : Exec σ (Unit ⊕ Unit) := do
  match ← zoom thread (popStatic i) with
  | some (h, off) =>
    handle h (.pool i off)
    pure (.inl ())
  | none => pure (.inr ())

/-- One pass of the second loop of `run_defers`. -/
def dynPass (i : Fin STACK_SIZE) (_ : Unit) : Exec σ (Unit ⊕ Unit) := do
  match ← zoom thread (popDyn i) with
  | some (h, p) =>
    handle h (.ptr p)
    pure (.inl ())
  | none => pure (.inr ())

/-- `run_defers()`. -/
def runDefers : Exec σ Unit := do
  let i ← zoom thread currStackframe
  loop maxPasses (staticPass thread handle i) ()
  -- the pool is given up before the dynamic handlers run
  zoom thread (modify fun t => t.setFrame i { t.stack i with used := 0 })
  loop maxPasses (dynPass thread handle i) ()

/-- What `edf_func1`, `edf_func2` and their static variants put around the
    body of a function. -/
def edfFunc (body : Exec σ α) : Exec σ α := do
  zoom thread errmClear
  if !(← zoom thread deferPush) then
    -- "Defer-stack limit reached" on stderr
    fail .abort
  else do
    let r ← body
    runDefers thread handle
    if !(← zoom thread deferPop) then
      -- "Defer-stack underflow!!" on stderr
      fail .abort
    else pure r

end Running

/-! ## §3. One equation for each branch. -/

theorem deferPush_eq {t : Thread H} (h : t.curr < (STACK_SIZE : Int) - 1) :
    deferPush t = .ok true { t with curr := t.curr + 1 } :=
  if_neg (Int.not_le.mpr h)

theorem deferPush_refused {t : Thread H} (h : (STACK_SIZE : Int) - 1 ≤ t.curr) :
    deferPush t = .ok false t :=
  if_pos h

theorem deferPop_eq {t : Thread H} (h : -1 < t.curr) :
    deferPop t = .ok true { t with curr := t.curr - 1 } :=
  if_neg (Int.not_le.mpr h)

theorem currStackframe_eq {t : Thread H} {i : Fin STACK_SIZE} (h : t.curr = (i.val : Int)) :
    currStackframe t = .ok i t := by
  rw [currStackframe, currFrame?_eq h]

theorem defer_eq {t : Thread H} {i : Fin STACK_SIZE} (h : t.curr = (i.val : Int))
    (hroom : (t.stack i).dyns.length < MAX_DYN_DEFERS) (handle : H) (arg : Ptr) :
    defer handle arg t =
      .ok () (t.setFrame i { t.stack i with dyns := (handle, arg) :: (t.stack i).dyns }) := by
  rw [defer, bind_ok (currStackframe_eq h), get_bind_apply, if_neg (Nat.not_le.mpr hroom),
    modify_apply]

theorem defer_full {t : Thread H} {i : Fin STACK_SIZE} (h : t.curr = (i.val : Int))
    (hfull : MAX_DYN_DEFERS ≤ (t.stack i).dyns.length) (handle : H) (arg : Ptr) :
    defer handle arg t = .stop .abort t := by
  rw [defer, bind_ok (currStackframe_eq h), get_bind_apply, if_pos hfull, fail_apply]

/-- An object goes to the end of the used part of the pool. -/
theorem staticDefer_eq {t : Thread H} {i : Fin STACK_SIZE} (h : t.curr = (i.val : Int))
    (hroom : (t.stack i).statics.length < MAX_STATIC_DEFERS) {s : Size} {obj : List Cell}
    (hobj : obj.length = s.toNat) (hfit : (t.stack i).used.toNat + s.toNat ≤ POOL_SIZE)
    (hpool : (t.stack i).pool.length = POOL_SIZE) (handle : H) :
    staticDefer handle s obj t =
      .ok () (t.setFrame i
        { t.stack i with
          used := (t.stack i).used + s
          pool := splice (t.stack i).pool (t.stack i).used.toNat obj
          statics := (handle, (t.stack i).used.toNat) :: (t.stack i).statics }) := by
  have hsum : ((t.stack i).used + s).toNat = (t.stack i).used.toNat + s.toNat := by
    rw [BitVec.toNat_add]
    exact Nat.mod_eq_of_lt (Nat.lt_of_le_of_lt hfit (by decide))
  have hcopy : ¬(obj.length < s.toNat ∨
      (t.stack i).used.toNat + s.toNat > (t.stack i).pool.length) := by
    omega
  rw [staticDefer, bind_ok (currStackframe_eq h), get_bind_apply, if_neg (Nat.not_le.mpr hroom),
    if_neg (by rw [hsum]; omega), if_neg hcopy, modify_apply, ← hobj, List.take_length]

theorem staticDefer_full {t : Thread H} {i : Fin STACK_SIZE} (h : t.curr = (i.val : Int))
    (hfull : MAX_STATIC_DEFERS ≤ (t.stack i).statics.length) (handle : H) (s : Size)
    (obj : List Cell) : staticDefer handle s obj t = .stop .abort t := by
  rw [staticDefer, bind_ok (currStackframe_eq h), get_bind_apply, if_pos hfull, fail_apply]

/-- No object is as large as half the address space, so the sum in the check
    does not wrap. -/
theorem staticDefer_exceeds {t : Thread H} {i : Fin STACK_SIZE} (h : t.curr = (i.val : Int))
    {s : Size} (hs : s.toNat < 2 ^ 63) (hused : (t.stack i).used.toNat ≤ POOL_SIZE)
    (hexceeds : POOL_SIZE < (t.stack i).used.toNat + s.toNat) (handle : H) (obj : List Cell) :
    staticDefer handle s obj t = .stop .abort t := by
  have hsum : ((t.stack i).used + s).toNat = (t.stack i).used.toNat + s.toNat := by
    rw [BitVec.toNat_add]
    apply Nat.mod_eq_of_lt
    have : POOL_SIZE < 2 ^ 63 := by decide
    omega
  rw [staticDefer, bind_ok (currStackframe_eq h), get_bind_apply]
  by_cases hfull : (t.stack i).statics.length ≥ MAX_STATIC_DEFERS
  · rw [if_pos hfull, fail_apply]
  · rw [if_neg hfull, if_pos (by rw [hsum]; exact hexceeds), fail_apply]

theorem popStatic_nil {t : Thread H} {i : Fin STACK_SIZE} (h : (t.stack i).statics = []) :
    popStatic i t = .ok none t := by
  rw [popStatic, h]

theorem popStatic_cons {t : Thread H} {i : Fin STACK_SIZE} {e : H × Nat} {rest : List (H × Nat)}
    (h : (t.stack i).statics = e :: rest) :
    popStatic i t = .ok (some e) (t.setFrame i { t.stack i with statics := rest }) := by
  rw [popStatic, h]

theorem popDyn_nil {t : Thread H} {i : Fin STACK_SIZE} (h : (t.stack i).dyns = []) :
    popDyn i t = .ok none t := by
  rw [popDyn, h]

theorem popDyn_cons {t : Thread H} {i : Fin STACK_SIZE} {e : H × Ptr} {rest : List (H × Ptr)}
    (h : (t.stack i).dyns = e :: rest) :
    popDyn i t = .ok (some e) (t.setFrame i { t.stack i with dyns := rest }) := by
  rw [popDyn, h]

theorem maxPasses_pos : 0 < maxPasses := by decide

theorem one_lt_maxPasses : 1 < maxPasses := by decide

theorem errmClear_eq (t : Thread H) : errmClear t = .ok () { t with errCode := none } := rfl

section Call

variable {σ α : Type} {thread : Lens σ (Thread H)} {s : σ}

/-- The state a body starts in. -/
def entered (thread : Lens σ (Thread H)) (s : σ) : σ :=
  thread.set s { thread.get s with errCode := none, curr := (thread.get s).curr + 1 }

/-- Clearing the error and pushing a frame. -/
theorem edfFunc_entered (h : (thread.get s).curr < (STACK_SIZE : Int) - 1)
    (handle : H → Arg → Exec σ Unit) (body : Exec σ α) :
    edfFunc thread handle body s =
      (do
        let r ← body
        runDefers thread handle
        if !(← zoom thread deferPop) then fail .abort else pure r) (entered thread s) := by
  have hpush : deferPush (thread.get (thread.set s { thread.get s with errCode := none })) =
      .ok true { thread.get s with errCode := none, curr := (thread.get s).curr + 1 } := by
    rw [thread.get_set]
    exact deferPush_eq h
  rw [edfFunc, bind_ok (zoom_ok (errmClear_eq _)), bind_ok (zoom_ok hpush), thread.set_set]
  rfl

/-- A call whose body and handlers return. -/
theorem edfFunc_eq {s₁ s₂ : σ} {a : α} (h : (thread.get s).curr < (STACK_SIZE : Int) - 1)
    {handle : H → Arg → Exec σ Unit} {body : Exec σ α}
    (hbody : body (entered thread s) = .ok a s₁) (hdefers : runDefers thread handle s₁ = .ok () s₂)
    (hpop : -1 < (thread.get s₂).curr) :
    edfFunc thread handle body s =
      .ok a (thread.set s₂ { thread.get s₂ with curr := (thread.get s₂).curr - 1 }) := by
  rw [edfFunc_entered h, bind_ok hbody, bind_ok hdefers, bind_ok (zoom_ok (deferPop_eq hpop))]
  rfl

/-- A call whose body stops. -/
theorem edfFunc_stop {s₁ : σ} {e : Fault} (h : (thread.get s).curr < (STACK_SIZE : Int) - 1)
    (handle : H → Arg → Exec σ Unit) {body : Exec σ α}
    (hbody : body (entered thread s) = .stop e s₁) :
    edfFunc thread handle body s = .stop e s₁ := by
  rw [edfFunc_entered h, bind_stop hbody]

end Call

/-- A call with every frame in use is refused. -/
theorem edfFunc_refused {σ α : Type} {thread : Lens σ (Thread H)} {s : σ}
    (h : (STACK_SIZE : Int) - 1 ≤ (thread.get s).curr) (handle : H → Arg → Exec σ Unit)
    (body : Exec σ α) :
    edfFunc thread handle body s =
      .stop .abort (thread.set s { thread.get s with errCode := none }) := by
  have hpush : deferPush (thread.get (thread.set s { thread.get s with errCode := none })) =
      .ok false { thread.get s with errCode := none } := by
    rw [thread.get_set]
    exact deferPush_refused h
  rw [edfFunc, bind_ok (zoom_ok (errmClear_eq _)), bind_ok (zoom_ok hpush), thread.set_set]
  rfl

end Prom.Errm
