/-
  Prom.Errm.Programs — programs made of edf functions, run twice.

  A function's body is a tree: it reads and writes the error code and the
  program's other variables, calls functions and goes on with what they
  return, defers handlers, and returns.  A handler's body is the same without
  deferring.  The type `F` names a function together with its arguments, `H` a
  handler; both may be any types, and functions may call each other and
  themselves.

  `call` runs a program with the library's frames.  `specCall` is what the
  library is for: each call keeps the list of what it deferred, and when its
  body has returned runs the static handlers and then the dynamic ones, each
  in reverse order of registration; it gives up where one of the limits would
  be exceeded.  Both write down in a log when a function is entered and left
  and with which argument a handler is run.
-/
import Prom.Errm.Defers

namespace Prom.Errm

open Prom.C Exec

/-! ## §1. Programs. -/

/-- What a program can see and change besides the frames. -/
structure Vars (W : Type) where
  errCode : Option ErrorCode
  world : W

/-- An object of `n` bytes. -/
structure Obj (n : Size) where
  cells : List Cell
  length_eq : cells.length = n.toNat

/-- What a handler gets to see of its argument. -/
inductive ArgVal where
  | ptr (p : Ptr)
  | obj (cells : List Cell)
  deriving Repr, DecidableEq

/-- What a body can register: a handler with a pointer, or a handler with an
    object of the handler's argument type. -/
inductive Deferral (H : Type) (size : H → Size) where
  | defer (h : H) (arg : Ptr)
  | staticDefer (h : H) (obj : Obj (size h))

/-- A body returning an `A`; `D` is what it can register. -/
inductive Prog (W F R D A : Type) where
  /-- Return, early or at the end. -/
  | ret (a : A)
  /-- Go on depending on the variables. -/
  | read (k : Vars W → Prog W F R D A)
  /-- Set the variables. -/
  | write (v : Vars W) (k : Prog W F R D A)
  /-- Call a function and go on depending on what it returns. -/
  | call (f : F) (k : R → Prog W F R D A)
  /-- Defer. -/
  | register (d : D) (k : Prog W F R D A)

/-- An object of the size of a pointer is no larger than `PTRDIFF_MAX`. -/
theorem pointer_lt : (8 : Size).toNat < 2 ^ 63 := by decide

/-- A program: the bodies of its functions and of its handlers, and the sizes
    of the handlers' argument types. -/
structure Program (W F R H : Type) where
  /-- `sizeof` of the object a static handler is given. -/
  size : H → Size
  /-- No object is larger than `PTRDIFF_MAX`. -/
  size_lt : ∀ h, (size h).toNat < 2 ^ 63
  body : F → Prog W F R (Deferral H size) R
  handler : H → ArgVal → Prog W F R Empty Unit

/-- An entry of the log. -/
inductive Event (F H : Type) where
  | enter (f : F)
  | ran (h : H) (arg : ArgVal)
  | leave (f : F)

section Semantics

variable {W F R H D A : Type}

/-- Run a body, given how to reach the variables, to call, and to register. -/
def interp {σ : Type} (vars : Lens σ (Vars W)) (callF : F → Exec σ R) (reg : D → Exec σ Unit) :
    Prog W F R D A → Exec σ A
  | .ret a => pure a
  | .read k => fun s => interp vars callF reg (k (vars.get s)) s
  | .write v k => do
    modify fun s => vars.set s v
    interp vars callF reg k
  | .call f k => do
    let r ← callF f
    interp vars callF reg (k r)
  | .register d k => do
    reg d
    interp vars callF reg k

/-! ## §2. With the library. -/

/-- A thread running a program. -/
structure State (W F H : Type) where
  thread : Thread H
  world : W
  log : List (Event F H)

def threadLens : Lens (State W F H) (Thread H) where
  get := State.thread
  set s t := { s with thread := t }
  get_set _ _ := rfl
  set_get _ := rfl
  set_set _ _ _ := rfl

def varsLens : Lens (State W F H) (Vars W) where
  get s := ⟨s.thread.errCode, s.world⟩
  set s v := { s with thread := { s.thread with errCode := v.errCode }, world := v.world }
  get_set _ _ := rfl
  set_get _ := rfl
  set_set _ _ _ := rfl

/-- Write an event down. -/
def note (e : Event F H) : Exec (State W F H) Unit := modify fun s => { s with log := s.log ++ [e] }

/-- What a handler sees of its argument. -/
def argVal (size : H → Size) (h : H) : Arg → Exec (State W F H) ArgVal
  | .ptr p => pure (.ptr p)
  | .pool i off => do
    let cells ← zoom threadLens (poolObject i off (size h))
    pure (.obj cells)

/-- A handler looks at its argument and runs its body. -/
def runHandler (P : Program W F R H) (callF : F → Exec (State W F H) R) (h : H) (arg : Arg) :
    Exec (State W F H) Unit := do
  let v ← argVal P.size h arg
  note (.ran h v)
  interp varsLens callF Empty.elim (P.handler h v)

/-- What a body registers. -/
def register {size : H → Size} : Deferral H size → Exec (State W F H) Unit
  | .defer h arg => zoom threadLens (defer h arg)
  | .staticDefer h obj => zoom threadLens (staticDefer h (size h) obj.cells)

/-- Call a function; the fuel bounds the depth of calls. -/
def call (P : Program W F R H) : Nat → F → Exec (State W F H) R
  | 0, _ => fail .fuel
  | fuel + 1, f => do
    note (.enter f)
    let r ← edfFunc threadLens (runHandler P (call P fuel))
      (interp varsLens (call P fuel) register (P.body f))
    note (.leave f)
    pure r

/-! ## §3. What the library is for. -/

/-- The handlers one call has deferred so far, in order of registration. -/
structure Deferred (H : Type) where
  statics : List (H × List Cell)
  dyns : List (H × Ptr)

/-- The bytes of the saved arguments. -/
def Deferred.bytes (d : Deferred H) : Nat := (d.statics.map fun e => e.2.length).sum

/-- The variables and the log. -/
structure View (W F H : Type) where
  vars : Vars W
  log : List (Event F H)

/-- A call under way: variables and log, and what it has deferred. -/
structure Running (W F H : Type) where
  view : View W F H
  deferred : Deferred H

def viewVars : Lens (View W F H) (Vars W) where
  get := View.vars
  set v x := { v with vars := x }
  get_set _ _ := rfl
  set_get _ := rfl
  set_set _ _ _ := rfl

def runningView : Lens (Running W F H) (View W F H) where
  get := Running.view
  set r v := { r with view := v }
  get_set _ _ := rfl
  set_get _ := rfl
  set_set _ _ _ := rfl

def runningVars : Lens (Running W F H) (Vars W) where
  get r := r.view.vars
  set r x := { r with view := { r.view with vars := x } }
  get_set _ _ := rfl
  set_get _ := rfl
  set_set _ _ _ := rfl

def specNote (e : Event F H) : Exec (View W F H) Unit := modify fun v => { v with log := v.log ++ [e] }

/-- Register, unless the call would hold too many entries or too many bytes
    of saved arguments. -/
def specRegister {size : H → Size} : Deferral H size → Exec (Running W F H) Unit
  | .defer h arg => fun r =>
    if r.deferred.dyns.length + 1 > MAX_DYN_DEFERS then .stop .abort r
    else .ok () { r with deferred := { r.deferred with dyns := r.deferred.dyns ++ [(h, arg)] } }
  | .staticDefer h obj => fun r =>
    if r.deferred.statics.length + 1 > MAX_STATIC_DEFERS then .stop .abort r
    else if r.deferred.bytes + (size h).toNat > POOL_SIZE then .stop .abort r
    else .ok ()
      { r with deferred := { r.deferred with statics := r.deferred.statics ++ [(h, obj.cells)] } }

/-- Start with nothing deferred, and forget what was deferred at the end. -/
def collecting (m : Exec (Running W F H) A) : Exec (View W F H) A := fun v =>
  match m ⟨v, ⟨[], []⟩⟩ with
  | .ok a r => .ok a r.view
  | .stop e r => .stop e r.view

/-- No error yet. -/
def specClear : Exec (View W F H) Unit :=
  modify fun v => { v with vars := { v.vars with errCode := none } }

/-- Run one handler with its own argument. -/
def specHandler (P : Program W F R H) (callF : F → Exec (View W F H) R) (h : H) (v : ArgVal) :
    Exec (View W F H) Unit := do
  specNote (.ran h v)
  interp viewVars callF Empty.elim (P.handler h v)

/-- Run each of these handlers once, in this order. -/
def specHandlers (P : Program W F R H) (callF : F → Exec (View W F H) R) :
    List (H × ArgVal) → Exec (View W F H) Unit
  | [] => pure ()
  | (h, v) :: rest => do
    specHandler P callF h v
    specHandlers P callF rest

/-- The order handlers are run in: the static ones in reverse order of
    registration, then the dynamic ones in reverse order of registration. -/
def Deferred.runOrder (d : Deferred H) : List (H × ArgVal) :=
  (d.statics.reverse.map fun e => (e.1, .obj e.2)) ++ (d.dyns.reverse.map fun e => (e.1, .ptr e.2))

/-- Clear the error, run the body, then run what it deferred. -/
def specFunc (P : Program W F R H) (callF : F → Exec (View W F H) R) (f : F) :
    Exec (View W F H) R := do
  specClear
  collecting do
    let r ← interp runningVars (fun g => zoom runningView (callF g)) specRegister (P.body f)
    zoom runningView (specHandlers P callF (← get).deferred.runOrder)
    pure r

/-- **What a call of an edf function is to do**, with `room` frames left for
    it and what it calls. -/
def specCall (P : Program W F R H) : (room : Nat) → F → Exec (View W F H) R
  | 0, f => do
    specNote (.enter f)
    specClear
    -- the nesting depth would exceed STACK_SIZE
    fail .abort
  | room + 1, f => do
    specNote (.enter f)
    let r ← specFunc P (specCall P room) f
    specNote (.leave f)
    pure r

end Semantics

end Prom.Errm
