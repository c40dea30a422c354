/-
  Prom.Errm.OpenPrograms — programs whose handlers use the library too.

  The handlers of Prom.Errm.Programs register nothing.  Nothing in the library
  forbids it, and the library's own test registers from a handler, so here a
  handler can do all a body can: defer, set and clear the error code, call
  edf functions.  It can also write into the object it was given.  Each use of
  the library is a step of its own.

  A log remembers what the frames do not: which handlers were registered in
  which frame and with what, which were run, and every change of the error
  code.  Nothing in the code depends on it.

  Main results:
    * `staticDefer_inv`, `defer_inv` — what a registration that returns did.
    * `perform_keeps` — what every step keeps, a body keeps.
    * `openCall_beyond` — a call leaves the frames of its callers, and what is
      registered and run there, alone.
-/
import Prom.Errm.Programs

namespace Prom.Errm

open Prom.C Exec

/-! ## §1. Programs. -/

/-- The code of a function or of a handler; `D` is what else it can do with
    the frame it runs in. -/
inductive Code (W F R D A : Type) where
  /-- Return, early or at the end. -/
  | ret (a : A)
  /-- Go on depending on the error code and the variables. -/
  | read (k : Option ErrorCode → W → Code W F R D A)
  /-- Set the variables. -/
  | write (w : W) (k : Code W F R D A)
  /-- `errm_error(c)`. -/
  | error (c : ErrorCode) (k : Code W F R D A)
  /-- `errm_clear()`. -/
  | clear (k : Code W F R D A)
  /-- Call an edf function and go on depending on what it returns. -/
  | call (f : F) (k : R → Code W F R D A)
  | act (d : D) (k : Code W F R D A)

/-- What a handler can do with its frame: register, and write a cell of the
    object it was given. -/
inductive HandlerAct (H : Type) (size : H → Size) where
  | register (d : Deferral H size)
  | store (n : Nat) (c : Cell)

/-- A program: the bodies of its edf functions and of its handlers, and the
    sizes of the handlers' argument types. -/
structure OpenProgram (W F R H : Type) where
  /-- `sizeof` of the object a static handler is given. -/
  size : H → Size
  /-- No object is larger than `PTRDIFF_MAX`. -/
  size_lt : ∀ h, (size h).toNat < 2 ^ 63
  body : F → Code W F R (Deferral H size) R
  handler : H → ArgVal → Code W F R (HandlerAct H size) Unit

/-- The first frame. -/
def bottomFrame : Fin STACK_SIZE := ⟨0, Nat.succ_pos 11⟩

/-- An entry of the log. -/
inductive Mark (H : Type) where
  | registered (frame : Fin STACK_SIZE) (h : H) (arg : ArgVal)
  | ran (frame : Fin STACK_SIZE) (h : H) (arg : ArgVal)
  | raised (c : ErrorCode)
  | cleared
  deriving DecidableEq

/-- The frame a mark is about. -/
def Mark.frame? {H : Type} : Mark H → Option (Fin STACK_SIZE)
  | .registered i _ _ => some i
  | .ran i _ _ => some i
  | .raised _ => none
  | .cleared => none

/-- A thread running a program. -/
structure Traced (W H : Type) where
  thread : Thread H
  world : W
  log : List (Mark H)

def tracedThread {W H : Type} : Lens (Traced W H) (Thread H) where
  get := Traced.thread
  set s t := { s with thread := t }
  get_set _ _ := rfl
  set_get _ := rfl
  set_set _ _ _ := rfl

section Semantics

variable {W F R H D A : Type}

/-- Write a mark down. -/
def mark (m : Mark H) : Exec (Traced W H) Unit := modify fun s => { s with log := s.log ++ [m] }

/-- Write down a mark about the current frame. -/
def markFrame (m : Fin STACK_SIZE → Mark H) : Exec (Traced W H) Unit := do
  let i ← zoom tracedThread currStackframe
  mark (m i)

/-- Run code, given how to call and what its acts do. -/
def perform (callF : F → Exec (Traced W H) R) (act : D → Exec (Traced W H) Unit) :
    Code W F R D A → Exec (Traced W H) A
  | .ret a => pure a
  | .read k => fun s => perform callF act (k s.thread.errCode s.world) s
  | .write w k => do
    modify fun s => { s with world := w }
    perform callF act k
  | .error c k => do
    zoom tracedThread (errmError c)
    mark (.raised c)
    perform callF act k
  | .clear k => do
    zoom tracedThread errmClear
    mark .cleared
    perform callF act k
  | .call f k => do
    let r ← callF f
    perform callF act (k r)
  | .act d k => do
    act d
    perform callF act k

/-- `defer` or `static_defer`. -/
def openRegister {size : H → Size} : Deferral H size → Exec (Traced W H) Unit
  | .defer h arg => do
    zoom tracedThread (defer h arg)
    markFrame fun i => .registered i h (.ptr arg)
  | .staticDefer h obj => do
    zoom tracedThread (staticDefer h (size h) obj.cells)
    markFrame fun i => .registered i h (.obj obj.cells)

/-- What a handler sees of its argument. -/
def readArg (size : H → Size) (h : H) : Arg → Exec (Traced W H) ArgVal
  | .ptr p => pure (.ptr p)
  | .pool i off => do
    let cells ← zoom tracedThread (poolObject i off (size h))
    pure (.obj cells)

/-- Write cell `n` of the object at the handler's argument. -/
def storeArg (size : H → Size) (h : H) (n : Nat) (c : Cell) : Arg → Exec (Thread H) Unit
  -- what a pointer leads to is one of the program's variables
  | .ptr _ => pure ()
  | .pool i off => fun t =>
    if n < (size h).toNat ∧ off + n < (t.stack i).pool.length then
      .ok () (t.setFrame i { t.stack i with pool := splice (t.stack i).pool (off + n) [c] })
    else .stop .undefined t

/-- What a handler does with its frame. -/
def handlerAct (size : H → Size) (h : H) (arg : Arg) :
    HandlerAct H size → Exec (Traced W H) Unit
  | .register d => openRegister d
  | .store n c => zoom tracedThread (storeArg size h n c arg)

/-- A handler looks at its argument and runs. -/
def openHandler (P : OpenProgram W F R H) (callF : F → Exec (Traced W H) R) (h : H) (arg : Arg) :
    Exec (Traced W H) Unit := do
  let v ← readArg P.size h arg
  markFrame fun i => .ran i h v
  perform callF (handlerAct P.size h arg) (P.handler h v)

/-- Call an edf function, which clears the error code first; the fuel bounds
    the depth of calls. -/
def openCall (P : OpenProgram W F R H) : Nat → F → Exec (Traced W H) R
  | 0, _ => fail .fuel
  | fuel + 1, f => do
    mark .cleared
    edfFunc tracedThread (openHandler P (openCall P fuel))
      (perform (openCall P fuel) openRegister (P.body f))

end Semantics

/-! ## §2. What a step that returns did. -/

section Registering

variable {H : Type} {t t' : Thread H} {i : Fin STACK_SIZE}

theorem currStackframe_inv (hrun : currStackframe t = .ok i t') :
    t.curr = (i.val : Int) ∧ t' = t := by
  obtain ⟨c, stack, curr⟩ := t
  cases curr with
  | ofNat n =>
    by_cases hn : n < STACK_SIZE
    · rw [currStackframe_eq (i := ⟨n, hn⟩) rfl] at hrun
      cases hrun
      exact ⟨rfl, rfl⟩
    · simp only [currStackframe, Thread.currFrame?, dif_neg hn] at hrun
      cases hrun
  | negSucc n => cases hrun

theorem defer_inv (h : t.curr = (i.val : Int)) {handle : H} {arg : Ptr} {u : Unit}
    (hrun : defer handle arg t = .ok u t') :
    t' = t.setFrame i { t.stack i with dyns := (handle, arg) :: (t.stack i).dyns } := by
  rcases Nat.lt_or_ge (t.stack i).dyns.length MAX_DYN_DEFERS with hroom | hfull
  · rw [defer_eq h hroom] at hrun
    cases hrun
    rfl
  · rw [defer_full h hfull] at hrun
    cases hrun

theorem staticDefer_inv (h : t.curr = (i.val : Int)) {s : Size} {obj : List Cell}
    (hs : s.toNat < 2 ^ 63) (hobj : obj.length = s.toNat)
    (hused : (t.stack i).used.toNat ≤ POOL_SIZE) (hpool : (t.stack i).pool.length = POOL_SIZE)
    {handle : H} {u : Unit} (hrun : staticDefer handle s obj t = .ok u t') :
    (t.stack i).used.toNat + s.toNat ≤ POOL_SIZE ∧
      t' = t.setFrame i
        { t.stack i with
          used := (t.stack i).used + s
          pool := splice (t.stack i).pool (t.stack i).used.toNat obj
          statics := (handle, (t.stack i).used.toNat) :: (t.stack i).statics } := by
  rcases Nat.lt_or_ge (t.stack i).statics.length MAX_STATIC_DEFERS with hroom | hfull
  · rcases Nat.lt_or_ge POOL_SIZE ((t.stack i).used.toNat + s.toNat) with hexceeds | hfit
    · rw [staticDefer_exceeds h hs hused hexceeds] at hrun
      cases hrun
    · rw [staticDefer_eq h hroom hobj hfit hpool] at hrun
      cases hrun
      exact ⟨hfit, rfl⟩
  · rw [staticDefer_full h hfull] at hrun
    cases hrun

theorem storeArg_inv {size : H → Size} {h : H} {n off : Nat} {c : Cell} {u : Unit}
    (hrun : storeArg size h n c (.pool i off) t = .ok u t') :
    n < (size h).toNat ∧ off + n < (t.stack i).pool.length ∧
      t' = t.setFrame i { t.stack i with pool := splice (t.stack i).pool (off + n) [c] } := by
  simp only [storeArg] at hrun
  split at hrun
  · rename_i hin
    cases hrun
    exact ⟨hin.1, hin.2, rfl⟩
  · cases hrun

end Registering

section Passes

variable {H σ : Type} {thread : Lens σ (Thread H)} {handle : H → Arg → Exec σ Unit}
  {i : Fin STACK_SIZE} {s : σ}

/-- A pass of the first loop: the last static entry is taken off and its
    handler run, or the loop is over. -/
theorem staticPass_returns {Q : Unit ⊕ Unit → σ → Prop}
    (hnil : ((thread.get s).stack i).statics = [] → Q (.inr ()) s)
    (hcons : ∀ h off rest, ((thread.get s).stack i).statics = (h, off) :: rest →
      Returns (handle h (.pool i off))
        (thread.set s ((thread.get s).setFrame i { (thread.get s).stack i with statics := rest }))
        fun _ s' => Q (.inl ()) s') :
    Returns (staticPass thread handle i ()) s Q := by
  intro r s' hrun
  cases hentries : ((thread.get s).stack i).statics with
  | nil =>
    rw [staticPass, bind_ok (zoom_ok (popStatic_nil hentries)), thread.set_get] at hrun
    cases hrun
    exact hnil hentries
  | cons e rest =>
    obtain ⟨h, off⟩ := e
    rw [staticPass, bind_ok (zoom_ok (popStatic_cons hentries))] at hrun
    obtain ⟨u, s₁, hhandler, hend⟩ := ok_of_bind hrun
    cases hend
    exact hcons h off rest hentries u s' hhandler

/-- A pass of the second loop. -/
theorem dynPass_returns {Q : Unit ⊕ Unit → σ → Prop}
    (hnil : ((thread.get s).stack i).dyns = [] → Q (.inr ()) s)
    (hcons : ∀ h p rest, ((thread.get s).stack i).dyns = (h, p) :: rest →
      Returns (handle h (.ptr p))
        (thread.set s ((thread.get s).setFrame i { (thread.get s).stack i with dyns := rest }))
        fun _ s' => Q (.inl ()) s') :
    Returns (dynPass thread handle i ()) s Q := by
  intro r s' hrun
  cases hentries : ((thread.get s).stack i).dyns with
  | nil =>
    rw [dynPass, bind_ok (zoom_ok (popDyn_nil hentries)), thread.set_get] at hrun
    cases hrun
    exact hnil hentries
  | cons e rest =>
    obtain ⟨h, p⟩ := e
    rw [dynPass, bind_ok (zoom_ok (popDyn_cons hentries))] at hrun
    obtain ⟨u, s₁, hhandler, hend⟩ := ok_of_bind hrun
    cases hend
    exact hcons h p rest hentries u s' hhandler

/-- The three parts of a run of `run_defers` that returned. -/
theorem runDefers_parts {s' : σ} (hcurr : (thread.get s).curr = (i.val : Int))
    (hrun : runDefers thread handle s = .ok () s') :
    ∃ s₁, loop maxPasses (staticPass thread handle i) () s = .ok () s₁ ∧
      loop maxPasses (dynPass thread handle i) ()
        (thread.set s₁ ((thread.get s₁).setFrame i { (thread.get s₁).stack i with used := 0 })) =
          .ok () s' := by
  rw [runDefers, bind_ok (zoom_ok (currStackframe_eq hcurr)), thread.set_get] at hrun
  obtain ⟨u, s₁, hstatic, hrest⟩ := ok_of_bind hrun
  exact ⟨s₁, hstatic, hrest⟩

theorem runDefers_curr {s' : σ} (hrun : runDefers thread handle s = .ok () s') :
    ∃ i : Fin STACK_SIZE, (thread.get s).curr = (i.val : Int) := by
  have hcurr : Returns (zoom thread currStackframe) s
      fun (i : Fin STACK_SIZE) _ => (thread.get s).curr = (i.val : Int) :=
    Returns.zoom fun _ _ h => (currStackframe_inv h).1
  obtain ⟨i, s₁, hframe, -⟩ := ok_of_bind hrun
  exact ⟨i, hcurr i s₁ hframe⟩

/-- **What every handler keeps** once its entry is off the frame, and giving
    up the pool keeps, `run_defers` keeps. -/
theorem runDefers_keeps {I : σ → Prop}
    (hstatic : ∀ s h off rest, I s → ((thread.get s).stack i).statics = (h, off) :: rest →
      Returns (handle h (.pool i off))
        (thread.set s ((thread.get s).setFrame i { (thread.get s).stack i with statics := rest }))
        fun _ s' => I s')
    (hreset : ∀ s, I s → ((thread.get s).stack i).statics = [] →
      I (thread.set s ((thread.get s).setFrame i { (thread.get s).stack i with used := 0 })))
    (hdyn : ∀ s h p rest, I s → ((thread.get s).stack i).dyns = (h, p) :: rest →
      Returns (handle h (.ptr p))
        (thread.set s ((thread.get s).setFrame i { (thread.get s).stack i with dyns := rest }))
        fun _ s' => I s')
    (hcurr : (thread.get s).curr = (i.val : Int)) (hs : I s) :
    Returns (runDefers thread handle) s fun _ s' => I s' := by
  intro u s' hrun
  obtain ⟨s₁, hfirst, hsecond⟩ := runDefers_parts hcurr hrun
  -- the invariant goes through the first loop
  have hstatics : Returns (loop maxPasses (staticPass thread handle i) ()) s
      fun _ s' => I s' ∧ ((thread.get s').stack i).statics = [] :=
    Returns.loop (I := fun _ s => I s) (fun _ s₂ hs₂ => staticPass_returns (fun hnil => ⟨hs₂, hnil⟩)
      fun h off rest hentries => hstatic s₂ h off rest hs₂ hentries) hs
  obtain ⟨hs₁, hnil⟩ := hstatics () s₁ hfirst
  -- and, once the pool is given up, through the second
  have hdyns : Returns (loop maxPasses (dynPass thread handle i) ())
      (thread.set s₁ ((thread.get s₁).setFrame i { (thread.get s₁).stack i with used := 0 }))
      fun _ s' => I s' :=
    Returns.loop (I := fun _ s => I s) (fun _ s₂ hs₂ => dynPass_returns (fun _ => hs₂)
      fun h p rest hentries => hdyn s₂ h p rest hs₂ hentries) (hreset s₁ hs₁ hnil)
  exact hdyns () s' hsecond

/-- The parts of a call of an edf function that returned. -/
theorem edfFunc_parts {α : Type} {body : Exec σ α} {a : α} {s' : σ}
    (hrun : edfFunc thread handle body s = .ok a s') :
    (thread.get s).curr < (STACK_SIZE : Int) - 1 ∧
      ∃ s₁ s₂, body (entered thread s) = .ok a s₁ ∧ runDefers thread handle s₁ = .ok () s₂ ∧
        s' = thread.set s₂ { thread.get s₂ with curr := (thread.get s₂).curr - 1 } := by
  rcases Int.lt_or_le (thread.get s).curr ((STACK_SIZE : Int) - 1) with hroom | hfull
  · rw [edfFunc_entered hroom] at hrun
    obtain ⟨b, s₁, hbody, hrun⟩ := ok_of_bind hrun
    obtain ⟨u, s₂, hdefers, hrun⟩ := ok_of_bind hrun
    rcases Int.lt_or_le (-1) (thread.get s₂).curr with hpop | hunder
    · rw [bind_ok (zoom_ok (deferPop_eq hpop))] at hrun
      cases hrun
      exact ⟨hroom, s₁, s₂, hbody, hdefers, rfl⟩
    · have hrefused : deferPop (thread.get s₂) = .ok false (thread.get s₂) := if_pos hunder
      rw [bind_ok (zoom_ok hrefused)] at hrun
      cases hrun
  · rw [edfFunc_refused hfull] at hrun
    cases hrun

end Passes

/-! ## §3. Steps and runs. -/

section Runs

variable {W F R H D A : Type}

/-- The code does nothing with its frame but what `ok` allows. -/
def Code.Only (ok : D → Prop) : Code W F R D A → Prop
  | .ret _ => True
  | .read k => ∀ e w, (k e w).Only ok
  | .write _ k => k.Only ok
  | .error _ k => k.Only ok
  | .clear k => k.Only ok
  | .call _ k => ∀ r, (k r).Only ok
  | .act d k => ok d ∧ k.Only ok

theorem Code.only_true (p : Code W F R D A) : p.Only fun _ => True := by
  induction p with
  | ret a => trivial
  | read k ih => exact ih
  | write w k ih => exact ih
  | error c k ih => exact ih
  | clear k ih => exact ih
  | call f k ih => exact ih
  | act d k ih => exact ⟨trivial, ih⟩

/-- **What every step that is allowed keeps, the code keeps.** -/
theorem perform_keeps_only {I : Traced W H → Prop} {callF : F → Exec (Traced W H) R}
    {act : D → Exec (Traced W H) Unit} {ok : D → Prop} (hwrite : ∀ s w, I s → I { s with world := w })
    (herror : ∀ s c, I s →
      I { s with thread := { s.thread with errCode := some c }, log := s.log ++ [.raised c] })
    (hclear : ∀ s, I s →
      I { s with thread := { s.thread with errCode := none }, log := s.log ++ [.cleared] })
    (hcall : ∀ f s, I s → Returns (callF f) s fun _ s' => I s')
    (hact : ∀ d s, ok d → I s → Returns (act d) s fun _ s' => I s') (p : Code W F R D A)
    (hp : p.Only ok) {s : Traced W H} (hs : I s) : Returns (perform callF act p) s fun _ s' => I s' := by
  induction p generalizing s with
  | ret a => exact .pure hs
  | read k ih =>
    exact fun a s' hrun => ih s.thread.errCode s.world (hp s.thread.errCode s.world) hs a s' hrun
  | write w k ih => exact fun a s' hrun => ih hp (hwrite s w hs) a s' hrun
  | error c k ih => exact fun a s' hrun => ih hp (herror s c hs) a s' hrun
  | clear k ih => exact fun a s' hrun => ih hp (hclear s hs) a s' hrun
  | call f k ih => exact Returns.bind (hcall f s hs) fun r s' hs' => ih r (hp r) hs'
  | act d k ih => exact Returns.bind (hact d s hp.1 hs) fun _ s' hs' => ih hp.2 hs'

/-- **What every step keeps, the code keeps.** -/
theorem perform_keeps {I : Traced W H → Prop} {callF : F → Exec (Traced W H) R}
    {act : D → Exec (Traced W H) Unit} (hwrite : ∀ s w, I s → I { s with world := w })
    (herror : ∀ s c, I s →
      I { s with thread := { s.thread with errCode := some c }, log := s.log ++ [.raised c] })
    (hclear : ∀ s, I s →
      I { s with thread := { s.thread with errCode := none }, log := s.log ++ [.cleared] })
    (hcall : ∀ f s, I s → Returns (callF f) s fun _ s' => I s')
    (hact : ∀ d s, I s → Returns (act d) s fun _ s' => I s') (p : Code W F R D A)
    {s : Traced W H} (hs : I s) : Returns (perform callF act p) s fun _ s' => I s' :=
  perform_keeps_only hwrite herror hclear hcall (fun d s _ hs => hact d s hs) p p.only_true hs

/-- Looking at an argument changes nothing. -/
theorem readArg_same (size : H → Size) (h : H) (arg : Arg) (s : Traced W H) :
    Returns (readArg size h arg) s fun _ s' => s' = s := by
  cases arg with
  | ptr p => exact .pure rfl
  | pool j off =>
    refine Returns.bind (Returns.zoom fun cells t hrun => ?_) fun v s' hs' => .pure hs'
    unfold poolObject at hrun
    split at hrun
    · cases hrun
      rfl
    · cases hrun

/-- A mark about the current frame. -/
theorem markFrame_eq {s : Traced W H} {i : Fin STACK_SIZE} (h : s.thread.curr = (i.val : Int))
    (m : Fin STACK_SIZE → Mark H) :
    markFrame m s = .ok () { s with log := s.log ++ [m i] } := by
  rw [markFrame, bind_ok (zoom_ok (show currStackframe (tracedThread.get s) = _ from currStackframe_eq h))]
  rfl

/-! ## §4. The frames of the callers. -/

/-- Frame `i` at most has changed. -/
structure OnlyFrame (i : Fin STACK_SIZE) (t t' : Thread H) : Prop where
  curr : t'.curr = t.curr
  errCode : t'.errCode = t.errCode
  others : ∀ j, j ≠ i → t'.stack j = t.stack j

theorem OnlyFrame.refl (i : Fin STACK_SIZE) (t : Thread H) : OnlyFrame i t t :=
  ⟨rfl, rfl, fun _ _ => rfl⟩

theorem OnlyFrame.setFrame (i : Fin STACK_SIZE) (t : Thread H) (fr : Frame H) :
    OnlyFrame i t (t.setFrame i fr) :=
  ⟨rfl, rfl, fun _ hne => setFrame_ne fr hne⟩

theorem staticDefer_onlyFrame {t : Thread H} {i : Fin STACK_SIZE} (h : t.curr = (i.val : Int))
    (handle : H) (s : Size) (obj : List Cell) :
    Returns (staticDefer handle s obj) t fun _ t' => OnlyFrame i t t' := by
  intro u t' hrun
  rw [staticDefer, bind_ok (currStackframe_eq h), get_bind_apply] at hrun
  by_cases hfull : (t.stack i).statics.length ≥ MAX_STATIC_DEFERS
  · rw [if_pos hfull] at hrun
    cases hrun
  · by_cases hexceeds : ((t.stack i).used + s).toNat > POOL_SIZE
    · rw [if_neg hfull, if_pos hexceeds] at hrun
      cases hrun
    · by_cases hcopy : obj.length < s.toNat ∨ (t.stack i).used.toNat + s.toNat > (t.stack i).pool.length
      · rw [if_neg hfull, if_neg hexceeds, if_pos hcopy] at hrun
        cases hrun
      · rw [if_neg hfull, if_neg hexceeds, if_neg hcopy] at hrun
        cases hrun
        exact .setFrame i t _

theorem storeArg_onlyFrame (size : H → Size) (h : H) (n : Nat) (c : Cell) (t : Thread H)
    (i : Fin STACK_SIZE) {arg : Arg} (harg : ∀ j off, arg = .pool j off → j = i) :
    Returns (storeArg size h n c arg) t fun _ t' => OnlyFrame i t t' := by
  cases arg with
  | ptr p => exact .pure (.refl i t)
  | pool j off =>
    obtain rfl := harg j off rfl
    intro u t' hrun
    obtain ⟨-, -, rfl⟩ := storeArg_inv hrun
    exact .setFrame _ t _

/-- Nothing below frame `k` has changed, been registered or been run, and the
    current frame is the same. -/
structure Beyond (k : Nat) (s s' : Traced W H) : Prop where
  curr : s'.thread.curr = s.thread.curr
  below : ∀ j : Fin STACK_SIZE, j.val < k → s'.thread.stack j = s.thread.stack j
  marks : ∃ ms, s'.log = s.log ++ ms ∧ ∀ m ∈ ms, ∀ j, m.frame? = some j → k ≤ j.val

theorem Beyond.refl (k : Nat) (s : Traced W H) : Beyond k s s :=
  ⟨rfl, fun _ _ => rfl, [], (List.append_nil _).symm, fun _ hm => absurd hm List.not_mem_nil⟩

theorem Beyond.trans {k : Nat} {s s' s'' : Traced W H} (h : Beyond k s s') (h' : Beyond k s' s'') :
    Beyond k s s'' := by
  obtain ⟨ms, hlog, hms⟩ := h.marks
  obtain ⟨ms', hlog', hms'⟩ := h'.marks
  refine ⟨h'.curr.trans h.curr, fun j hj => (h'.below j hj).trans (h.below j hj), ms ++ ms', ?_, ?_⟩
  · rw [hlog', hlog, List.append_assoc]
  · intro m hm j hj
    rcases List.mem_append.mp hm with hm | hm
    · exact hms m hm j hj
    · exact hms' m hm j hj

theorem Beyond.mono {k k' : Nat} {s s' : Traced W H} (h : Beyond k s s') (hk : k' ≤ k) :
    Beyond k' s s' := by
  obtain ⟨ms, hlog, hms⟩ := h.marks
  exact ⟨h.curr, fun j hj => h.below j (Nat.lt_of_lt_of_le hj hk), ms, hlog,
    fun m hm j hj => Nat.le_trans hk (hms m hm j hj)⟩

/-- A mark about no frame below `k`. -/
theorem Beyond.mark {k : Nat} (s : Traced W H) {m : Mark H}
    (hm : ∀ j, m.frame? = some j → k ≤ j.val) : Beyond k s { s with log := s.log ++ [m] } := by
  refine ⟨rfl, fun _ _ => rfl, [m], rfl, ?_⟩
  intro m' hm' j hj
  cases List.mem_singleton.mp hm'
  exact hm j hj

theorem Beyond.thread {i : Fin STACK_SIZE} {s : Traced W H} {t' : Thread H}
    (h : OnlyFrame i s.thread t') : Beyond i.val s (tracedThread.set s t') := by
  exact ⟨h.curr, fun j hj => h.others j (Fin.ne_of_lt hj), (Beyond.refl i.val s).marks⟩

/-- Setting the variables. -/
theorem Beyond.world (k : Nat) (s : Traced W H) (w : W) : Beyond k s { s with world := w } :=
  ⟨rfl, fun _ _ => rfl, (Beyond.refl k s).marks⟩

/-- Setting or clearing the error code and writing that down. -/
theorem Beyond.code (k : Nat) (s : Traced W H) (c : Option ErrorCode) {m : Mark H}
    (hm : m.frame? = none) :
    Beyond k s { s with thread := { s.thread with errCode := c }, log := s.log ++ [m] } := by
  refine ⟨rfl, fun _ _ => rfl, (Beyond.mark s fun j hj => ?_).marks⟩
  rw [hm] at hj
  cases hj

/-- Code stays beyond what its calls and acts stay beyond. -/
theorem perform_beyond {k : Nat} {callF : F → Exec (Traced W H) R} {act : D → Exec (Traced W H) Unit}
    {s₀ : Traced W H}
    (hcall : ∀ f s, s.thread.curr = s₀.thread.curr → Returns (callF f) s fun _ s' => Beyond k s s')
    (hact : ∀ d s, s.thread.curr = s₀.thread.curr → Returns (act d) s fun _ s' => Beyond k s s')
    (p : Code W F R D A) : Returns (perform callF act p) s₀ fun _ s' => Beyond k s₀ s' := by
  apply perform_keeps (I := fun s => Beyond k s₀ s) _ _ _ _ _ p (Beyond.refl k s₀)
  · intro s w hs
    exact hs.trans (.world k s w)
  · intro s c hs
    exact hs.trans (.code k s (some c) rfl)
  · intro s hs
    exact hs.trans (.code k s none rfl)
  · intro f s hs
    exact (hcall f s hs.curr).mono fun r s' hs' => hs.trans hs'
  · intro d s hs
    exact (hact d s hs.curr).mono fun r s' hs' => hs.trans hs'

/-- A mark about the current frame is about no frame below it. -/
theorem markFrame_beyond {s : Traced W H} {i : Fin STACK_SIZE} (h : s.thread.curr = (i.val : Int))
    {m : Fin STACK_SIZE → Mark H} (hm : ∀ j, (m j).frame? = some j) :
    Returns (markFrame m) s fun _ s' => Beyond i.val s s' := by
  refine .of_eq (markFrame_eq h m) (.mark s fun j hj => ?_)
  rw [hm i] at hj
  cases hj
  exact Nat.le_refl _

theorem openRegister_beyond {size : H → Size} (d : Deferral H size) {s : Traced W H}
    {i : Fin STACK_SIZE} (h : s.thread.curr = (i.val : Int)) :
    Returns (openRegister d) s fun _ s' => Beyond i.val s s' := by
  have hnoted : ∀ (m : Fin STACK_SIZE → Mark H) (t' : Thread H), (∀ j, (m j).frame? = some j) →
      OnlyFrame i s.thread t' →
      Returns (markFrame m) (tracedThread.set s t') fun _ s' => Beyond i.val s s' := by
    intro m t' hm ht'
    exact (markFrame_beyond (s := tracedThread.set s t') (ht'.curr.trans h) hm).mono
      fun _ s' hs' => (Beyond.thread ht').trans hs'
  cases d with
  | defer handle arg =>
    refine Returns.bind (Returns.zoom fun u t' hrun => ?_) fun _ s' hs' => hs'
    refine hnoted _ t' (fun _ => rfl) ?_
    rw [defer_inv h hrun]
    exact .setFrame i s.thread _
  | staticDefer handle obj =>
    refine Returns.bind (Returns.zoom fun u t' hrun => ?_) fun _ s' hs' => hs'
    exact hnoted _ t' (fun _ => rfl) (staticDefer_onlyFrame h handle (size handle) obj.cells u t' hrun)

/-- A handler run in frame `i`, on an object of that frame if on any. -/
theorem openHandler_beyond (P : OpenProgram W F R H) {callF : F → Exec (Traced W H) R}
    {i : Fin STACK_SIZE}
    (hcalls : ∀ f s, s.thread.curr = (i.val : Int) → Returns (callF f) s fun _ s' => Beyond (i.val + 1) s s')
    (h : H) {arg : Arg} (harg : ∀ j off, arg = .pool j off → j = i) {s : Traced W H}
    (hcurr : s.thread.curr = (i.val : Int)) :
    Returns (openHandler P callF h arg) s fun _ s' => Beyond i.val s s' := by
  refine Returns.bind (readArg_same P.size h arg s) fun v s₁ hs₁ => ?_
  subst hs₁
  refine Returns.bind (markFrame_beyond hcurr fun _ => rfl) fun _ s₂ hs₂ => ?_
  have hcurr₂ : s₂.thread.curr = (i.val : Int) := hs₂.curr.trans hcurr
  refine (perform_beyond ?_ ?_ (P.handler h v)).mono fun _ s' hs' => hs₂.trans hs'
  · intro f s hs
    exact (hcalls f s (hs.trans hcurr₂)).mono fun _ s' hs' => hs'.mono (Nat.le_succ _)
  · intro d s hs
    cases d with
    | register d => exact openRegister_beyond d (hs.trans hcurr₂)
    | store n c =>
      exact Returns.zoom fun _ t' hrun =>
        .thread (storeArg_onlyFrame P.size h n c s.thread i harg _ t' hrun)

theorem runDefers_beyond (P : OpenProgram W F R H) {callF : F → Exec (Traced W H) R}
    {i : Fin STACK_SIZE}
    (hcalls : ∀ f s, s.thread.curr = (i.val : Int) → Returns (callF f) s fun _ s' => Beyond (i.val + 1) s s')
    {s : Traced W H} (hcurr : s.thread.curr = (i.val : Int)) :
    Returns (runDefers tracedThread (openHandler P callF)) s fun _ s' => Beyond i.val s s' := by
  -- one handler, once its entry is off the frame
  have hhandler : ∀ (s₁ : Traced W H) (t : Thread H) (h : H) (arg : Arg), Beyond i.val s s₁ →
      OnlyFrame i s₁.thread t → (∀ j off, arg = .pool j off → j = i) →
      Returns (openHandler P callF h arg) (tracedThread.set s₁ t) fun _ s' => Beyond i.val s s' := by
    intro s₁ t h arg hs₁ ht harg
    have hcurr₁ : (tracedThread.set s₁ t).thread.curr = (i.val : Int) :=
      ht.curr.trans (hs₁.curr.trans hcurr)
    exact (openHandler_beyond P hcalls h harg hcurr₁).mono fun _ s' hs' =>
      (hs₁.trans (.thread ht)).trans hs'
  refine runDefers_keeps (I := fun s' => Beyond i.val s s') ?_ ?_ ?_ hcurr (.refl i.val s)
  · intro s₁ h off rest hs₁ _
    refine hhandler s₁ _ h (.pool i off) hs₁ (.setFrame i _ _) fun j off' heq => ?_
    cases heq
    rfl
  · exact fun s₁ hs₁ _ => hs₁.trans (.thread (.setFrame i _ _))
  · intro s₁ h p rest hs₁ _
    refine hhandler s₁ _ h (.ptr p) hs₁ (.setFrame i _ _) fun j off heq => ?_
    cases heq

/-- **A call leaves the frames of its callers alone**, whatever it and its
    handlers do. -/
theorem openCall_beyond (P : OpenProgram W F R H) (fuel : Nat) (f : F) {d : Nat} {s : Traced W H}
    (hcurr : s.thread.curr = (d : Int) - 1) :
    Returns (openCall P fuel f) s fun _ s' => Beyond d s s' := by
  induction fuel generalizing f d s with
  | zero => exact .fail .fuel s _
  | succ fuel ih =>
    intro r s' hrun
    obtain ⟨_, s₀, hmark, hrun⟩ := ok_of_bind hrun
    cases hmark
    obtain ⟨hroom, s₁, s₂, hbody, hdefers, rfl⟩ := edfFunc_parts hrun
    have hroom' : s.thread.curr < (STACK_SIZE : Int) - 1 := hroom
    -- the frame of this call
    obtain ⟨i, rfl⟩ : ∃ i : Fin STACK_SIZE, i.val = d := ⟨⟨d, by omega⟩, rfl⟩
    have hcalls : ∀ g (s : Traced W H), s.thread.curr = (i.val : Int) →
        Returns (openCall P fuel g) s fun _ s' => Beyond (i.val + 1) s s' := by
      intro g s hs
      apply ih g
      rw [hs]
      omega
    have hcurr₀ : (entered tracedThread { s with log := s.log ++ [.cleared] }).thread.curr =
        (i.val : Int) := by
      show s.thread.curr + 1 = _
      omega
    have hkept : Returns (perform (openCall P fuel) openRegister (P.body f))
        (entered tracedThread { s with log := s.log ++ [.cleared] })
        fun _ s' => Beyond i.val (entered tracedThread { s with log := s.log ++ [.cleared] }) s' :=
      perform_beyond
        (fun g s hs => (hcalls g s (hs.trans hcurr₀)).mono fun _ s' hs' => hs'.mono (Nat.le_succ _))
        (fun a s hs => openRegister_beyond a (hs.trans hcurr₀)) (P.body f)
    have hs₁ := hkept r s₁ hbody
    have hs₂ := hs₁.trans (runDefers_beyond P hcalls (hs₁.curr.trans hcurr₀) () s₂ hdefers)
    refine (Beyond.mark s (m := .cleared) fun j hj => by cases hj).trans
      ⟨?_, hs₂.below, hs₂.marks⟩
    show s₂.thread.curr - 1 = s.thread.curr
    rw [hs₂.curr, hcurr₀, hcurr]

/-- A call made in frame `i` leaves that frame alone. -/
theorem openCall_above (P : OpenProgram W F R H) (fuel : Nat) (i : Fin STACK_SIZE) (f : F)
    (s : Traced W H) (hcurr : s.thread.curr = (i.val : Int)) :
    Returns (openCall P fuel f) s fun _ s' => Beyond (i.val + 1) s s' := by
  apply openCall_beyond P fuel f
  rw [hcurr]
  omega

end Runs

end Prom.Errm
