/-
  Prom.Errm.Api — the public functions of errm.h in any order.

  The edf macros push a frame, run its handlers and pop it.  The functions
  they are made of are public too, and here a client calls them in any order,
  from its code and from its handlers, and goes on depending on what they
  return and on its own variables.

  A log remembers each call, and the thread it was made in.

  `defer_push` and `defer_pop` look at `curr` before they change it.  The other
  three take the frame at `curr` as it is.

  Main results:
    * `apiCall_keeps` — a proper call keeps the frames above `curr` empty and
      does not go wrong.
    * `api_in_bounds` — a client whose calls are proper never leaves the stack
      and never enters a frame with handlers in it.
    * `outside_undefined`, `leftover_entered` — what each kind of improper call
      leads to.
-/
import Prom.Errm.Draining

namespace Prom.Errm

open Prom.C Exec

/-! ## §1. Clients. -/

/-- A call of a public function. -/
inductive ApiCall (H : Type) where
  | deferPush
  | deferPop
  | defer (h : H) (arg : Ptr)
  /-- No object is larger than `PTRDIFF_MAX`. -/
  | staticDefer (h : H) (n : Size) (hn : n.toNat < 2 ^ 63) (obj : Obj n)
  | runDefers

/-- A call, and the thread it is made in. -/
structure Entry (H : Type) where
  call : ApiCall H
  before : Thread H

/-- A thread running a client. -/
structure Client (W H : Type) where
  thread : Thread H
  world : W
  log : List (Entry H)

/-- Before anything is called. -/
def Client.start {W : Type} (H : Type) (w : W) : Client W H := ⟨.start H, w, []⟩

def clientThread {W H : Type} : Lens (Client W H) (Thread H) where
  get := Client.thread
  set s t := { s with thread := t }
  get_set _ _ := rfl
  set_get _ := rfl
  set_set _ _ _ := rfl

def clientVars {W H : Type} : Lens (Client W H) (Vars W) where
  get s := ⟨s.thread.errCode, s.world⟩
  set s v := { s with thread := { s.thread with errCode := v.errCode }, world := v.world }
  get_set _ _ := rfl
  set_get _ := rfl
  set_set _ _ _ := rfl

/-- The code of a client or of one of its handlers. -/
abbrev ApiCode (W H A : Type) : Type := Prog W (ApiCall H) Bool Empty A

section Semantics

variable {W H A : Type}

/-- Write a call down. -/
def noteCall (c : ApiCall H) : Exec (Client W H) Unit := modify fun s =>
  { s with log := s.log ++ [⟨c, s.thread⟩] }

/-- Call a public function; the ones that return nothing are taken to return
    true.  The fuel bounds how deep handlers call. -/
def apiCall (handlers : H → Arg → ApiCode W H Unit) : Nat → ApiCall H → Exec (Client W H) Bool
  | 0, _ => fail .fuel
  | fuel + 1, c => do
    noteCall c
    match c with
    | .deferPush => zoom clientThread deferPush
    | .deferPop => zoom clientThread deferPop
    | .defer h arg => do
      zoom clientThread (defer h arg)
      pure true
    | .staticDefer h n _ obj => do
      zoom clientThread (staticDefer h n obj.cells)
      pure true
    | .runDefers => do
      runDefers clientThread fun h arg => interp clientVars (apiCall handlers fuel) Empty.elim (handlers h arg)
      pure true

/-- Run the code of a client or of a handler. -/
def client (handlers : H → Arg → ApiCode W H Unit) (fuel : Nat) (code : ApiCode W H A) :
    Exec (Client W H) A :=
  interp clientVars (apiCall handlers fuel) Empty.elim code

end Semantics

section Safety

variable {W H A : Type}

/-! ## §2. Proper calls. -/

/-- The frame holds no handler. -/
def Frame.NoHandlers (fr : Frame H) : Prop := fr.statics = [] ∧ fr.dyns = []

/-- A call that is made where it belongs: `defer_pop` when the frame has been
    drained, and `defer`, `static_defer` and `run_defers` inside a frame. -/
def Proper (e : Entry H) : Prop :=
  match e.call with
  | .deferPush => True
  | .deferPop => ∀ i, e.before.curr = (i.val : Int) → (e.before.stack i).NoHandlers
  | .defer _ _ => e.before.curr ≠ -1
  | .staticDefer _ _ _ _ => e.before.curr ≠ -1
  | .runDefers => e.before.curr ≠ -1

instance (fr : Frame H) : Decidable fr.NoHandlers :=
  inferInstanceAs (Decidable (fr.statics = [] ∧ fr.dyns = []))

instance (e : Entry H) : Decidable (Proper e) :=
  match e with
  | ⟨.deferPush, _⟩ => isTrue trivial
  | ⟨.deferPop, t⟩ =>
    inferInstanceAs (Decidable (∀ i : Fin STACK_SIZE, t.curr = (i.val : Int) → (t.stack i).NoHandlers))
  | ⟨.defer _ _, t⟩ => inferInstanceAs (Decidable (t.curr ≠ -1))
  | ⟨.staticDefer _ _ _ _, t⟩ => inferInstanceAs (Decidable (t.curr ≠ -1))
  | ⟨.runDefers, t⟩ => inferInstanceAs (Decidable (t.curr ≠ -1))

/-- `curr` is the index of a frame, or -1. -/
def InStack (t : Thread H) : Prop := -1 ≤ t.curr ∧ t.curr ≤ (STACK_SIZE : Int) - 1

/-- The call stays within the stack: it is made with `curr` in range; if it
    takes the frame at `curr`, there is one; and if it enters a frame, that
    one holds no handler. -/
structure InBounds (e : Entry H) : Prop where
  inStack : InStack e.before
  frame : e.call ≠ .deferPush → e.call ≠ .deferPop → ∃ i, currStackframe e.before = .ok i e.before
  entered : e.call = .deferPush → ∀ t', deferPush e.before = .ok true t' →
    ∃ i : Fin STACK_SIZE, t'.curr = (i.val : Int) ∧ (t'.stack i).NoHandlers

/-- What proper calls keep. -/
structure Tidy (t : Thread H) : Prop where
  inStack : InStack t
  above : ∀ j : Fin STACK_SIZE, t.curr < (j.val : Int) → (t.stack j).NoHandlers
  pool : ∀ j, (t.stack j).pool.length = POOL_SIZE
  used : ∀ j, (t.stack j).used.toNat ≤ POOL_SIZE

theorem Tidy.start : Tidy (Thread.start H) := by
  have hhi : (-1 : Int) ≤ (STACK_SIZE : Int) - 1 := by decide
  exact ⟨⟨Int.le_refl _, hhi⟩, fun _ _ => ⟨rfl, rfl⟩, fun _ => List.length_replicate,
    fun _ => Nat.zero_le _⟩

/-- Inside a frame. -/
theorem Tidy.frame {t : Thread H} (h : Tidy t) (hne : t.curr ≠ -1) :
    ∃ i : Fin STACK_SIZE, t.curr = (i.val : Int) := by
  obtain ⟨hlo, hhi⟩ := h.inStack
  refine ⟨⟨t.curr.toNat, ?_⟩, ?_⟩
  · omega
  · show t.curr = (t.curr.toNat : Int)
    omega

/-- A frame is set that is not above `curr`, or holds no handler. -/
theorem Tidy.setFrame {t : Thread H} (h : Tidy t) {i : Fin STACK_SIZE} {fr : Frame H}
    (habove : t.curr < (i.val : Int) → fr.NoHandlers) (hpool : fr.pool.length = POOL_SIZE)
    (hused : fr.used.toNat ≤ POOL_SIZE) : Tidy (t.setFrame i fr) := by
  have hframes : ∀ j, (t.setFrame i fr).stack j = if j = i then fr else t.stack j := by
    intro j
    by_cases hj : j = i
    · rw [if_pos hj, hj, setFrame_same]
    · rw [if_neg hj, setFrame_ne fr hj]
  refine ⟨h.inStack, fun j hj => ?_, fun j => ?_, fun j => ?_⟩
  · rw [hframes]
    split
    · rename_i hji
      subst hji
      exact habove hj
    · exact h.above j hj
  · rw [hframes]
    split
    · exact hpool
    · exact h.pool j
  · rw [hframes]
    split
    · exact hused
    · exact h.used j

/-! ## §3. One call. -/

/-- Nothing goes wrong. -/
def Never {σ : Type} (_ : σ) : Prop := False

theorem deferPush_tidy {t : Thread H} (h : Tidy t) : KeptBy Tidy Never (deferPush t) := by
  obtain ⟨hlo, hhi⟩ := h.inStack
  rcases Int.lt_or_le t.curr ((STACK_SIZE : Int) - 1) with hroom | hfull
  · rw [deferPush_eq hroom]
    refine ⟨⟨?_, ?_⟩, fun j hj => h.above j ?_, h.pool, h.used⟩
    · show -1 ≤ t.curr + 1
      omega
    · show t.curr + 1 ≤ _
      omega
    · have : t.curr + 1 < (j.val : Int) := hj
      omega
  · rw [deferPush_refused hfull]
    exact h

/-- The frame that is left holds no handler, so those above still hold
    none. -/
theorem deferPop_tidy {t : Thread H} (h : Tidy t)
    (hdrained : ∀ i : Fin STACK_SIZE, t.curr = (i.val : Int) → (t.stack i).NoHandlers) :
    KeptBy Tidy Never (deferPop t) := by
  obtain ⟨hlo, hhi⟩ := h.inStack
  rcases Int.lt_or_le (-1) t.curr with hin | hout
  · rw [deferPop_eq hin]
    refine ⟨⟨?_, ?_⟩, fun j hj => ?_, h.pool, h.used⟩
    · show -1 ≤ t.curr - 1
      omega
    · show t.curr - 1 ≤ _
      omega
    · have hj' : t.curr - 1 < (j.val : Int) := hj
      by_cases heq : t.curr = (j.val : Int)
      · exact hdrained j heq
      · exact h.above j (by omega)
  · have hrefused : deferPop t = .ok false t := if_pos hout
    rw [hrefused]
    exact h

theorem defer_tidy {t : Thread H} (h : Tidy t) (hne : t.curr ≠ -1) (g : H) (arg : Ptr) :
    KeptBy Tidy Never (defer g arg t) := by
  obtain ⟨i, hi⟩ := h.frame hne
  rcases Nat.lt_or_ge (t.stack i).dyns.length MAX_DYN_DEFERS with hroom | hfull
  · rw [defer_eq hi hroom]
    refine h.setFrame (fun hlt => ?_) (h.pool i) (h.used i)
    omega
  · rw [defer_full hi hfull]
    exact ⟨h, by rintro ⟨⟩⟩

theorem staticDefer_tidy {t : Thread H} (h : Tidy t) (hne : t.curr ≠ -1) (g : H) {n : Size}
    (hn : n.toNat < 2 ^ 63) (obj : Obj n) : KeptBy Tidy Never (staticDefer g n obj.cells t) := by
  obtain ⟨i, hi⟩ := h.frame hne
  rcases Nat.lt_or_ge (t.stack i).statics.length MAX_STATIC_DEFERS with hroom | hfull
  · rcases Nat.lt_or_ge POOL_SIZE ((t.stack i).used.toNat + n.toNat) with hexceeds | hfit
    · rw [staticDefer_exceeds hi hn (h.used i) hexceeds]
      exact ⟨h, by rintro ⟨⟩⟩
    · rw [staticDefer_eq hi hroom obj.length_eq hfit (h.pool i)]
      have hin : (t.stack i).used.toNat + obj.cells.length ≤ (t.stack i).pool.length := by
        rw [h.pool i, obj.length_eq]
        exact hfit
      refine h.setFrame (fun hlt => ?_) ((length_splice hin).trans (h.pool i)) ?_
      · omega
      · exact (used_add hfit).symm ▸ hfit
  · rw [staticDefer_full hi hfull]
    exact ⟨h, by rintro ⟨⟩⟩

theorem currStackframe_tidy {t : Thread H} (h : Tidy t) (hne : t.curr ≠ -1) :
    KeptBy Tidy Never (currStackframe t) := by
  obtain ⟨i, hi⟩ := h.frame hne
  rw [currStackframe_eq hi]
  exact h

/-- Taking an entry off a frame, wherever `curr` is now. -/
theorem popStatic_tidy {t : Thread H} (h : Tidy t) (i : Fin STACK_SIZE) :
    KeptBy Tidy Never (popStatic i t) := by
  cases hentries : (t.stack i).statics with
  | nil =>
    rw [popStatic_nil hentries]
    exact h
  | cons e rest =>
    rw [popStatic_cons hentries]
    refine h.setFrame (fun hlt => ?_) (h.pool i) (h.used i)
    -- a frame above `curr` has no entry to take off
    rw [(h.above i hlt).1] at hentries
    cases hentries

theorem popDyn_tidy {t : Thread H} (h : Tidy t) (i : Fin STACK_SIZE) :
    KeptBy Tidy Never (popDyn i t) := by
  cases hentries : (t.stack i).dyns with
  | nil =>
    rw [popDyn_nil hentries]
    exact h
  | cons e rest =>
    rw [popDyn_cons hentries]
    refine h.setFrame (fun hlt => ?_) (h.pool i) (h.used i)
    rw [(h.above i hlt).2] at hentries
    cases hentries

/-! ## §4. Any calls. -/

/-- All calls so far have been proper. -/
def AllProper (s : Client W H) : Prop := ∀ e ∈ s.log, Proper e

/-- As long as all calls are proper, they stay within the stack. -/
def Safe (s : Client W H) : Prop := AllProper s → Tidy s.thread ∧ ∀ e ∈ s.log, InBounds e

/-- Some call was not proper. -/
def Improper (s : Client W H) : Prop := ¬AllProper s

theorem zoom_safe {B : Type} {m : Exec (Thread H) B} {s : Client W H} (hs : Safe s)
    (hm : AllProper s → Tidy s.thread → KeptBy Tidy Never (m s.thread)) :
    KeptBy Safe Improper (zoom clientThread m s) := by
  apply KeptBy.zoom
  by_cases hproper : AllProper s
  · obtain ⟨htidy, hbounds⟩ := hs hproper
    have hkept := hm hproper htidy
    show KeptBy _ _ (m s.thread)
    cases hrun : m s.thread with
    | ok a t =>
      rw [hrun] at hkept
      exact fun _ => ⟨hkept, hbounds⟩
    | stop f t =>
      rw [hrun] at hkept
      exact ⟨fun _ => ⟨hkept.1, hbounds⟩, fun hf => (hkept.2 hf).elim⟩
  · show KeptBy _ _ (m s.thread)
    cases m s.thread with
    | ok a t => exact fun h => absurd h hproper
    | stop f t => exact ⟨fun h => absurd h hproper, fun _ => hproper⟩

section Passes

variable {handle : H → Arg → Exec (Client W H) Unit}
  (hhandle : ∀ h arg, Keeps Safe Improper (handle h arg))
include hhandle

theorem staticPass_safe (i : Fin STACK_SIZE) :
    Keeps Safe Improper (staticPass clientThread handle i ()) := by
  refine Keeps.bind (fun s hs => zoom_safe hs fun _ htidy => popStatic_tidy htidy i) fun r => ?_
  cases r with
  | none => exact .pure _
  | some e => exact Keeps.bind (hhandle e.1 _) fun _ => .pure _

theorem dynPass_safe (i : Fin STACK_SIZE) :
    Keeps Safe Improper (dynPass clientThread handle i ()) := by
  refine Keeps.bind (fun s hs => zoom_safe hs fun _ htidy => popDyn_tidy htidy i) fun r => ?_
  cases r with
  | none => exact .pure _
  | some e => exact Keeps.bind (hhandle e.1 _) fun _ => .pure _

/-- **`run_defers`** takes the frame at `curr` once; after that it goes by its
    index, and handlers may push and pop. -/
theorem runDefers_safe {s : Client W H} (hs : Safe s) (hne : AllProper s → s.thread.curr ≠ -1) :
    KeptBy Safe Improper (runDefers clientThread handle s) := by
  refine (zoom_safe hs fun hproper htidy => currStackframe_tidy htidy (hne hproper)).bind fun i => ?_
  refine Keeps.bind (Keeps.loop (fun _ => staticPass_safe hhandle i) _ ()) fun _ => Keeps.bind ?_
    fun _ => Keeps.loop (fun _ => dynPass_safe hhandle i) _ ()
  -- giving up the pool
  refine fun s hs => zoom_safe hs fun _ htidy => ?_
  exact htidy.setFrame (htidy.above i) (htidy.pool i) (Nat.zero_le _)

end Passes

/-- A proper call stays within the stack. -/
theorem Tidy.inBounds {t : Thread H} (h : Tidy t) {c : ApiCall H} (hproper : Proper ⟨c, t⟩) :
    InBounds ⟨c, t⟩ := by
  have hframe : t.curr ≠ -1 → ∃ i, currStackframe t = .ok i t := by
    intro hne
    obtain ⟨i, hi⟩ := h.frame hne
    exact ⟨i, currStackframe_eq hi⟩
  refine ⟨h.inStack, fun hpush hpop => hframe ?_, fun _ t' hrun => ?_⟩
  · cases c with
    | deferPush => exact absurd rfl hpush
    | deferPop => exact absurd rfl hpop
    | defer g arg => exact hproper
    | staticDefer g n hn obj => exact hproper
    | runDefers => exact hproper
  · -- the frame that is entered was above `curr`
    have hkept := deferPush_tidy h
    have hrun' : deferPush t = .ok true t' := hrun
    have hroom : t.curr < (STACK_SIZE : Int) - 1 := by
      by_contra hfull
      rw [deferPush_refused (Int.not_lt.mp hfull)] at hrun'
      cases hrun'
    have hlo := h.inStack.1
    rw [deferPush_eq hroom] at hrun'
    cases hrun'
    refine ⟨⟨(t.curr + 1).toNat, ?_⟩, ?_, h.above _ ?_⟩
    · omega
    · show t.curr + 1 = ((t.curr + 1).toNat : Int)
      omega
    · show t.curr < ((t.curr + 1).toNat : Int)
      omega

/-- Once a call is written down, it is one of the calls that have to be
    proper. -/
theorem noted_safe {s : Client W H} (hs : Safe s) (c : ApiCall H) :
    ∃ s', noteCall c s = .ok () s' ∧ Safe s' ∧ (AllProper s' → Proper ⟨c, s'.thread⟩) := by
  have hparts : AllProper { s with log := s.log ++ [⟨c, s.thread⟩] } →
      AllProper s ∧ Proper ⟨c, s.thread⟩ := fun hproper =>
    ⟨fun e he => hproper e (List.mem_append_left _ he),
      hproper _ (List.mem_append_right _ (List.mem_singleton_self _))⟩
  refine ⟨_, rfl, fun hproper => ?_, fun hproper => (hparts hproper).2⟩
  obtain ⟨hbefore, hcall⟩ := hparts hproper
  obtain ⟨htidy, hbounds⟩ := hs hbefore
  refine ⟨htidy, fun e he => ?_⟩
  rcases List.mem_append.mp he with he | he
  · exact hbounds e he
  · rw [List.mem_singleton.mp he]
    exact htidy.inBounds hcall

/-- **A call** that is proper stays within the stack and does not go wrong. -/
theorem apiCall_keeps (handlers : H → Arg → ApiCode W H Unit) (fuel : Nat)
    (hhandlers : ∀ h arg, Keeps Safe Improper (client handlers fuel (handlers h arg))) (c : ApiCall H) :
    Keeps Safe Improper (apiCall handlers (fuel + 1) c) := by
  intro s hs
  obtain ⟨s', hnote, hsafe, hproper⟩ := noted_safe hs c
  cases c with
  | deferPush =>
    rw [apiCall, bind_ok hnote]
    exact zoom_safe hsafe fun _ htidy => deferPush_tidy htidy
  | deferPop =>
    rw [apiCall, bind_ok hnote]
    exact zoom_safe hsafe fun h htidy => deferPop_tidy htidy (hproper h)
  | defer g arg =>
    rw [apiCall, bind_ok hnote]
    exact (zoom_safe hsafe fun h htidy => defer_tidy htidy (hproper h) g arg).bind fun _ => .pure _
  | staticDefer g n hn obj =>
    rw [apiCall, bind_ok hnote]
    exact (zoom_safe hsafe fun h htidy => staticDefer_tidy htidy (hproper h) g hn obj).bind
      fun _ => .pure _
  | runDefers =>
    rw [apiCall, bind_ok hnote]
    exact (runDefers_safe hhandlers hsafe hproper).bind fun _ => .pure _

/-- Code keeps what its calls keep. -/
theorem interp_keeps {callF : ApiCall H → Exec (Client W H) Bool}
    (hcall : ∀ c, Keeps Safe Improper (callF c)) (code : ApiCode W H A) :
    Keeps Safe Improper (interp clientVars callF Empty.elim code) := by
  induction code with
  | ret a => exact .pure a
  | read k ih => exact fun s hs => ih (clientVars.get s) s hs
  | write v k ih =>
    refine fun s hs => ih (clientVars.set s v) fun hproper => ?_
    -- the variables are not part of the stack
    obtain ⟨htidy, hbounds⟩ := hs hproper
    exact ⟨⟨htidy.inStack, htidy.above, htidy.pool, htidy.used⟩, hbounds⟩
  | call c k ih => exact Keeps.bind (hcall c) ih
  | register d k ih => exact d.elim

/-- **A client** whose calls are all proper stays within the stack and does not
    go wrong. -/
theorem client_keeps (handlers : H → Arg → ApiCode W H Unit) (fuel : Nat) (code : ApiCode W H A) :
    Keeps Safe Improper (client handlers fuel code) := by
  apply interp_keeps
  induction fuel with
  | zero => exact fun c s hs => ⟨hs, by rintro ⟨⟩⟩
  | succ fuel ih =>
    intro c
    exact apiCall_keeps handlers fuel (fun h arg => interp_keeps ih (handlers h arg)) c

/-- **When the defer API stays within its stack.**  Take any client, calling
    the public functions in any order from its code and from its handlers, and
    any run of it from the initial state of the thread, however it ends.  If
    `defer`, `static_defer` and `run_defers` were only called inside a frame,
    and `defer_pop` only when the frame it leaves held no handler, then `curr`
    was between -1 and STACK_SIZE - 1 at every call and is so at the end, every
    call took a frame with an index from 0 to STACK_SIZE - 1 if it took one,
    every frame that was entered held no handler, and nothing went wrong. -/
theorem api_in_bounds (handlers : H → Arg → ApiCode W H Unit) (fuel : Nat) (code : ApiCode W H A)
    (w : W) (hproper : ∀ e ∈ (client handlers fuel code (.start H w)).state.log, Proper e) :
    (∀ e ∈ (client handlers fuel code (.start H w)).state.log, InBounds e) ∧
      InStack (client handlers fuel code (.start H w)).state.thread ∧
      ∀ s', client handlers fuel code (.start H w) ≠ .stop .undefined s' := by
  have hstart : Safe (Client.start H w) := fun _ => ⟨.start, fun e he => absurd he List.not_mem_nil⟩
  have hkept := client_keeps handlers fuel code _ hstart
  cases hrun : client handlers fuel code (.start H w) with
  | ok a s' =>
    rw [hrun] at hkept hproper
    obtain ⟨htidy, hbounds⟩ := hkept hproper
    exact ⟨hbounds, htidy.inStack, by rintro _ ⟨⟩⟩
  | stop f s' =>
    rw [hrun] at hkept hproper
    obtain ⟨htidy, hbounds⟩ := hkept.1 hproper
    refine ⟨hbounds, htidy.inStack, ?_⟩
    rintro _ ⟨⟩
    exact hkept.2 rfl hproper

/-! ## §5. Improper calls. -/

/-- **Outside of any frame** the other three functions take a frame that is not
    there. -/
theorem outside_undefined {t : Thread H} (h : t.curr = -1) (g : H) (arg : Ptr) (n : Size)
    (obj : List Cell) {σ : Type} (thread : Lens σ (Thread H)) (handle : H → Arg → Exec σ Unit)
    {s : σ} (hs : thread.get s = t) :
    Undefined (defer g arg) t ∧ Undefined (staticDefer g n obj) t ∧
      Undefined (runDefers thread handle) s := by
  have hframe : Undefined currStackframe t := by
    refine ⟨t, ?_⟩
    rw [currStackframe, Thread.currFrame?, h]
    rfl
  refine ⟨hframe.bind _, hframe.bind _, Undefined.bind (.zoom ?_) _⟩
  rw [hs]
  exact hframe

/-- **A frame left with handlers in it** is entered with them. -/
theorem leftover_entered {t : Thread H} {i : Fin STACK_SIZE} (h : t.curr = (i.val : Int)) :
    ∃ t₁ t₂, deferPop t = .ok true t₁ ∧ deferPush t₁ = .ok true t₂ ∧ t₂.curr = (i.val : Int) ∧
      t₂.stack i = t.stack i := by
  have hlt := i.isLt
  have hpop := deferPop_eq (t := t) (by omega)
  have hpush := deferPush_eq (t := { t with curr := t.curr - 1 }) (by
    show t.curr - 1 < _
    omega)
  refine ⟨_, _, hpop, hpush, ?_, rfl⟩
  show t.curr - 1 + 1 = _
  omega

end Safety

/-- Handlers that do nothing. -/
def idle : Unit → Arg → ApiCode Unit Unit Unit := fun _ _ => .ret ()

/-- Call functions one after the other. -/
def callAll : List (ApiCall Unit) → ApiCode Unit Unit Unit
  | [] => .ret ()
  | c :: rest => .call c fun _ => callAll rest

/-- A frame that is drained before it is left is entered again. -/
theorem drained_in_bounds :
    ∃ s', client idle 1 (callAll [.deferPush, .defer () .null, .runDefers, .deferPop, .deferPush])
        (.start Unit ()) = .ok () s' ∧ (∀ e ∈ s'.log, InBounds e) ∧ InStack s'.thread := by
  obtain ⟨_, s', hrun, hproper⟩ := Yields.of_check (s := .start Unit ())
    (m := client idle 1 (callAll [.deferPush, .defer () .null, .runDefers, .deferPop, .deferPush]))
    (p := fun _ s' => ∀ e ∈ s'.log, Proper e) (by decide +kernel)
  have hbounds := api_in_bounds idle 1
    (callAll [.deferPush, .defer () .null, .runDefers, .deferPop, .deferPush]) ()
  rw [hrun] at hbounds
  obtain ⟨hlog, hstack, -⟩ := hbounds (of_decide_eq_true hproper)
  exact ⟨s', hrun, hlog, hstack⟩

/-- **The stack is left** by registering outside of any frame, as the
    library's own test does; and a frame that is left without `run_defers` is
    entered with its handler. -/
theorem api_leaves_stack :
    (∃ s', client idle 1 (callAll [.defer () .null]) (.start Unit ()) = .stop .undefined s') ∧
      ∃ s', client idle 1 (callAll [.deferPush, .defer () .null, .deferPop, .deferPush])
          (.start Unit ()) = .ok () s' ∧ ¬∀ e ∈ s'.log, InBounds e := by
  refine ⟨⟨_, rfl⟩, _, rfl, fun hall => ?_⟩
  -- the last call enters the frame
  obtain ⟨i, hi, hnone⟩ := (hall _ (List.mem_of_getLast? rfl)).entered rfl _ rfl
  obtain rfl : i = bottomFrame := Fin.ext (Int.ofNat.inj hi).symm
  cases hnone.2

end Prom.Errm
