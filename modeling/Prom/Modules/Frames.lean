/-
  Prom.Modules.Frames — calling edf functions from a known frame.

  A caller sees of an edf function what its body does and what the deferred
  handlers do after it; the frames are as before.  `Rests d t t'` says so of
  the thread's state before and after: `curr` and the frames below depth `d`
  are the same, the frames from `d` on are empty.  `InFrame` is the state
  while the body runs.

  Main results:
    * `edf_yields` — the rule for a call.
    * `edf_plain`, `edf_dyn`, `edf_static` — the rule for a body that defers
      nothing, one pointer or one object.
    * `runDefers_none`, `runDefers_dyn`, `runDefers_static` — what is left to
      do when nothing, one pointer or one object was deferred.
-/
import Prom.Modules.Mods

namespace Prom.Modules

open Prom.C Exec Heap Dga Errm Posix

/-! ## §1. The thread before, during and after a call. -/

/-- Between calls at depth `d`: nothing below has changed since `t`. -/
def Rests (d : Nat) (t t' : Thread Handler) : Prop :=
  t'.curr = (d : Int) - 1 ∧ (∀ j, j.val < d → t'.stack j = t.stack j) ∧
    ∀ j, d ≤ j.val → (t'.stack j).Empty

/-- In the body of a function whose frame is `i`, now `fr`. -/
def InFrame (i : Fin STACK_SIZE) (fr : Frame Handler) (t t' : Thread Handler) : Prop :=
  t'.curr = (i.val : Int) ∧ (∀ j, j < i → t'.stack j = t.stack j) ∧ t'.stack i = fr ∧
    ∀ j, i < j → (t'.stack j).Empty

theorem Rests.refl_of {d : Nat} {t t' : Thread Handler} (h : Rests d t t') : Rests d t' t' :=
  ⟨h.1, fun _ _ => rfl, h.2.2⟩

/-- A body may call functions. -/
theorem InFrame.rests {i : Fin STACK_SIZE} {fr : Frame Handler} {t t' : Thread Handler}
    (h : InFrame i fr t t') : Rests (i.val + 1) t' t' := by
  refine ⟨by rw [h.1]; omega, fun _ _ => rfl, ?_⟩
  intro j hj
  exact h.2.2.2 j (Fin.lt_def.mpr (by omega))

/-- The call over, the body goes on in its frame. -/
theorem InFrame.back {i : Fin STACK_SIZE} {fr : Frame Handler} {t t' t'' : Thread Handler}
    (h : InFrame i fr t t') (hr : Rests (i.val + 1) t' t'') : InFrame i fr t t'' := by
  obtain ⟨hcurr, hbelow, hfr, -⟩ := h
  refine ⟨by rw [hr.1]; omega, ?_, ?_, ?_⟩
  · intro j hj
    rw [hr.2.1 j (by have := Fin.lt_def.mp hj; omega), hbelow j hj]
  · rw [hr.2.1 i (by omega), hfr]
  · intro j hj
    exact hr.2.2 j (Fin.lt_def.mp hj)

/-- Setting the error code leaves the frames. -/
theorem InFrame.setErr {i : Fin STACK_SIZE} {fr : Frame Handler} {t t' : Thread Handler}
    (h : InFrame i fr t t') (c : Option ErrorCode) : InFrame i fr t { t' with errCode := c } := h

theorem Rests.setErr {d : Nat} {t t' : Thread Handler} (h : Rests d t t') (c : Option ErrorCode) :
    Rests d t { t' with errCode := c } := h

theorem InFrame.setFrame {i : Fin STACK_SIZE} {fr : Frame Handler} {t t' : Thread Handler}
    (h : InFrame i fr t t') (fr' : Frame Handler) : InFrame i fr' t (t'.setFrame i fr') := by
  obtain ⟨hcurr, hbelow, -, habove⟩ := h
  refine ⟨hcurr, ?_, setFrame_same t' i fr', ?_⟩
  · intro j hj
    exact (setFrame_ne fr' (Fin.ne_of_lt hj)).trans (hbelow j hj)
  · intro j hj
    rw [setFrame_ne fr' (Fin.ne_of_gt hj)]
    exact habove j hj

/-- The world a body starts in. -/
def World.enter (w : World) (i : Fin STACK_SIZE) : World :=
  { w with thread := { w.thread with errCode := none, curr := (i.val : Int) } }

/-- The world after the pop. -/
def World.leave (w : World) : World := { w with thread := { w.thread with curr := w.thread.curr - 1 } }

theorem Rests.enter {i : Fin STACK_SIZE} {w : World} (h : Rests i.val w.thread w.thread) :
    InFrame i (w.thread.stack i) w.thread (w.enter i).thread := by
  refine ⟨rfl, fun j _ => rfl, rfl, ?_⟩
  intro j hj
  exact h.2.2 j (Nat.le_of_lt hj)

theorem InFrame.leave {i : Fin STACK_SIZE} {fr : Frame Handler} {t : Thread Handler} {w : World}
    (h : InFrame i fr t w.thread) (hfr : fr.Empty) : Rests i.val t w.leave.thread := by
  obtain ⟨hcurr, hbelow, hi, habove⟩ := h
  refine ⟨by rw [← hcurr]; rfl, fun j hj => hbelow j hj, ?_⟩
  intro j hj
  rcases Nat.eq_or_lt_of_le hj with heq | hlt
  · rw [← Fin.ext heq]
    show (w.thread.stack i).Empty
    rwa [hi]
  · exact habove j hlt

theorem entered_eq {i : Fin STACK_SIZE} {w : World} (hrest : Rests i.val w.thread w.thread) :
    entered threadLens w = w.enter i := by
  have hcurr : w.thread.curr + 1 = (i.val : Int) := by
    rw [hrest.1]
    omega
  show ({ w with thread := { w.thread with errCode := none, curr := w.thread.curr + 1 } } : World) = _
  rw [hcurr, World.enter]

variable {A : Type}

/-- There is a frame left for the body. -/
theorem Rests.below {i : Fin STACK_SIZE} {w : World} (hrest : Rests i.val w.thread w.thread) :
    (threadLens.get w).curr < (STACK_SIZE : Int) - 1 := by
  show w.thread.curr < (STACK_SIZE : Int) - 1
  rw [hrest.1]
  have := i.isLt
  omega

/-- **A call of an edf function**: the body in its own frame, then the
    handlers. -/
theorem edf_yields {i : Fin STACK_SIZE} {w : World} {body : Exec World A} {Q : A → World → Prop}
    (hrest : Rests i.val w.thread w.thread)
    (hbody : Yields body (w.enter i) fun a w' =>
      Yields (runDefers threadLens handle) w' fun _ w'' =>
        (∃ fr, InFrame i fr w.thread w''.thread ∧ fr.Empty) ∧ Q a w''.leave) :
    Yields (edf body) w Q := by
  obtain ⟨a, w', hrun, hdefers⟩ := hbody
  obtain ⟨u, w'', hdrain, ⟨fr, hin, -⟩, hQ⟩ := hdefers
  have hpop : -1 < (threadLens.get w'').curr := by
    show -1 < w''.thread.curr
    rw [hin.1]
    omega
  exact ⟨a, w''.leave, edfFunc_eq hrest.below ((entered_eq hrest).symm ▸ hrun) hdrain hpop, hQ⟩

/-- A call whose body stops. -/
theorem edf_stop {i : Fin STACK_SIZE} {w w' : World} {body : Exec World A} {e : Fault}
    (hrest : Rests i.val w.thread w.thread) (hbody : body (w.enter i) = .stop e w') :
    edf body w = .stop e w' :=
  edfFunc_stop hrest.below handle ((entered_eq hrest).symm ▸ hbody)

theorem edf_undefined {i : Fin STACK_SIZE} {w : World} {body : Exec World A}
    (hrest : Rests i.val w.thread w.thread) (hbody : Undefined body (w.enter i)) :
    Undefined (edf body) w :=
  hbody.elim fun _ hstop => .of_eq (edf_stop hrest hstop)

/-! ## §2. What is left to do. -/

theorem onThread_currStackframe {i : Fin STACK_SIZE} {fr : Frame Handler} {t : Thread Handler}
    {w : World} (h : InFrame i fr t w.thread) : zoom threadLens currStackframe w = .ok i w :=
  zoom_ok (currStackframe_eq h.1)

theorem staticPass_nil {i : Fin STACK_SIZE} {w : World} (h : (w.thread.stack i).statics = []) :
    staticPass threadLens handle i () w = .ok (.inr ()) w := by
  rw [staticPass, bind_ok (zoom_ok (show popStatic i (threadLens.get w) = _ from popStatic_nil h))]
  rfl

theorem dynPass_nil {i : Fin STACK_SIZE} {w : World} (h : (w.thread.stack i).dyns = []) :
    dynPass threadLens handle i () w = .ok (.inr ()) w := by
  rw [dynPass, bind_ok (zoom_ok (show popDyn i (threadLens.get w) = _ from popDyn_nil h))]
  rfl

/-- The world with another frame `i`. -/
def World.withFrame (w : World) (i : Fin STACK_SIZE) (fr : Frame Handler) : World :=
  { w with thread := w.thread.setFrame i fr }

@[simp] theorem withFrame_stack (w : World) (i : Fin STACK_SIZE) (fr : Frame Handler) :
    (w.withFrame i fr).thread.stack i = fr := setFrame_same _ _ _

@[simp] theorem withFrame_withFrame (w : World) (i : Fin STACK_SIZE) (fr fr' : Frame Handler) :
    (w.withFrame i fr).withFrame i fr' = w.withFrame i fr' := by
  simp only [World.withFrame, Thread.setFrame, Function.update_idem]

/-- `run_defers` up to its first loop, and from its second. -/
theorem runDefers_split {i : Fin STACK_SIZE} {fr fr' : Frame Handler} {t : Thread Handler}
    {w w' : World} (h : InFrame i fr t w.thread)
    (hstat : loop maxPasses (staticPass threadLens handle i) () w = .ok () w')
    (hfr : w'.thread.stack i = fr') :
    runDefers threadLens handle w =
      loop maxPasses (dynPass threadLens handle i) () (w'.withFrame i { fr' with used := 0 }) := by
  rw [runDefers, bind_ok (onThread_currStackframe h), bind_ok hstat, ← hfr]
  rfl

/-- Nothing deferred. -/
theorem runDefers_none {i : Fin STACK_SIZE} {fr : Frame Handler} {t : Thread Handler} {w : World}
    (h : InFrame i fr t w.thread) (hs : fr.statics = []) (hd : fr.dyns = []) :
    runDefers threadLens handle w = .ok () (w.withFrame i { fr with used := 0 }) := by
  have hfr : w.thread.stack i = fr := h.2.2.1
  have hstat := staticPass_nil (show (w.thread.stack i).statics = [] by rw [hfr, hs])
  have hdyn := dynPass_nil (show ((w.withFrame i { fr with used := 0 }).thread.stack i).dyns = [] by
    rw [withFrame_stack, hd])
  rw [runDefers_split h (loop_zero maxPasses_pos hstat) hfr]
  exact loop_zero maxPasses_pos hdyn

/-- One pointer deferred. -/
theorem runDefers_dyn {i : Fin STACK_SIZE} {fr : Frame Handler} {t : Thread Handler} {w w' : World}
    {hd : Handler} {p : Ptr} (h : InFrame i fr t w.thread) (hs : fr.statics = [])
    (hdyns : fr.dyns = [(hd, p)])
    (hrun : handle hd (.ptr p) (w.withFrame i { fr with dyns := [], used := 0 }) = .ok () w')
    (hthread : w'.thread = (w.withFrame i { fr with dyns := [], used := 0 }).thread) :
    runDefers threadLens handle w = .ok () w' := by
  have hfr : w.thread.stack i = fr := h.2.2.1
  have hstat := staticPass_nil (show (w.thread.stack i).statics = [] by rw [hfr, hs])
  have hpop : popDyn i (threadLens.get (w.withFrame i { fr with used := 0 })) = .ok (some (hd, p)) _ :=
    popDyn_cons (show ((w.withFrame i { fr with used := 0 }).thread.stack i).dyns = [(hd, p)] by
      rw [withFrame_stack, hdyns])
  -- the entry is off the frame when its handler runs
  have hpopped : (w.withFrame i { fr with used := 0 }).withFrame i
      { (w.withFrame i { fr with used := 0 }).thread.stack i with dyns := [] } =
      w.withFrame i { fr with dyns := [], used := 0 } := by
    rw [withFrame_withFrame, withFrame_stack]
  have hpass : dynPass threadLens handle i () (w.withFrame i { fr with used := 0 }) =
      .ok (.inl ()) w' := by
    rw [dynPass, bind_ok (zoom_ok hpop)]
    show (handle hd (.ptr p) >>= _) ((w.withFrame i { fr with used := 0 }).withFrame i
      { (w.withFrame i { fr with used := 0 }).thread.stack i with dyns := [] }) = _
    rw [hpopped]
    exact bind_ok hrun _
  have hdone := dynPass_nil (show (w'.thread.stack i).dyns = [] by rw [hthread, withFrame_stack])
  rw [runDefers_split h (loop_zero maxPasses_pos hstat) hfr]
  exact loop_one one_lt_maxPasses hpass hdone

/-- One object deferred. -/
theorem runDefers_static {i : Fin STACK_SIZE} {fr : Frame Handler} {t : Thread Handler}
    {w w' : World} {hd : Handler} {off : Nat} (h : InFrame i fr t w.thread)
    (hs : fr.statics = [(hd, off)]) (hdyns : fr.dyns = [])
    (hrun : handle hd (.pool i off) (w.withFrame i { fr with statics := [] }) = .ok () w')
    (hthread : w'.thread = (w.withFrame i { fr with statics := [] }).thread) :
    runDefers threadLens handle w =
      .ok () (w'.withFrame i { fr with statics := [], used := 0 }) := by
  have hfr : w.thread.stack i = fr := h.2.2.1
  have hpop : popStatic i (threadLens.get w) = .ok (some (hd, off)) _ :=
    popStatic_cons (show (w.thread.stack i).statics = [(hd, off)] by rw [hfr, hs])
  have hpass : staticPass threadLens handle i () w = .ok (.inl ()) w' := by
    rw [staticPass, bind_ok (zoom_ok hpop)]
    show (handle hd (.pool i off) >>= _)
      (w.withFrame i { w.thread.stack i with statics := [] }) = _
    rw [hfr]
    exact bind_ok hrun _
  have hfr' : w'.thread.stack i = { fr with statics := [] } := by rw [hthread, withFrame_stack]
  -- the handler has deferred nothing, so one pass is all
  have hdone := staticPass_nil (show (w'.thread.stack i).statics = [] by rw [hfr'])
  have hdyn := dynPass_nil
    (show ((w'.withFrame i { fr with statics := [], used := 0 }).thread.stack i).dyns = [] by
      rw [withFrame_stack, hdyns])
  rw [runDefers_split h (loop_one one_lt_maxPasses hpass hdone) hfr']
  exact loop_zero maxPasses_pos hdyn

/-! ## §3. Parts of the world. -/

theorem onHeap_eq {m : Exec Heap A} {w : World} {a : A} {h : Heap} (hm : m w.heap = .ok a h) :
    onHeap m w = .ok a { w with heap := h } := zoom_ok hm

theorem onHeap_stop {m : Exec Heap A} {w : World} {e : Fault} {h : Heap}
    (hm : m w.heap = .stop e h) : onHeap m w = .stop e { w with heap := h } := zoom_stop hm

theorem onThread_eq {m : Exec (Thread Handler) A} {w : World} {a : A} {t : Thread Handler}
    (hm : m w.thread = .ok a t) : onThread m w = .ok a { w with thread := t } := zoom_ok hm

theorem onOs_eq {m : Exec Os A} {w : World} {a : A} {s : Os} (hm : m w.os = .ok a s) :
    onOs m w = .ok a { w with os := s } := zoom_ok hm

theorem errored_eq (w : World) : errored w = .ok w.thread.errCode.isSome w := rfl

theorem errored_false {w : World} (h : w.thread.errCode = none) : errored w = .ok false w := by
  rw [errored_eq, h]
  rfl

theorem errored_true {w : World} {c : ErrorCode} (h : w.thread.errCode = some c) :
    errored w = .ok true w := by
  rw [errored_eq, h]
  rfl

/-! ## §4. Bodies that defer at most once. -/

/-- The frames above the caller's, for a call from a body. -/
theorem InFrame.called {i : Fin STACK_SIZE} {fr : Frame Handler} {t t' : Thread Handler}
    (h : InFrame i fr t t') (hroom : i.val + 1 < STACK_SIZE) :
    Rests (⟨i.val + 1, hroom⟩ : Fin STACK_SIZE).val t' t' := h.rests

/-- An empty frame with nothing deferred in it ends a call as it began. -/
theorem InFrame.unused {i : Fin STACK_SIZE} {fr : Frame Handler} {t : Thread Handler} {w : World}
    (h : InFrame i fr t w.thread) (hfr : fr.Empty) :
    runDefers threadLens handle w = .ok () (w.withFrame i { fr with used := 0 }) :=
  runDefers_none h hfr.1 hfr.2.1

theorem Frame.Empty.drained {fr : Frame Handler} (hfr : fr.Empty) :
    ({ fr with used := 0 } : Frame Handler).Empty := ⟨hfr.1, hfr.2.1, rfl, hfr.2.2.2⟩

/-- An empty frame in which one object is deferred. -/
def withObject (fr : Frame Handler) (hd : Handler) (s : Size) (obj : List Cell) : Frame Handler :=
  { fr with used := s, pool := splice fr.pool 0 obj, statics := [(hd, 0)] }

/-- **A call whose body defers nothing.** -/
theorem edf_plain {i : Fin STACK_SIZE} {w : World} {body : Exec World A} {Q : A → World → Prop}
    (hrest : Rests i.val w.thread w.thread)
    (hbody : Yields body (w.enter i) fun a w' =>
      InFrame i (w.thread.stack i) w.thread w'.thread ∧
        ∀ t, Rests i.val w.thread t → t.errCode = w'.thread.errCode → Q a { w' with thread := t }) :
    Yields (edf body) w Q := by
  have hfr : (w.thread.stack i).Empty := hrest.2.2 i (Nat.le_refl _)
  refine edf_yields hrest (hbody.mono ?_)
  intro a w' ⟨hin, hQ⟩
  have hin' := hin.setFrame { w.thread.stack i with used := 0 }
  refine Yields.of_eq (hin.unused hfr) ⟨⟨_, hin', Frame.Empty.drained hfr⟩, ?_⟩
  exact hQ _ (InFrame.leave (w := w'.withFrame i _) hin' (Frame.Empty.drained hfr)) rfl

/-- **A call whose body defers one pointer.** -/
theorem edf_dyn {i : Fin STACK_SIZE} {w : World} {body : Exec World A} {Q : A → World → Prop}
    (hrest : Rests i.val w.thread w.thread)
    (hbody : Yields body (w.enter i) fun a w' =>
      ∃ hd p, InFrame i { w.thread.stack i with dyns := [(hd, p)] } w.thread w'.thread ∧
        ∀ t, t.errCode = w'.thread.errCode → Yields (handle hd (.ptr p)) { w' with thread := t }
          fun _ w'' => w''.thread = t ∧
            ∀ t', Rests i.val w.thread t' → t'.errCode = t.errCode → Q a { w'' with thread := t' }) :
    Yields (edf body) w Q := by
  have hfr : (w.thread.stack i).Empty := hrest.2.2 i (Nat.le_refl _)
  refine edf_yields hrest (hbody.mono ?_)
  intro a w' ⟨hd, p, hin, hhandle⟩
  have hin' := hin.setFrame { w.thread.stack i with dyns := [], used := 0 }
  -- the one entry of the frame is run, and leaves it empty
  have hempty : ({ w.thread.stack i with dyns := [], used := 0 } : Frame Handler).Empty :=
    ⟨hfr.1, rfl, rfl, hfr.2.2.2⟩
  obtain ⟨u, w'', hrun, hthread, hQ⟩ :=
    hhandle (w'.thread.setFrame i { w.thread.stack i with dyns := [], used := 0 }) rfl
  refine Yields.of_eq (runDefers_dyn hin hfr.1 rfl hrun hthread) ⟨⟨_, ?_, hempty⟩, ?_⟩
  · rw [hthread]
    exact hin'
  · refine hQ w''.leave.thread ?_ ?_
    · refine InFrame.leave (w := w'') ?_ hempty
      rw [hthread]
      exact hin'
    · show w''.thread.errCode = _
      rw [hthread]

/-- The object at the start of a pool. -/
theorem poolObject_first {t : Thread Handler} {i : Fin STACK_SIZE} {s : Size} {obj pool : List Cell}
    (hlen : obj.length = s.toNat) (hpool : (t.stack i).pool = splice pool 0 obj) :
    poolObject i 0 s t = .ok obj t := by
  have hparts : (t.stack i).pool = [] ++ obj ++ pool.drop (0 + obj.length) := by
    rw [hpool, splice, List.take_zero]
  have hinside : 0 + s.toNat ≤ (t.stack i).pool.length := by
    rw [hparts]
    simp only [List.nil_append, List.length_append]
    omega
  rw [poolObject, if_pos hinside, slice_middle [] obj _ hparts List.length_nil hlen]

/-- **A call whose body defers one object.** -/
theorem edf_static {i : Fin STACK_SIZE} {w : World} {body : Exec World A} {Q : A → World → Prop}
    {s : Size} {obj : List Cell} (hlen : obj.length = s.toNat) (hroom : s.toNat ≤ POOL_SIZE)
    (hd : Handler) (hrest : Rests i.val w.thread w.thread)
    (hbody : Yields body (w.enter i) fun a w' =>
      InFrame i (withObject (w.thread.stack i) hd s obj) w.thread w'.thread ∧
        ∀ t, t.errCode = w'.thread.errCode → poolObject i 0 s t = .ok obj t →
          Yields (handle hd (.pool i 0)) { w' with thread := t } fun _ w'' => w''.thread = t ∧
            ∀ t', Rests i.val w.thread t' → t'.errCode = t.errCode → Q a { w'' with thread := t' }) :
    Yields (edf body) w Q := by
  have hfr : (w.thread.stack i).Empty := hrest.2.2 i (Nat.le_refl _)
  have hpool : (w.thread.stack i).pool.length = POOL_SIZE := hfr.2.2.2
  have hin0 : 0 + obj.length ≤ (w.thread.stack i).pool.length := by omega
  refine edf_yields hrest (hbody.mono ?_)
  intro a w' ⟨hin, hhandle⟩
  -- the state in which the handler runs, and the state after it
  have hin' := hin.setFrame { withObject (w.thread.stack i) hd s obj with statics := [] }
  have hempty : ({ withObject (w.thread.stack i) hd s obj with statics := [], used := 0 } :
      Frame Handler).Empty := ⟨rfl, hfr.2.1, rfl, (length_splice hin0).trans hpool⟩
  obtain ⟨u, w'', hrun, hthread, hQ⟩ := hhandle
    (w'.thread.setFrame i { withObject (w.thread.stack i) hd s obj with statics := [] }) rfl
    (poolObject_first hlen (show _ = splice (w.thread.stack i).pool 0 obj by rw [setFrame_same]; rfl))
  have hinw : InFrame i { withObject (w.thread.stack i) hd s obj with statics := [] } w.thread
      w''.thread := by
    rw [hthread]
    exact hin'
  have hleft := hinw.setFrame { withObject (w.thread.stack i) hd s obj with statics := [], used := 0 }
  refine Yields.of_eq (runDefers_static hin rfl hfr.2.1 hrun hthread) ⟨⟨_, hleft, hempty⟩, ?_⟩
  refine hQ _ (InFrame.leave (w := w''.withFrame i _) hleft hempty) ?_
  show w''.thread.errCode = _
  rw [hthread]

/-- Deferring a pointer in a frame that is still empty. -/
theorem InFrame.defer {i : Fin STACK_SIZE} {fr : Frame Handler} {t : Thread Handler} {w : World}
    (h : InFrame i fr t w.thread) (hfr : fr.Empty) (hd : Handler) (p : Ptr) :
    onThread (Errm.defer hd p) w = .ok () (w.withFrame i { fr with dyns := [(hd, p)] }) := by
  have hstack : w.thread.stack i = fr := h.2.2.1
  have hroom : (w.thread.stack i).dyns.length < MAX_DYN_DEFERS := by
    rw [hstack, hfr.2.1]
    decide
  have hrun := onThread_eq (w := w) (defer_eq h.1 hroom hd p)
  rw [hstack, hfr.2.1] at hrun
  exact hrun

/-- Deferring an object in a frame that is still empty. -/
theorem InFrame.staticDefer {i : Fin STACK_SIZE} {fr : Frame Handler} {t : Thread Handler}
    {w : World} (h : InFrame i fr t w.thread) (hfr : fr.Empty) (hd : Handler) {s : Size}
    {obj : List Cell} (hlen : obj.length = s.toNat) (hroom : s.toNat ≤ POOL_SIZE) :
    onThread (Errm.staticDefer hd s obj) w = .ok () (w.withFrame i (withObject fr hd s obj)) := by
  have hstack : w.thread.stack i = fr := h.2.2.1
  have hfew : (w.thread.stack i).statics.length < MAX_STATIC_DEFERS := by
    rw [hstack, hfr.1]
    decide
  have hused : (w.thread.stack i).used.toNat = 0 := by
    rw [hstack, hfr.2.2.1]
    rfl
  have hrun := onThread_eq (w := w) (staticDefer_eq h.1 hfew hlen (by omega)
    (by rw [hstack]; exact hfr.2.2.2) hd)
  have hsum : (0 : Size) + s = s := BitVec.zero_add s
  rw [hused, hstack, hfr.1, hfr.2.2.1, hsum] at hrun
  exact hrun

end Prom.Modules
