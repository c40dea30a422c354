/-
  Prom.Errm.Discipline — frames do what calls are to do.

  Frames are used again without being reset, so everything rests on each call
  leaving the frames from its own on empty.  Two relations between a running
  thread and a run of the specification carry the proof:

      AtRest d      between calls at depth d: the frames from d on are empty
      InBody i      while the call in frame i runs: frame i holds what the
                    call has deferred, the frames above are empty

  Both leave the frames below untouched.

  Main results:
    * `interp_simulates` — a body keeps whatever its calls and registrations
      keep.
    * `staticLoop_simulates`, `dynLoop_simulates` — draining runs the handlers
      in the specified order.
    * `call_simulates` — a call does what it is to do, at every depth.
    * `edf_discipline` — the same from the thread's point of view.
-/
import Prom.Errm.Programs

namespace Prom.Errm

open Prom.C Exec

section Discipline

variable {W F R H A : Type}

/-! ## §1. Relations between thread and specification. -/

/-- Thread and specification see the same variables and have written the same
    log. -/
def Seen (s : State W F H) (v : View W F H) : Prop :=
  varsLens.get s = v.vars ∧ s.log = v.log

/-- Depth `d`, and every frame from there on empty. -/
def AtRest (d : Nat) (base : Fin STACK_SIZE → Frame H) (s : State W F H) (v : View W F H) : Prop :=
  Seen s v ∧ s.thread.curr = (d : Int) - 1 ∧
    (∀ j, j.val < d → s.thread.stack j = base j) ∧ ∀ j, d ≤ j.val → (s.thread.stack j).Empty

/-- Frame `i` is current and is `fr`, the frames above are empty. -/
def Inside (i : Fin STACK_SIZE) (base : Fin STACK_SIZE → Frame H) (fr : Frame H)
    (s : State W F H) (v : View W F H) : Prop :=
  Seen s v ∧ s.thread.curr = (i.val : Int) ∧ (∀ j, j < i → s.thread.stack j = base j) ∧
    s.thread.stack i = fr ∧ ∀ j, i < j → (s.thread.stack j).Empty

/-- The static entries of a frame and the objects they stand for, last one
    first: each object lies in the pool where the one before it ended. -/
inductive Saved (size : H → Size) (pool : List Cell) :
    List (H × Nat) → List (H × List Cell) → Nat → Prop
  | nil : Saved size pool [] [] 0
  | cons {entries : List (H × Nat)} {objs : List (H × List Cell)} {n : Nat} (h : H)
      (obj : List Cell) (hrest : Saved size pool entries objs n)
      (hslice : slice pool n obj.length = obj) (hsize : obj.length = (size h).toNat) :
      Saved size pool ((h, n) :: entries) ((h, obj) :: objs) (n + obj.length)

/-- The frame holds exactly what the call has deferred. -/
structure FrameRep (size : H → Size) (fr : Frame H) (d : Deferred H) : Prop where
  dyns : fr.dyns = d.dyns.reverse
  statics : Saved size fr.pool fr.statics d.statics.reverse fr.used.toNat
  used : fr.used.toNat ≤ POOL_SIZE
  pool : fr.pool.length = POOL_SIZE
  staticsLen : fr.statics.length ≤ MAX_STATIC_DEFERS
  dynsLen : fr.dyns.length ≤ MAX_DYN_DEFERS

/-- The call in frame `i` is running. -/
def InBody (size : H → Size) (i : Fin STACK_SIZE) (base : Fin STACK_SIZE → Frame H)
    (s : State W F H) (r : Running W F H) : Prop :=
  ∃ fr, Inside i base fr s r.view ∧ FrameRep size fr r.deferred

theorem Saved.length_eq {size : H → Size} {pool : List Cell} {es : List (H × Nat)}
    {os : List (H × List Cell)} {n : Nat} (h : Saved size pool es os n) : es.length = os.length := by
  induction h with
  | nil => rfl
  | cons h obj hrest hslice hsize ih => rw [List.length_cons, List.length_cons, ih]

/-- The used part of the pool is as long as the objects together. -/
theorem Saved.used_eq {size : H → Size} {pool : List Cell} {es : List (H × Nat)}
    {os : List (H × List Cell)} {n : Nat} (h : Saved size pool es os n) :
    n = (os.map fun e => e.2.length).sum := by
  induction h with
  | nil => rfl
  | cons h obj hrest hslice hsize ih => rw [List.map_cons, List.sum_cons, ← ih, Nat.add_comm]

/-- Writing behind the used part leaves the saved objects. -/
theorem Saved.splice {size : H → Size} {pool : List Cell} {es : List (H × Nat)}
    {os : List (H × List Cell)} {n off : Nat} {new : List Cell} (h : Saved size pool es os n)
    (hoff : n ≤ off) (hin : off + new.length ≤ pool.length) :
    Saved size (C.splice pool off new) es os n := by
  induction h with
  | nil => exact .nil
  | cons h obj hrest hslice hsize ih =>
    exact .cons h obj (ih (by omega)) ((slice_splice_below hin hoff).trans hslice) hsize

theorem bytes_eq_reverse (d : Deferred H) :
    d.bytes = (d.statics.reverse.map fun e => e.2.length).sum := by
  rw [Deferred.bytes, List.map_reverse, List.sum_reverse]

theorem FrameRep.empty {size : H → Size} {fr : Frame H} (h : fr.Empty) :
    FrameRep size fr ⟨[], []⟩ := by
  obtain ⟨hs, hd, hu, hp⟩ := h
  refine ⟨hd, ?_, ?_, hp, ?_, ?_⟩
  · rw [hs, hu]
    exact .nil
  · rw [hu]
    exact Nat.zero_le _
  · rw [hs]
    exact Nat.zero_le _
  · rw [hd]
    exact Nat.zero_le _

/-! ## §2. Bodies. -/

/-- **A body keeps whatever its calls and registrations keep.** -/
theorem interp_simulates {σ τ D : Type} {vars : Lens σ (Vars W)} {vars' : Lens τ (Vars W)}
    {callF : F → Exec σ R} {callF' : F → Exec τ R} {reg : D → Exec σ Unit} {reg' : D → Exec τ Unit}
    {Q E : σ → τ → Prop} (hget : ∀ s t, Q s t → vars.get s = vars'.get t)
    (hset : ∀ s t v, Q s t → Q (vars.set s v) (vars'.set t v))
    (hcall : ∀ f, Simulates Q (callF f) (callF' f) Q E)
    (hreg : ∀ d, Simulates Q (reg d) (reg' d) Q E) (p : Prog W F R D A) :
    Simulates Q (interp vars callF reg p) (interp vars' callF' reg' p) Q E := by
  induction p with
  | ret a => exact Simulates.pure a fun s t h => h
  | read k ih =>
    intro s t hst
    simp only [interp, hget s t hst]
    exact ih (vars'.get t) s t hst
  | write v k ih => exact (Simulates.modify fun s t h => hset s t v h).bind fun _ => ih
  | call f k ih => exact (hcall f).bind fun r => ih r
  | register d k ih => exact (hreg d).bind fun _ => ih

theorem Seen.set {s : State W F H} {v : View W F H} (h : Seen s v) (x : Vars W) :
    Seen (varsLens.set s x) (viewVars.set v x) :=
  ⟨rfl, h.2⟩

theorem note_simulates {Q : State W F H → View W F H → Prop} {E : State W F H → View W F H → Prop}
    (hQ : ∀ s v e, Q s v → Q { s with log := s.log ++ [e] } { v with log := v.log ++ [e] })
    (e : Event F H) : Simulates Q (note e) (specNote e) Q E :=
  Simulates.modify fun s v h => hQ s v e h

theorem Seen.note {s : State W F H} {v : View W F H} (h : Seen s v) (e : Event F H) :
    Seen { s with log := s.log ++ [e] } { v with log := v.log ++ [e] } :=
  ⟨h.1, by rw [h.2]⟩

/-- The calls made below frame `i`. -/
def CallsOk (callF : F → Exec (State W F H) R) (callF' : F → Exec (View W F H) R) (d : Nat) : Prop :=
  ∀ base f, Simulates (AtRest d base) (callF f) (callF' f) (AtRest d base) Seen

/-- A call leaves the caller's frame and those below as they are. -/
theorem call_inside {callF : F → Exec (State W F H) R} {callF' : F → Exec (View W F H) R}
    {i : Fin STACK_SIZE} (hcalls : CallsOk callF callF' (i.val + 1))
    (base : Fin STACK_SIZE → Frame H) (fr : Frame H) (f : F) :
    Simulates (Inside i base fr) (callF f) (callF' f) (Inside i base fr) Seen := by
  intro s v hin
  obtain ⟨hseen, hcurr, hbelow, hfr, habove⟩ := hin
  -- between calls at the next depth, with the frames as they are now
  have hrest : AtRest (i.val + 1) s.thread.stack s v := by
    refine ⟨hseen, by rw [hcurr]; omega, fun j _ => rfl, ?_⟩
    intro j hj
    exact habove j (Fin.lt_def.mpr (by omega))
  have hcall := hcalls s.thread.stack f s v hrest
  cases hspec : callF' f v with
  | ok r v' =>
    rw [hspec] at hcall
    obtain ⟨s', hrun, hseen', hcurr', hbelow', habove'⟩ := hcall
    refine ⟨s', hrun, hseen', by rw [hcurr']; omega, ?_, ?_, ?_⟩
    · intro j hj
      rw [hbelow' j (by have := Fin.lt_def.mp hj; omega), hbelow j hj]
    · rw [hbelow' i (by omega), hfr]
    · intro j hj
      exact habove' j (Fin.lt_def.mp hj)
  | stop e v' =>
    rw [hspec] at hcall
    exact hcall

/-- Running one handler with the argument it was deferred with. -/
theorem handler_simulates (P : Program W F R H) {callF : F → Exec (State W F H) R}
    {callF' : F → Exec (View W F H) R} {i : Fin STACK_SIZE}
    (hcalls : CallsOk callF callF' (i.val + 1)) (base : Fin STACK_SIZE → Frame H) (fr : Frame H)
    (h : H) (arg : Arg) (v : ArgVal)
    (harg : ∀ (s : State W F H) (w : View W F H), Inside i base fr s w →
      argVal P.size h arg s = .ok v s) :
    Simulates (Inside i base fr) (runHandler P callF h arg) (specHandler P callF' h v)
      (Inside i base fr) Seen := by
  -- the argument is read by the implementation alone
  apply Simulates.left v (Inside i base fr) fun s w hin => ⟨s, harg s w hin, hin⟩
  refine (note_simulates ?_ (.ran h v)).bind fun _ => ?_
  · intro s w e hin
    exact ⟨hin.1.note e, hin.2⟩
  · apply interp_simulates
    · intro s w hin
      exact hin.1.1
    · intro s w x hin
      exact ⟨hin.1.set x, hin.2⟩
    · intro f
      exact call_inside hcalls base fr f
    · intro d
      exact d.elim

/-- Changing frame `i` of a thread inside frame `i`. -/
theorem Inside.setFrame {i : Fin STACK_SIZE} {base : Fin STACK_SIZE → Frame H} {fr : Frame H}
    {s : State W F H} {v : View W F H} (hin : Inside i base fr s v) (fr' : Frame H) :
    Inside i base fr' (threadLens.set s (s.thread.setFrame i fr')) v := by
  obtain ⟨hseen, hcurr, hbelow, -, habove⟩ := hin
  refine ⟨hseen, hcurr, ?_, setFrame_same s.thread i fr', ?_⟩
  · intro j hj
    exact (setFrame_ne fr' (Fin.ne_of_lt hj)).trans (hbelow j hj)
  · intro j hj
    have := habove j hj
    rwa [← setFrame_ne fr' (Fin.ne_of_gt hj)] at this

/-- Registering keeps the frame in step with what the call has deferred. -/
theorem register_simulates {size : H → Size} (hsize : ∀ h, (size h).toNat < 2 ^ 63)
    (i : Fin STACK_SIZE) (base : Fin STACK_SIZE → Frame H) (d : Deferral H size) :
    Simulates (InBody size i base) (register d : Exec (State W F H) Unit) (specRegister d)
      (InBody size i base) (fun s r => Seen s r.view) := by
  intro s r hin
  obtain ⟨fr, hinside, hrep⟩ := hin
  obtain ⟨hseen, hcurr, -, hfr, -⟩ := id hinside
  cases d with
  | defer h arg =>
    have hlen : (s.thread.stack i).dyns.length = r.deferred.dyns.length := by
      rw [hfr, hrep.dyns, List.length_reverse]
    -- no slot is left: both sides stop before anything is written
    by_cases hfull : r.deferred.dyns.length + 1 > MAX_DYN_DEFERS
    · simp only [specRegister, if_pos hfull]
      exact ⟨s, zoom_stop (defer_full hcurr (by omega) h arg), hseen⟩
    · simp only [specRegister, if_neg hfull]
      refine ⟨_, zoom_ok (defer_eq hcurr (by omega) h arg), _, hinside.setFrame _, ?_⟩
      rw [hfr]
      refine ⟨?_, hrep.statics, hrep.used, hrep.pool, hrep.staticsLen, ?_⟩
      · rw [hrep.dyns, List.reverse_append, List.reverse_singleton, List.singleton_append]
      · rw [List.length_cons, ← hfr, hlen]
        omega
  | staticDefer h obj =>
    have hlen : (s.thread.stack i).statics.length = r.deferred.statics.length := by
      rw [hfr, hrep.statics.length_eq, List.length_reverse]
    have hused : (s.thread.stack i).used.toNat = r.deferred.bytes := by
      rw [hfr, hrep.statics.used_eq, bytes_eq_reverse]
    have husedle : (s.thread.stack i).used.toNat ≤ POOL_SIZE := by
      rw [hfr]
      exact hrep.used
    -- the slots are checked before the bytes
    by_cases hfull : r.deferred.statics.length + 1 > MAX_STATIC_DEFERS
    · simp only [specRegister, if_pos hfull]
      exact ⟨s, zoom_stop (staticDefer_full hcurr (by omega) h (size h) obj.cells), hseen⟩
    · by_cases hexceeds : r.deferred.bytes + (size h).toNat > POOL_SIZE
      · simp only [specRegister, if_neg hfull, if_pos hexceeds]
        exact ⟨s, zoom_stop (staticDefer_exceeds hcurr (hsize h) husedle (by omega) h obj.cells), hseen⟩
      · simp only [specRegister, if_neg hfull, if_neg hexceeds]
        have hfit : (s.thread.stack i).used.toNat + (size h).toNat ≤ POOL_SIZE := by omega
        have hpool : (s.thread.stack i).pool.length = POOL_SIZE := by
          rw [hfr]
          exact hrep.pool
        have hin : (s.thread.stack i).used.toNat + obj.cells.length ≤
            (s.thread.stack i).pool.length := by
          rw [hpool, obj.length_eq]
          exact hfit
        have hsum : ((s.thread.stack i).used + size h).toNat =
            (s.thread.stack i).used.toNat + obj.cells.length := by
          rw [BitVec.toNat_add, obj.length_eq]
          exact Nat.mod_eq_of_lt (Nat.lt_of_le_of_lt hfit (by decide))
        refine ⟨_, zoom_ok (staticDefer_eq hcurr (by omega) obj.length_eq hfit hpool h), _,
          hinside.setFrame _, ?_⟩
        refine ⟨?_, ?_, ?_, ?_, ?_, ?_⟩
        · show (s.thread.stack i).dyns = _
          rw [hfr]
          exact hrep.dyns
        · -- the new object lies behind the used part, the others where they were
          show Saved size _ _ (r.deferred.statics ++ [(h, obj.cells)]).reverse
            ((s.thread.stack i).used + size h).toNat
          rw [hsum, List.reverse_append, List.reverse_singleton, List.singleton_append]
          refine .cons h obj.cells ?_ (slice_splice_same hin) obj.length_eq
          have hsaved := hrep.statics
          rw [← hfr] at hsaved
          exact hsaved.splice (Nat.le_refl _) hin
        · show ((s.thread.stack i).used + size h).toNat ≤ POOL_SIZE
          rw [hsum, obj.length_eq]
          exact hfit
        · show (C.splice _ _ _).length = POOL_SIZE
          rw [length_splice hin, hpool]
        · rw [List.length_cons, hlen]
          omega
        · show (s.thread.stack i).dyns.length ≤ MAX_DYN_DEFERS
          rw [hfr]
          exact hrep.dynsLen

/-- A call made by a body. -/
theorem call_inBody {size : H → Size} {callF : F → Exec (State W F H) R}
    {callF' : F → Exec (View W F H) R} {i : Fin STACK_SIZE}
    (hcalls : CallsOk callF callF' (i.val + 1)) (base : Fin STACK_SIZE → Frame H) (f : F) :
    Simulates (InBody size i base) (callF f) (zoom runningView (callF' f)) (InBody size i base)
      (fun s r => Seen s r.view) := by
  intro s r hin
  obtain ⟨fr, hinside, hrep⟩ := hin
  have hcall := call_inside hcalls base fr f s r.view hinside
  cases hspec : callF' f r.view with
  | ok a v' =>
    rw [hspec] at hcall
    obtain ⟨s', hrun, hinside'⟩ := hcall
    rw [zoom_ok (show callF' f (runningView.get r) = _ from hspec)]
    exact ⟨s', hrun, fr, hinside', hrep⟩
  | stop e v' =>
    rw [hspec] at hcall
    rw [zoom_stop (show callF' f (runningView.get r) = _ from hspec)]
    exact hcall

/-- **The body of an edf function** keeps its frame in step. -/
theorem body_simulates (P : Program W F R H) {callF : F → Exec (State W F H) R}
    {callF' : F → Exec (View W F H) R} {i : Fin STACK_SIZE}
    (hcalls : CallsOk callF callF' (i.val + 1)) (base : Fin STACK_SIZE → Frame H) (f : F) :
    Simulates (InBody P.size i base) (interp varsLens callF register (P.body f))
      (interp runningVars (fun g => zoom runningView (callF' g)) specRegister (P.body f))
      (InBody P.size i base) (fun s r => Seen s r.view) := by
  apply interp_simulates
  · intro s r hin
    obtain ⟨fr, hinside, -⟩ := hin
    exact hinside.1.1
  · intro s r x hin
    obtain ⟨fr, hinside, hrep⟩ := hin
    exact ⟨fr, ⟨hinside.1.set x, hinside.2⟩, hrep⟩
  · exact call_inBody hcalls base
  · exact register_simulates P.size_lt i base

/-! ## §3. Draining a frame. -/

theorem argVal_pool {size : H → Size} {i : Fin STACK_SIZE} {s : State W F H} {h : H} {off : Nat}
    {obj : List Cell} (hslice : slice (s.thread.stack i).pool off obj.length = obj)
    (hsize : obj.length = (size h).toNat)
    (hin : off + obj.length ≤ (s.thread.stack i).pool.length) :
    argVal size h (.pool i off) s = .ok (.obj obj) s := by
  have hobj : poolObject i off (size h) s.thread = .ok obj s.thread := by
    rw [poolObject, ← hsize, if_pos hin, hslice]
  rw [argVal, bind_ok (zoom_ok (show poolObject i off (size h) (threadLens.get s) = _ from hobj))]
  rfl

/-- **The first loop of `run_defers`** runs the static handlers, last one
    first, each with its own object. -/
theorem staticLoop_simulates (P : Program W F R H) {callF : F → Exec (State W F H) R}
    {callF' : F → Exec (View W F H) R} {i : Fin STACK_SIZE}
    (hcalls : CallsOk callF callF' (i.val + 1)) (base : Fin STACK_SIZE → Frame H)
    {es : List (H × Nat)} {os : List (H × List Cell)} {n : Nat} {pool : List Cell}
    (hsaved : Saved P.size pool es os n) (hn : n ≤ pool.length) (dyns : List (H × Ptr))
    (used : Size) {fuel : Nat} (hfuel : es.length < fuel) :
    Simulates (Inside i base ⟨es, dyns, pool, used⟩)
      (loop fuel (staticPass threadLens (runHandler P callF) i) ())
      (specHandlers P callF' (os.map fun e => (e.1, .obj e.2)))
      (Inside i base ⟨[], dyns, pool, used⟩) Seen := by
  induction hsaved generalizing fuel with
  | nil =>
    intro s v hin
    obtain ⟨fuel, rfl⟩ := Nat.exists_eq_succ_of_ne_zero (show fuel ≠ 0 by omega)
    have hpop : popStatic i (threadLens.get s) = .ok none s.thread :=
      popStatic_nil (congrArg Frame.statics hin.2.2.2.1)
    have hpass : staticPass threadLens (runHandler P callF) i () s = .ok (.inr ()) s := by
      rw [staticPass, bind_ok (zoom_ok hpop)]
      rfl
    exact ⟨s, loop_exit hpass, hin⟩
  | @cons es os n h obj hrest hslice hsize ih =>
    obtain ⟨fuel, rfl⟩ := Nat.exists_eq_succ_of_ne_zero (show fuel ≠ 0 by omega)
    have ih := ih (by omega) (show es.length < fuel by
      rw [List.length_cons] at hfuel
      omega)
    intro s v hin
    -- the entry is taken off, and its handler runs with the rest still there
    have hpop : popStatic i (threadLens.get s) =
        .ok (some (h, n)) (s.thread.setFrame i ⟨es, dyns, pool, used⟩) := by
      rw [popStatic, show (threadLens.get s).stack i = _ from hin.2.2.2.1]
      rfl
    have hin₁ := hin.setFrame ⟨es, dyns, pool, used⟩
    have harg : ∀ (s : State W F H) (w : View W F H), Inside i base ⟨es, dyns, pool, used⟩ s w →
        argVal P.size h (.pool i n) s = .ok (.obj obj) s := by
      intro s w hin
      have hfr := hin.2.2.2.1
      apply argVal_pool
      · rw [hfr, hslice]
      · exact hsize
      · rw [hfr]
        exact hn
    have hhandler := handler_simulates P hcalls base ⟨es, dyns, pool, used⟩ h (.pool i n) (.obj obj)
      harg _ v hin₁
    rw [List.map_cons, specHandlers]
    cases hspec : specHandler P callF' h (.obj obj) v with
    | ok u v' =>
      rw [hspec] at hhandler
      obtain ⟨s', hrun, hin'⟩ := hhandler
      have hpass : staticPass threadLens (runHandler P callF) i () s = .ok (.inl ()) s' := by
        rw [staticPass, bind_ok (zoom_ok hpop)]
        exact bind_ok hrun _
      rw [bind_ok hspec, loop_next hpass]
      exact ih s' v' hin'
    | stop e v' =>
      rw [hspec] at hhandler
      obtain ⟨s', hrun, hseen⟩ := hhandler
      have hpass : staticPass threadLens (runHandler P callF) i () s = .stop e s' := by
        rw [staticPass, bind_ok (zoom_ok hpop)]
        exact bind_stop hrun _
      rw [bind_stop hspec]
      exact ⟨s', loop_stop (Nat.succ_pos _) hpass, hseen⟩

/-- **The second loop of `run_defers`** runs the dynamic handlers, last one
    first, each with its own pointer. -/
theorem dynLoop_simulates (P : Program W F R H) {callF : F → Exec (State W F H) R}
    {callF' : F → Exec (View W F H) R} {i : Fin STACK_SIZE}
    (hcalls : CallsOk callF callF' (i.val + 1)) (base : Fin STACK_SIZE → Frame H)
    (ds : List (H × Ptr)) (pool : List Cell) (used : Size) {fuel : Nat} (hfuel : ds.length < fuel) :
    Simulates (Inside i base ⟨[], ds, pool, used⟩)
      (loop fuel (dynPass threadLens (runHandler P callF) i) ())
      (specHandlers P callF' (ds.map fun e => (e.1, .ptr e.2)))
      (Inside i base ⟨[], [], pool, used⟩) Seen := by
  induction ds generalizing fuel with
  | nil =>
    intro s v hin
    obtain ⟨fuel, rfl⟩ := Nat.exists_eq_succ_of_ne_zero (show fuel ≠ 0 by omega)
    have hpop : popDyn i (threadLens.get s) = .ok none s.thread :=
      popDyn_nil (congrArg Frame.dyns hin.2.2.2.1)
    have hpass : dynPass threadLens (runHandler P callF) i () s = .ok (.inr ()) s := by
      rw [dynPass, bind_ok (zoom_ok hpop)]
      rfl
    exact ⟨s, loop_exit hpass, hin⟩
  | cons e ds ih =>
    obtain ⟨h, p⟩ := e
    obtain ⟨fuel, rfl⟩ := Nat.exists_eq_succ_of_ne_zero (show fuel ≠ 0 by omega)
    have ih := ih (show ds.length < fuel by
      rw [List.length_cons] at hfuel
      omega)
    intro s v hin
    -- a deferral is off the stack before its handler runs
    have hpop : popDyn i (threadLens.get s) =
        .ok (some (h, p)) (s.thread.setFrame i ⟨[], ds, pool, used⟩) := by
      rw [popDyn, show (threadLens.get s).stack i = _ from hin.2.2.2.1]
      rfl
    have hhandler := handler_simulates P hcalls base ⟨[], ds, pool, used⟩ h (.ptr p) (.ptr p)
      (fun s w _ => rfl) _ v (hin.setFrame ⟨[], ds, pool, used⟩)
    rw [List.map_cons, specHandlers]
    cases hspec : specHandler P callF' h (.ptr p) v with
    | ok u v' =>
      rw [hspec] at hhandler
      obtain ⟨s', hrun, hin'⟩ := hhandler
      have hpass : dynPass threadLens (runHandler P callF) i () s = .ok (.inl ()) s' := by
        rw [dynPass, bind_ok (zoom_ok hpop)]
        exact bind_ok hrun _
      rw [bind_ok hspec, loop_next hpass]
      exact ih s' v' hin'
    | stop e v' =>
      rw [hspec] at hhandler
      obtain ⟨s', hrun, hseen⟩ := hhandler
      have hpass : dynPass threadLens (runHandler P callF) i () s = .stop e s' := by
        rw [dynPass, bind_ok (zoom_ok hpop)]
        exact bind_stop hrun _
      rw [bind_stop hspec]
      exact ⟨s', loop_stop (Nat.succ_pos _) hpass, hseen⟩

theorem specHandlers_append (P : Program W F R H) (callF : F → Exec (View W F H) R)
    (l l' : List (H × ArgVal)) (v : View W F H) :
    specHandlers P callF (l ++ l') v = (specHandlers P callF l >>= fun _ => specHandlers P callF l') v := by
  induction l generalizing v with
  | nil => rfl
  | cons e l ih =>
    obtain ⟨h, a⟩ := e
    rw [List.cons_append, specHandlers, specHandlers, bind_assoc_apply]
    cases hrun : specHandler P callF h a v with
    | ok u v' => rw [bind_ok hrun, bind_ok hrun, ih]
    | stop e v' => rw [bind_stop hrun, bind_stop hrun]

/-- **`run_defers`** runs exactly what the frame holds, in the specified
    order, and leaves the frame empty. -/
theorem runDefers_simulates (P : Program W F R H) {callF : F → Exec (State W F H) R}
    {callF' : F → Exec (View W F H) R} {i : Fin STACK_SIZE}
    (hcalls : CallsOk callF callF' (i.val + 1)) (base : Fin STACK_SIZE → Frame H) {fr : Frame H}
    {d : Deferred H} (hrep : FrameRep P.size fr d) :
    Simulates (Inside i base fr) (runDefers threadLens (runHandler P callF))
      (specHandlers P callF' d.runOrder) (Inside i base ⟨[], [], fr.pool, 0⟩) Seen := by
  have hpool : fr.used.toNat ≤ fr.pool.length := by
    rw [hrep.pool]
    exact hrep.used
  have hstatics := staticLoop_simulates P hcalls base hrep.statics hpool fr.dyns fr.used
    (Nat.lt_of_le_of_lt hrep.staticsLen (show MAX_STATIC_DEFERS < maxPasses by decide))
  have hdyns := dynLoop_simulates P hcalls base d.dyns.reverse fr.pool 0
    (Nat.lt_of_le_of_lt (hrep.dyns ▸ hrep.dynsLen) (show MAX_DYN_DEFERS < maxPasses by decide))
  have hboth : Simulates (Inside i base fr) (runDefers threadLens (runHandler P callF))
      (specHandlers P callF' (d.statics.reverse.map fun e => (e.1, .obj e.2)) >>= fun _ =>
        specHandlers P callF' (d.dyns.reverse.map fun e => (e.1, .ptr e.2)))
      (Inside i base ⟨[], [], fr.pool, 0⟩) Seen := by
    apply Simulates.left i (Inside i base fr) fun s v hin =>
      ⟨s, zoom_ok (currStackframe_eq hin.2.1), hin⟩
    apply hstatics.bind fun _ => ?_
    -- between the loops the pool is given up
    refine Simulates.left () (Inside i base ⟨[], d.dyns.reverse, fr.pool, 0⟩) (fun s v hin => ?_) hdyns
    refine ⟨_, rfl, ?_⟩
    have hframe : { s.thread.stack i with used := (0 : Size) } =
        ⟨[], d.dyns.reverse, fr.pool, 0⟩ := by
      rw [hin.2.2.2.1, hrep.dyns]
    show Inside i base ⟨[], d.dyns.reverse, fr.pool, 0⟩
      (threadLens.set s (s.thread.setFrame i { s.thread.stack i with used := 0 })) v
    rw [hframe]
    exact hin.setFrame _
  intro s v hin
  rw [Deferred.runOrder, specHandlers_append]
  exact hboth s v hin

/-! ## §4. Calls. -/

theorem Simulates.collecting {Q S : State W F H → Running W F H → Prop}
    {T : State W F H → View W F H → Prop} {m : Exec (State W F H) A} {n : Exec (Running W F H) A}
    (h : Simulates Q m n S fun s r => Seen s r.view) (hT : ∀ s r, S s r → T s r.view) :
    Simulates (fun s v => Q s ⟨v, ⟨[], []⟩⟩) m (collecting n) T Seen := by
  intro s v hQ
  have hmn := h s ⟨v, ⟨[], []⟩⟩ hQ
  cases hn : n ⟨v, ⟨[], []⟩⟩ with
  | ok a r =>
    rw [hn] at hmn
    obtain ⟨s', hrun, hS⟩ := hmn
    simp only [Errm.collecting, hn]
    exact ⟨s', hrun, hT s' r hS⟩
  | stop e r =>
    rw [hn] at hmn
    simp only [Errm.collecting, hn]
    exact hmn

/-- Popping the drained frame leaves the caller at rest. -/
theorem AtRest.of_drained {i : Fin STACK_SIZE} {base : Fin STACK_SIZE → Frame H} {pool : List Cell}
    {s : State W F H} {v : View W F H} (hin : Inside i base ⟨[], [], pool, 0⟩ s v)
    (hpool : pool.length = POOL_SIZE) :
    AtRest i.val base (threadLens.set s { s.thread with curr := s.thread.curr - 1 }) v := by
  obtain ⟨hseen, hcurr, hbelow, hfr, habove⟩ := hin
  refine ⟨hseen, by rw [← hcurr]; rfl, fun j hj => hbelow j hj, ?_⟩
  intro j hj
  rcases Nat.eq_or_lt_of_le hj with heq | hlt
  · have hij : i = j := Fin.ext heq
    subst hij
    show (s.thread.stack i).Empty
    rw [hfr]
    exact ⟨rfl, rfl, rfl, hpool⟩
  · exact habove j hlt

/-- Pushing a frame from rest. -/
theorem AtRest.push {i : Fin STACK_SIZE} {base : Fin STACK_SIZE → Frame H} {s : State W F H}
    {v : View W F H} (hrest : AtRest i.val base s v) (size : H → Size) :
    InBody size i base (threadLens.set s { s.thread with curr := s.thread.curr + 1 })
      ⟨v, ⟨[], []⟩⟩ := by
  obtain ⟨hseen, hcurr, hbelow, habove⟩ := hrest
  refine ⟨s.thread.stack i, ⟨hseen, ?_, fun j hj => hbelow j hj, rfl, ?_⟩,
    FrameRep.empty (habove i (Nat.le_refl _))⟩
  · show s.thread.curr + 1 = _
    rw [hcurr]
    omega
  · intro j hj
    exact habove j (Nat.le_of_lt hj)

/-- **One call**, given that the calls below it do what they are to do. -/
theorem func_simulates (P : Program W F R H) {callF : F → Exec (State W F H) R}
    {callF' : F → Exec (View W F H) R} {i : Fin STACK_SIZE}
    (hcalls : CallsOk callF callF' (i.val + 1)) (base : Fin STACK_SIZE → Frame H) (f : F) :
    Simulates (AtRest i.val base)
      (edfFunc threadLens (runHandler P callF) (interp varsLens callF register (P.body f)))
      (specFunc P callF' f) (AtRest i.val base) Seen := by
  -- after the body: the handlers, then the pop
  have hdone : ∀ r : R, Simulates (InBody P.size i base)
      (do
        runDefers threadLens (runHandler P callF)
        if !(← zoom threadLens deferPop) then fail .abort else pure r)
      (do
        zoom runningView (specHandlers P callF' (← get).deferred.runOrder)
        pure r)
      (fun s x => AtRest i.val base s x.view) (fun s x => Seen s x.view) := by
    intro r s x hin
    obtain ⟨fr, hinside, hrep⟩ := hin
    have hrun := runDefers_simulates P hcalls base hrep s x.view hinside
    rw [get_bind_apply]
    cases hspec : specHandlers P callF' x.deferred.runOrder x.view with
    | ok u v' =>
      rw [hspec] at hrun
      obtain ⟨s', hleft, hdrained⟩ := hrun
      rw [bind_ok (zoom_ok (show specHandlers P callF' _ (runningView.get x) = _ from hspec))]
      have hcurr : -1 < s'.thread.curr := by
        rw [hdrained.2.1]
        omega
      refine ⟨_, ?_, AtRest.of_drained hdrained hrep.pool⟩
      rw [bind_ok hleft, bind_ok (zoom_ok (show deferPop (threadLens.get s') = _ from deferPop_eq hcurr))]
      rfl
    | stop e v' =>
      rw [hspec] at hrun
      obtain ⟨s', hleft, hseen⟩ := hrun
      rw [bind_stop (zoom_stop (show specHandlers P callF' _ (runningView.get x) = _ from hspec))]
      exact ⟨s', bind_stop hleft _, hseen⟩
  -- before it: the error code is cleared
  have hclear : Simulates (AtRest i.val base)
      (zoom threadLens errmClear : Exec (State W F H) Unit) (specClear : Exec (View W F H) Unit)
      (AtRest i.val base) Seen := by
    intro s v hrest
    refine ⟨_, rfl, ⟨?_, hrest.1.2⟩, hrest.2⟩
    have hworld : s.world = v.vars.world := congrArg Vars.world hrest.1.1
    show (⟨none, s.world⟩ : Vars W) = ⟨none, v.vars.world⟩
    rw [hworld]
  refine hclear.bind fun _ => ?_
  -- the push is a step of the implementation alone
  refine Simulates.left true (fun s v => InBody P.size i base s ⟨v, ⟨[], []⟩⟩) (fun s v hrest => ?_) ?_
  · have hcurr : s.thread.curr < (STACK_SIZE : Int) - 1 := by
      rw [hrest.2.1]
      have := i.isLt
      omega
    exact ⟨_, zoom_ok (show deferPush (threadLens.get s) = _ from deferPush_eq hcurr),
      hrest.push P.size⟩
  · exact Simulates.collecting ((body_simulates P hcalls base f).bind hdone) fun s r h => h

/-- A call with no frame left. -/
theorem full_simulates (P : Program W F R H) (fuel : Nat) (base : Fin STACK_SIZE → Frame H) (f : F) :
    Simulates (AtRest STACK_SIZE base) (call P (fuel + 1) f) (specCall P 0 f)
      (AtRest STACK_SIZE base) Seen := by
  intro s v hrest
  have hcurr : (STACK_SIZE : Int) - 1 ≤ s.thread.curr := Int.le_of_eq hrest.2.1.symm
  have hworld : s.world = v.vars.world := congrArg Vars.world hrest.1.1
  -- the entry is written down, the error is cleared, and the push is refused
  have hfull := edfFunc_refused
    (show _ ≤ (threadLens.get { s with log := s.log ++ [.enter f] }).curr from hcurr)
    (runHandler P (call P fuel)) (interp varsLens (call P fuel) register (P.body f))
  refine ⟨_, bind_stop hfull _, ?_, ?_⟩
  · show (⟨none, s.world⟩ : Vars W) = ⟨none, v.vars.world⟩
    rw [hworld]
  · show s.log ++ [.enter f] = v.log ++ [.enter f]
    rw [hrest.1.2]

/-- **A call does what it is to do**, at every depth. -/
theorem call_simulates (P : Program W F R H) {room fuel d : Nat} (hroom : d + room = STACK_SIZE)
    (hfuel : room < fuel) : CallsOk (call P fuel) (specCall P room) d := by
  induction room generalizing fuel d with
  | zero =>
    obtain ⟨fuel, rfl⟩ := Nat.exists_eq_succ_of_ne_zero (show fuel ≠ 0 by omega)
    rw [show d = STACK_SIZE by omega]
    exact full_simulates P fuel
  | succ room ih =>
    obtain ⟨fuel, rfl⟩ := Nat.exists_eq_succ_of_ne_zero (show fuel ≠ 0 by omega)
    intro base f
    have hcalls : CallsOk (call P fuel) (specCall P room) (d + 1) := ih (by omega) (by omega)
    have hfunc := func_simulates P (i := ⟨d, by omega⟩) hcalls base f
    have hnote : ∀ e : Event F H, Simulates (AtRest d base) (note e : Exec (State W F H) Unit)
        (specNote e) (AtRest d base) Seen :=
      note_simulates fun s v e hrest => ⟨hrest.1.note e, hrest.2⟩
    exact (hnote (.enter f)).bind fun _ => hfunc.bind fun r => (hnote (.leave f)).bind fun _ =>
      Simulates.pure r fun s v h => h

/-! ## §5. The discipline. -/

/-- The only way a computation stops is `abort()`. -/
def AbortsOnly {σ : Type} (m : Exec σ A) : Prop := ∀ s e s', m s = .stop e s' → e = .abort

theorem AbortsOnly.bind {σ B : Type} {m : Exec σ A} {f : A → Exec σ B} (hm : AbortsOnly m)
    (hf : ∀ a, AbortsOnly (f a)) : AbortsOnly (m >>= f) := by
  intro s e s' hstop
  cases hrun : m s with
  | ok a s₁ =>
    rw [bind_ok hrun] at hstop
    exact hf a s₁ e s' hstop
  | stop e' s₁ =>
    rw [bind_stop hrun] at hstop
    cases hstop
    exact hm s e s' hrun

theorem AbortsOnly.of_ok {σ : Type} {m : Exec σ A} (h : ∀ s, ∃ a s', m s = .ok a s') :
    AbortsOnly m := by
  intro s e s' hstop
  obtain ⟨a, s₁, hrun⟩ := h s
  rw [hrun] at hstop
  cases hstop

theorem AbortsOnly.zoom {σ τ : Type} {l : Lens σ τ} {m : Exec τ A} (hm : AbortsOnly m) :
    AbortsOnly (zoom l m) := by
  intro s e s' hstop
  cases hrun : m (l.get s) with
  | ok a t =>
    rw [zoom_ok hrun] at hstop
    cases hstop
  | stop e' t =>
    rw [zoom_stop hrun] at hstop
    cases hstop
    exact hm _ e t hrun

theorem AbortsOnly.interp {σ D : Type} {vars : Lens σ (Vars W)} {callF : F → Exec σ R}
    {reg : D → Exec σ Unit} (hcall : ∀ f, AbortsOnly (callF f)) (hreg : ∀ d, AbortsOnly (reg d))
    (p : Prog W F R D A) : AbortsOnly (interp vars callF reg p) := by
  induction p with
  | ret a => exact .of_ok fun s => ⟨a, s, rfl⟩
  | read k ih => exact fun s e s' hstop => ih (vars.get s) s e s' hstop
  | write v k ih => exact .bind (.of_ok fun s => ⟨_, _, rfl⟩) fun _ => ih
  | call f k ih => exact (hcall f).bind ih
  | register d k ih => exact (hreg d).bind fun _ => ih

theorem AbortsOnly.specRegister {size : H → Size} (d : Deferral H size) :
    AbortsOnly (specRegister d : Exec (Running W F H) Unit) := by
  intro r e r' hstop
  cases d with
  | defer h arg =>
    simp only [Errm.specRegister] at hstop
    split at hstop
    · cases hstop
      rfl
    · cases hstop
  | staticDefer h obj =>
    simp only [Errm.specRegister] at hstop
    split at hstop
    · cases hstop
      rfl
    · split at hstop
      · cases hstop
        rfl
      · cases hstop

theorem AbortsOnly.specHandlers (P : Program W F R H) {callF : F → Exec (View W F H) R}
    (hcall : ∀ f, AbortsOnly (callF f)) (l : List (H × ArgVal)) :
    AbortsOnly (specHandlers P callF l) := by
  induction l with
  | nil => exact .of_ok fun v => ⟨(), v, rfl⟩
  | cons e l ih =>
    refine .bind (.bind (.of_ok fun v => ⟨(), _, rfl⟩) fun _ => ?_) fun _ => ih
    exact .interp hcall (fun d => d.elim) _

theorem AbortsOnly.collecting {m : Exec (Running W F H) A} (hm : AbortsOnly m) :
    AbortsOnly (collecting m) := by
  intro v e v' hstop
  cases hrun : m ⟨v, ⟨[], []⟩⟩ with
  | ok a r =>
    simp only [Errm.collecting, hrun, reduceCtorEq] at hstop
  | stop e' r =>
    simp only [Errm.collecting, hrun] at hstop
    cases hstop
    exact hm _ e r hrun

theorem AbortsOnly.specCall (P : Program W F R H) (room : Nat) (f : F) :
    AbortsOnly (specCall P room f) := by
  induction room generalizing f with
  | zero =>
    intro v e v' hstop
    cases hstop
    rfl
  | succ room ih =>
    refine .bind (.of_ok fun v => ⟨(), _, rfl⟩) fun _ => .bind ?_ fun r =>
      .bind (.of_ok fun v => ⟨(), _, rfl⟩) fun _ => .of_ok fun v => ⟨r, v, rfl⟩
    refine .bind (.of_ok fun v => ⟨(), _, rfl⟩) fun _ => .collecting (.bind ?_ fun r => ?_)
    · exact .interp (fun g => (ih g).zoom) AbortsOnly.specRegister _
    · refine .bind (.of_ok fun x => ⟨x, x, rfl⟩) fun x => .bind ?_ fun _ => .of_ok fun x => ⟨r, x, rfl⟩
      exact (AbortsOnly.specHandlers P ih _).zoom

/-- **The defer discipline of edf functions.**  Take any program, any function
    of it and any thread at nesting depth `d` whose frames from there on are
    empty.  If the specification of the call ends, so does the call: with the
    same value and variables and the same handlers run with the same arguments
    in the same order, `curr` as before, the frames below untouched and the
    others empty again.  If the specification finds a limit exceeded, and only
    then, the call aborts, having done the same up to there. -/
theorem edf_discipline (P : Program W F R H) (f : F) (d : Nat) (hd : d ≤ STACK_SIZE)
    (s : State W F H) (hcurr : s.thread.curr = (d : Int) - 1)
    (hempty : ∀ j, d ≤ j.val → (s.thread.stack j).Empty) (fuel : Nat)
    (hfuel : STACK_SIZE - d < fuel) :
    match specCall P (STACK_SIZE - d) f ⟨varsLens.get s, s.log⟩ with
    | .ok r v =>
      ∃ s', call P fuel f s = .ok r s' ∧ varsLens.get s' = v.vars ∧ s'.log = v.log ∧
        s'.thread.curr = s.thread.curr ∧
        (∀ j, j.val < d → s'.thread.stack j = s.thread.stack j) ∧
        ∀ j, d ≤ j.val → (s'.thread.stack j).Empty
    | .stop e v =>
      e = .abort ∧ ∃ s', call P fuel f s = .stop .abort s' ∧ varsLens.get s' = v.vars ∧
        s'.log = v.log := by
  -- a call in the frame `d`: the frames below are what they are
  have hcalls := call_simulates P (show d + (STACK_SIZE - d) = STACK_SIZE by omega) hfuel
  have hcall := hcalls s.thread.stack f s ⟨varsLens.get s, s.log⟩
    ⟨⟨rfl, rfl⟩, hcurr, fun j _ => rfl, hempty⟩
  cases hspec : specCall P (STACK_SIZE - d) f ⟨varsLens.get s, s.log⟩ with
  | ok r v =>
    rw [hspec] at hcall
    obtain ⟨s', hrun, hseen, hcurr', hbelow, habove⟩ := hcall
    exact ⟨s', hrun, hseen.1, hseen.2, hcurr'.trans hcurr.symm, hbelow, habove⟩
  | stop e v =>
    -- the specification stops in one way only
    have he : e = .abort := AbortsOnly.specCall P _ f _ e v hspec
    rw [hspec] at hcall
    obtain ⟨s', hrun, hseen⟩ := hcall
    subst he
    exact ⟨rfl, s', hrun, hseen.1, hseen.2⟩

end Discipline

/-- Two functions and three handlers.  `true` saves an object for handler 0,
    defers handler 1, calls `false` and defers handler 2; `false` defers
    handler 1; handler 0 calls `false` again. -/
def nested : Program Unit Bool Unit (Fin 3) where
  size _ := 8
  size_lt _ := by decide
  body
    | true => .register (.staticDefer 0 ⟨encodeSize 5, rfl⟩) <| .register (.defer 1 ⟨.heap 0, 0⟩) <|
        .call false fun _ => .register (.defer 2 ⟨.heap 1, 0⟩) <| .ret ()
    | false => .register (.defer 1 ⟨.heap 2, 0⟩) <| .ret ()
  handler
    | 0, _ => .call false fun _ => .ret ()
    | _, _ => .ret ()

/-- In `nested` the object's handler runs before the two others, which run
    last one first. -/
theorem nested_discipline :
    ∃ s', call nested 13 true ⟨.start (Fin 3), (), []⟩ = .ok () s' ∧ s'.thread.curr = -1 ∧
      s'.log =
        [.enter true, .enter false, .ran 1 (.ptr ⟨.heap 2, 0⟩), .leave false,
          .ran 0 (.obj (encodeSize 5)), .enter false, .ran 1 (.ptr ⟨.heap 2, 0⟩), .leave false,
          .ran 2 (.ptr ⟨.heap 1, 0⟩), .ran 1 (.ptr ⟨.heap 0, 0⟩), .leave true] := by
  have hrun := edf_discipline nested true 0 (by decide) ⟨.start (Fin 3), (), []⟩ rfl
    (fun j _ => ⟨rfl, rfl, rfl, rfl⟩) 13 (by decide)
  obtain ⟨s', hcall, -, hlog, hcurr, -⟩ := hrun
  exact ⟨s', hcall, hcurr, hlog⟩

end Prom.Errm
