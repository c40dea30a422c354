/-
  Prom.Errm.SavedArguments — the objects that `static_defer` copies.

  The pool of a frame is given out from its start, each object right behind
  the one saved before it, and is only given up when all static handlers have
  been run.  A handler may write to its own object; the objects of the
  handlers still to be run lie below it.

  `H` names a handler together with the type of its argument, so the same
  function registered with objects of two sizes is two handlers.

  Main results:
    * `perform_saving` — what a body has saved is in the pool as it was.
    * `staticDefer_cases` — when a call of `static_defer` aborts.
    * `staticLoop_emptying` — each static handler is given its own object.
    * `saved_arguments_intact` — all of it, for any body.
-/
import Prom.Errm.Draining

namespace Prom.Errm

open Prom.C Exec

section SavedArguments

variable {W F R H D A : Type}

/-! ## §1. The used part of the pool. -/

/-- Saved objects fill the pool up to `top`, the last one first. -/
def Packed (size : H → Size) : List (H × Nat) → (top : Nat) → Prop
  | [], top => top = 0
  | (h, off) :: rest, top => top = off + (size h).toNat ∧ Packed size rest off

/-- The bytes that entries take up. -/
def savedBytes {B : Type} (size : H → Size) (es : List (H × B)) : Nat :=
  (es.map fun e => (size e.1).toNat).sum

/-- Byte `n` of the pool belongs to an entry. -/
def InExtent (size : H → Size) (e : H × Nat) (n : Nat) : Prop :=
  e.2 ≤ n ∧ n < e.2 + (size e.1).toNat

/-- No byte of the pool belongs to both entries. -/
def Separate (size : H → Size) (e e' : H × Nat) : Prop :=
  ∀ n, InExtent size e n → ¬InExtent size e' n

theorem Packed.stacked {size : H → Size} {es : List (H × Nat)} {top : Nat}
    (h : Packed size es top) : Stacked size es top := by
  induction es generalizing top with
  | nil => trivial
  | cons e es ih =>
    obtain ⟨htop, hrest⟩ := h
    exact ⟨Nat.le_of_eq htop.symm, ih hrest⟩

theorem Packed.top_eq {size : H → Size} {es : List (H × Nat)} {top : Nat}
    (h : Packed size es top) : top = savedBytes size es := by
  induction es generalizing top with
  | nil => exact h
  | cons e es ih =>
    obtain ⟨htop, hrest⟩ := h
    have hoff := ih hrest
    simp only [savedBytes, List.map_cons, List.sum_cons] at hoff ⊢
    omega

/-- Each object lies below the one saved after it. -/
theorem Stacked.pairwise {size : H → Size} {es : List (H × Nat)} {top : Nat}
    (h : Stacked size es top) : es.Pairwise (Separate size) := by
  induction es generalizing top with
  | nil => exact .nil
  | cons e es ih =>
    obtain ⟨-, hrest⟩ := h
    refine List.pairwise_cons.mpr ⟨?_, ih hrest⟩
    rintro e' he' n ⟨hstart, -⟩ ⟨-, hend⟩
    have hbelow := hrest.end_le he'
    omega

theorem Stacked.within {size : H → Size} {es : List (H × Nat)} {top : Nat}
    (h : Stacked size es top) {e : H × Nat} (he : e ∈ es) {n : Nat} (hn : InExtent size e n) :
    n < top :=
  Nat.lt_of_lt_of_le hn.2 (h.end_le he)

/-! ## §2. What a body saves. -/

/-- The argument is an object and not a pointer. -/
def ArgVal.isObj : ArgVal → Bool
  | .obj _ => true
  | .ptr _ => false

/-- The objects saved in frame `i`, with their handlers, as they were when
    they were registered. -/
def savedIn (i : Fin STACK_SIZE) (ms : List (Mark H)) : List (H × ArgVal) :=
  (registeredIn i ms).filter fun e => e.2.isObj

theorem savedIn_append (i : Fin STACK_SIZE) (ms ms' : List (Mark H)) :
    savedIn i (ms ++ ms') = savedIn i ms ++ savedIn i ms' := by
  rw [savedIn, registeredIn_append, List.filter_append]
  rfl

/-- The pool of a frame holds these objects, in order of registration. -/
structure Frame.Holds (size : H → Size) (objects : List (H × ArgVal)) (fr : Frame H) : Prop where
  pool : fr.pool.length = POOL_SIZE
  used : fr.used.toNat ≤ POOL_SIZE
  packed : Packed size fr.statics fr.used.toNat
  saved : fr.statics.map (savedObject size fr.pool) = objects.reverse

theorem Frame.Empty.holds {fr : Frame H} (h : fr.Empty) (size : H → Size) : fr.Holds size [] := by
  obtain ⟨hstatics, -, hused, hpool⟩ := h
  refine ⟨hpool, ?_, ?_, ?_⟩
  · rw [hused]
    exact Nat.zero_le _
  · rw [hstatics, hused]
    rfl
  · rw [hstatics]
    rfl

/-- One object more comes behind the others, which stay. -/
theorem Frame.Holds.save {size : H → Size} {objects : List (H × ArgVal)} {fr : Frame H}
    (hfr : fr.Holds size objects) {h : H} (obj : Obj (size h))
    (hfit : fr.used.toNat + (size h).toNat ≤ POOL_SIZE) :
    Frame.Holds size (objects ++ [(h, .obj obj.cells)])
      { fr with
        used := fr.used + size h
        pool := splice fr.pool fr.used.toNat obj.cells
        statics := (h, fr.used.toNat) :: fr.statics } := by
  have hin : fr.used.toNat + obj.cells.length ≤ fr.pool.length := by
    rw [hfr.pool, obj.length_eq]
    exact hfit
  have hold := savedObjects_splice hin fun e he => .inl (hfr.packed.stacked.end_le he)
  have hnew := slice_splice_same hin
  rw [obj.length_eq] at hnew
  refine ⟨(length_splice hin).trans hfr.pool, ?_, ?_, ?_⟩
  · show (fr.used + size h).toNat ≤ POOL_SIZE
    rw [used_add hfit]
    exact hfit
  · show (fr.used + size h).toNat = _ ∧ _
    rw [used_add hfit]
    exact ⟨rfl, hfr.packed⟩
  · show savedObject size _ (h, _) :: List.map _ _ = _
    rw [hold, hfr.saved, savedObject, hnew, List.reverse_append, List.reverse_singleton,
      List.singleton_append]

/-- A body has run from `s` to `s'` in frame `i`, and what it has saved is in
    the pool. -/
structure Saving (size : H → Size) (i : Fin STACK_SIZE) (ms : List (Mark H))
    (s s' : Traced W H) : Prop where
  log : s'.log = s.log ++ ms
  curr : s'.thread.curr = (i.val : Int)
  holds : (s'.thread.stack i).Holds size (savedIn i ms)

/-- What happens in the frames above saves nothing here. -/
theorem Saving.beyond {size : H → Size} {i : Fin STACK_SIZE} {ms : List (Mark H)}
    {s s₁ s₂ : Traced W H} (h : Saving size i ms s s₁) (hs₂ : Beyond (i.val + 1) s₁ s₂) :
    ∃ ms', Saving size i ms' s s₂ := by
  obtain ⟨ms', hlog, hms⟩ := hs₂.marks
  obtain ⟨-, hregistered, -⟩ := marks_elsewhere hms
  have hnone : savedIn i ms' = [] := by
    rw [savedIn, hregistered]
    rfl
  refine ⟨ms ++ ms', ?_, hs₂.curr.trans h.curr, ?_⟩
  · rw [hlog, h.log, List.append_assoc]
  · rw [hs₂.below i (Nat.lt_succ_self _), savedIn_append, hnone, List.append_nil]
    exact h.holds

/-- Setting the frame and writing down what was registered in it. -/
theorem Saving.noted {size : H → Size} {i : Fin STACK_SIZE} {ms : List (Mark H)}
    {s s₁ : Traced W H} (h : Saving size i ms s s₁) {m : Fin STACK_SIZE → Mark H} {fr : Frame H}
    (hfr : fr.Holds size (savedIn i ms ++ savedIn i [m i])) :
    Returns (markFrame m) (tracedThread.set s₁ (s₁.thread.setFrame i fr))
      fun _ s₂ => ∃ ms', Saving size i ms' s s₂ := by
  have hcurr : (tracedThread.set s₁ (s₁.thread.setFrame i fr)).thread.curr = (i.val : Int) := h.curr
  refine .of_eq (markFrame_eq hcurr m) ⟨ms ++ [m i], ?_, h.curr, ?_⟩
  · show s₁.log ++ [m i] = _
    rw [h.log, List.append_assoc]
  · show ((s₁.thread.setFrame i fr).stack i).Holds size _
    rw [setFrame_same, savedIn_append]
    exact hfr

/-- **One registration**: a pointer saves nothing. -/
theorem Saving.register {size : H → Size} (hsize : ∀ h, (size h).toNat < 2 ^ 63)
    {i : Fin STACK_SIZE} {ms : List (Mark H)} {s s₁ : Traced W H} (h : Saving size i ms s s₁)
    (d : Deferral H size) :
    Returns (openRegister d) s₁ fun _ s₂ => ∃ ms', Saving size i ms' s s₂ := by
  have hfr := h.holds
  cases d with
  | defer g arg =>
    refine Returns.bind (Returns.zoom fun u t' hrun => ?_) fun _ s' hs' => hs'
    cases defer_inv h.curr hrun
    refine h.noted ?_
    have hnone : savedIn i [Mark.registered i g (.ptr arg)] = [] := by
      simp [savedIn, registeredIn, ArgVal.isObj]
    rw [hnone, List.append_nil]
    exact ⟨hfr.pool, hfr.used, hfr.packed, hfr.saved⟩
  | staticDefer g obj =>
    refine Returns.bind (Returns.zoom fun u t' hrun => ?_) fun _ s' hs' => hs'
    obtain ⟨hfit, rfl⟩ := staticDefer_inv h.curr (hsize g) obj.length_eq hfr.used hfr.pool hrun
    refine h.noted ?_
    have hone : savedIn i [Mark.registered i g (.obj obj.cells)] = [(g, .obj obj.cells)] := by
      simp [savedIn, registeredIn, ArgVal.isObj]
    rw [hone]
    exact hfr.save obj hfit

/-- **What a body has saved** is in the pool as it was, whatever else the body
    does and calls. -/
theorem perform_saving (P : OpenProgram W F R H) (fuel : Nat) {i : Fin STACK_SIZE}
    (p : Code W F R (Deferral H P.size) A) {s : Traced W H} (hcurr : s.thread.curr = (i.val : Int))
    (hempty : (s.thread.stack i).Empty) :
    Returns (perform (openCall P fuel) openRegister p) s fun _ s' => ∃ ms, Saving P.size i ms s s' := by
  refine perform_keeps (I := fun s' => ∃ ms, Saving P.size i ms s s') ?_ ?_ ?_ ?_ ?_ p
    ⟨[], (List.append_nil _).symm, hcurr, hempty.holds P.size⟩
  · rintro s₁ w ⟨ms, hs₁⟩
    exact hs₁.beyond (.world _ s₁ w)
  · rintro s₁ c ⟨ms, hs₁⟩
    exact hs₁.beyond (.code _ s₁ (some c) rfl)
  · rintro s₁ ⟨ms, hs₁⟩
    exact hs₁.beyond (.code _ s₁ none rfl)
  · rintro f s₁ ⟨ms, hs₁⟩
    exact (openCall_above P fuel i f s₁ hs₁.curr).mono fun r s₂ hs₂ => hs₁.beyond hs₂
  · rintro d s₁ ⟨ms, hs₁⟩
    exact hs₁.register P.size_lt d

/-! ## §3. When a registration aborts. -/

theorem Frame.Holds.length_eq {size : H → Size} {objects : List (H × ArgVal)} {fr : Frame H}
    (hfr : fr.Holds size objects) : fr.statics.length = objects.length := by
  calc fr.statics.length
      = (fr.statics.map (savedObject size fr.pool)).length := by rw [List.length_map]
    _ = objects.reverse.length := by rw [hfr.saved]
    _ = objects.length := List.length_reverse

theorem Frame.Holds.used_eq {size : H → Size} {objects : List (H × ArgVal)} {fr : Frame H}
    (hfr : fr.Holds size objects) : fr.used.toNat = savedBytes size objects := by
  have hreverse : savedBytes size objects.reverse = savedBytes size objects := by
    rw [savedBytes, List.map_reverse, List.sum_reverse, savedBytes]
  rw [hfr.packed.top_eq, ← hreverse, ← hfr.saved, savedBytes, savedBytes, List.map_map]
  rfl

/-- **A call of `static_defer` aborts** when the frame holds as many entries
    as it can, or the object is too large for what is left of the pool, and
    then it has written nothing; otherwise it returns. -/
theorem staticDefer_cases {t : Thread H} {i : Fin STACK_SIZE} (h : t.curr = (i.val : Int))
    {size : H → Size} {objects : List (H × ArgVal)} (hfr : (t.stack i).Holds size objects) (g : H)
    {s : Size} (hs : s.toNat < 2 ^ 63) {obj : List Cell} (hobj : obj.length = s.toNat) :
    if MAX_STATIC_DEFERS ≤ objects.length ∨ POOL_SIZE < savedBytes size objects + s.toNat then
      staticDefer g s obj t = .stop .abort t
    else ∃ t', staticDefer g s obj t = .ok () t' := by
  rw [← hfr.length_eq, ← hfr.used_eq]
  split
  · rename_i hlimit
    rcases hlimit with hfull | hexceeds
    · exact staticDefer_full h hfull g s obj
    · exact staticDefer_exceeds h hs hfr.used hexceeds g obj
  · rename_i hlimit
    rw [not_or, Nat.not_le, Nat.not_lt] at hlimit
    exact ⟨_, staticDefer_eq h hlimit.1 hobj hlimit.2 hfr.pool g⟩

/-! ## §4. What the handlers are given. -/

/-- The handler's code registers nothing. -/
def HandlerAct.Stores {size : H → Size} : HandlerAct H size → Prop
  | .register _ => False
  | .store _ _ => True

/-- Frame `i` is as it was, but for its pool from `lo` on, and no handler has
    been run in it. -/
structure Undisturbed (i : Fin STACK_SIZE) (lo : Nat) (s s' : Traced W H) : Prop where
  curr : s'.thread.curr = s.thread.curr
  statics : (s'.thread.stack i).statics = (s.thread.stack i).statics
  below : ∀ off n, off + n ≤ lo →
    slice (s'.thread.stack i).pool off n = slice (s.thread.stack i).pool off n
  marks : ∃ ms, s'.log = s.log ++ ms ∧ ranIn i ms = []

theorem Undisturbed.trans {i : Fin STACK_SIZE} {lo : Nat} {s s' s'' : Traced W H}
    (h : Undisturbed i lo s s') (h' : Undisturbed i lo s' s'') : Undisturbed i lo s s'' := by
  obtain ⟨ms, hlog, hms⟩ := h.marks
  obtain ⟨ms', hlog', hms'⟩ := h'.marks
  refine ⟨h'.curr.trans h.curr, h'.statics.trans h.statics,
    fun off n hn => (h'.below off n hn).trans (h.below off n hn), ms ++ ms', ?_, ?_⟩
  · rw [hlog', hlog, List.append_assoc]
  · rw [ranIn_append, hms, hms']
    rfl

theorem Beyond.undisturbed {i : Fin STACK_SIZE} {s s' : Traced W H} (h : Beyond (i.val + 1) s s')
    (lo : Nat) : Undisturbed i lo s s' := by
  obtain ⟨ms, hlog, hms⟩ := h.marks
  have hsame : s'.thread.stack i = s.thread.stack i := h.below i (Nat.lt_succ_self _)
  refine ⟨h.curr, ?_, fun off n _ => ?_, ms, hlog, (marks_elsewhere hms).1⟩
  · rw [hsame]
  · rw [hsame]

theorem Undisturbed.setFrame {i : Fin STACK_SIZE} {lo : Nat} (s : Traced W H) {fr : Frame H}
    (hstatics : fr.statics = (s.thread.stack i).statics)
    (hbelow : ∀ off n, off + n ≤ lo → slice fr.pool off n = slice (s.thread.stack i).pool off n) :
    Undisturbed i lo s (tracedThread.set s (s.thread.setFrame i fr)) := by
  have hframe : (tracedThread.set s (s.thread.setFrame i fr)).thread.stack i = fr :=
    setFrame_same s.thread i fr
  refine ⟨rfl, ?_, fun off n hn => ?_, [], (List.append_nil _).symm, rfl⟩
  · rw [hframe, hstatics]
  · rw [hframe, hbelow off n hn]

/-- A write to the handler's own object leaves what lies below it. -/
theorem store_undisturbed (size : H → Size) (h : H) {i : Fin STACK_SIZE} (off n : Nat) (c : Cell)
    (s : Traced W H) :
    Returns (zoom tracedThread (storeArg size h n c (.pool i off))) s
      fun _ s' => Undisturbed i off s s' := by
  refine Returns.zoom fun u t' hrun => ?_
  obtain ⟨-, hin, rfl⟩ := storeArg_inv hrun
  have hin' : off + n + [c].length ≤ (s.thread.stack i).pool.length := hin
  refine .setFrame s rfl fun lo k hk => ?_
  exact slice_splice_below hin' (Nat.le_trans hk (Nat.le_add_right off n))

/-- The first loop has come from `s` to `s'`: the handlers run so far have been
    given the first of the objects, and those still in the frame stand for the
    others. -/
structure Emptying (size : H → Size) (i : Fin STACK_SIZE) (objects : List (H × ArgVal))
    (es : List (H × Nat)) (s s' : Traced W H) : Prop where
  curr : s'.thread.curr = (i.val : Int)
  left : (s'.thread.stack i).statics <:+ es
  stacked : ∃ top, Stacked size (s'.thread.stack i).statics top
  given : ∃ ms, s'.log = s.log ++ ms ∧
    ranIn i ms ++ (s'.thread.stack i).statics.map (savedObject size (s'.thread.stack i).pool) = objects

/-- Objects below what has changed are as they were. -/
theorem Undisturbed.saved {size : H → Size} {i : Fin STACK_SIZE} {lo : Nat} {s s' : Traced W H}
    (h : Undisturbed i lo s s') (hstacked : Stacked size (s.thread.stack i).statics lo) :
    (s'.thread.stack i).statics.map (savedObject size (s'.thread.stack i).pool) =
      (s.thread.stack i).statics.map (savedObject size (s.thread.stack i).pool) := by
  rw [h.statics]
  apply List.map_congr_left
  intro e he
  rw [savedObject, savedObject, h.below e.2 _ (hstacked.end_le he)]

section Handlers

variable (P : OpenProgram W F R H) {i : Fin STACK_SIZE} {callF : F → Exec (Traced W H) R}
  (hcalls : ∀ f s, s.thread.curr = (i.val : Int) → Returns (callF f) s fun _ s' => Beyond (i.val + 1) s s')
include hcalls

/-- **A handler that registers nothing** is given the bytes at its pointer and
    leaves what lies below them. -/
theorem quietHandler_undisturbed {h : H} (hquiet : ∀ v, (P.handler h v).Only HandlerAct.Stores)
    (off : Nat) {s : Traced W H} (hcurr : s.thread.curr = (i.val : Int)) :
    Returns (openHandler P callF h (.pool i off)) s fun _ s' =>
      Undisturbed i off
        { s with log := s.log ++ [.ran i h (argSeen P.size h (s.thread.stack i) (.pool i off))] } s' := by
  refine Returns.bind (readArg_seen P.size h (i := i) ?_ s) fun v s₁ hs₁ => ?_
  · rintro j off' ⟨⟩
    rfl
  obtain ⟨rfl, rfl⟩ := hs₁
  refine Returns.step (markFrame_eq hcurr _) ?_
  refine perform_keeps_only (I := fun s' => Undisturbed i off _ s') ?_ ?_ ?_ ?_ ?_ (P.handler h _)
    (hquiet _) ((Beyond.refl _ _).undisturbed off)
  · intro s₂ w hs₂
    exact hs₂.trans ((Beyond.world _ s₂ w).undisturbed off)
  · intro s₂ c hs₂
    exact hs₂.trans ((Beyond.code _ s₂ (some c) rfl).undisturbed off)
  · intro s₂ hs₂
    exact hs₂.trans ((Beyond.code _ s₂ none rfl).undisturbed off)
  · intro f s₂ hs₂
    exact (hcalls f s₂ (hs₂.curr.trans hcurr)).mono fun r s₃ hs₃ => hs₂.trans (hs₃.undisturbed off)
  · intro d s₂ hd hs₂
    cases d with
    | register d => exact hd.elim
    | store n c =>
      exact (store_undisturbed P.size h off n c s₂).mono fun _ s₃ hs₃ => hs₂.trans hs₃

/-- Taking a handler off its frame and running it. -/
theorem popped_emptying {objects : List (H × ArgVal)} {es rest : List (H × Nat)} {s s₁ : Traced W H}
    (hs₁ : Emptying P.size i objects es s s₁) {h : H} {off : Nat}
    (hquiet : ∀ v, (P.handler h v).Only HandlerAct.Stores)
    (hentries : (s₁.thread.stack i).statics = (h, off) :: rest) {fr : Frame H}
    (hstatics : fr.statics = rest) (hpool : fr.pool = (s₁.thread.stack i).pool) :
    Returns (openHandler P callF h (.pool i off)) (tracedThread.set s₁ (s₁.thread.setFrame i fr))
      fun _ s₂ => Emptying P.size i objects es s s₂ := by
  obtain ⟨top, hstacked⟩ := hs₁.stacked
  obtain ⟨ms, hlog, hgiven⟩ := hs₁.given
  have hleft := hs₁.left
  rw [hentries] at hstacked hgiven hleft
  have hframe : (tracedThread.set s₁ (s₁.thread.setFrame i fr)).thread.stack i = fr :=
    setFrame_same s₁.thread i fr
  have hcurr : (tracedThread.set s₁ (s₁.thread.setFrame i fr)).thread.curr = (i.val : Int) := hs₁.curr
  refine (quietHandler_undisturbed P hcalls hquiet off hcurr).mono fun _ s₂ hs₂ => ?_
  have hstatics₂ : (s₂.thread.stack i).statics = rest := by
    rw [hs₂.statics, hframe, hstatics]
  refine ⟨hs₂.curr.trans hs₁.curr, ?_, ⟨off, ?_⟩, ?_⟩
  · rw [hstatics₂]
    exact (List.suffix_cons (h, off) rest).trans hleft
  · rw [hstatics₂]
    exact hstacked.2
  · obtain ⟨ms', hlog₂, hms'⟩ := hs₂.marks
    -- the other objects lie below the one that was given
    have hbelow : Stacked P.size
        ((tracedThread.set s₁ (s₁.thread.setFrame i fr)).thread.stack i).statics off := by
      rw [hframe, hstatics]
      exact hstacked.2
    have hrest := hs₂.saved hbelow
    refine ⟨ms ++ .ran i h (.obj (slice fr.pool off (P.size h).toNat)) :: ms', ?_, ?_⟩
    · rw [hlog₂, hframe]
      show (s₁.log ++ [_]) ++ ms' = _
      rw [hlog, List.append_assoc, List.append_assoc, List.singleton_append]
      rfl
    · rw [hrest, hframe, ranIn_append, ranIn_ran, hms', hstatics, hpool, ← hgiven, List.append_assoc]
      rfl

/-- **One pass of the first loop** gives the last handler its object. -/
theorem staticPass_emptying {objects : List (H × ArgVal)} {es : List (H × Nat)}
    (hquiet : ∀ e ∈ es, ∀ v, (P.handler e.1 v).Only HandlerAct.Stores) {s s₁ : Traced W H}
    (hs₁ : Emptying P.size i objects es s s₁) :
    Returns (staticPass tracedThread (openHandler P callF) i ()) s₁ fun r s₂ =>
      Emptying P.size i objects es s s₂ ∧ (r = .inr () → (s₂.thread.stack i).statics = []) := by
  apply staticPass_returns
  · intro hnil
    exact ⟨hs₁, fun _ => hnil⟩
  · intro h off rest hentries
    have hmem : (h, off) ∈ es := by
      apply hs₁.left.subset
      rw [show (s₁.thread.stack i).statics = (h, off) :: rest from hentries]
      exact List.mem_cons_self
    refine (popped_emptying P hcalls hs₁ (hquiet (h, off) hmem) hentries ?_ ?_).mono
      fun _ s₂ hs₂ => ⟨hs₂, ?_⟩
    · rfl
    · rfl
    · rintro ⟨⟩

/-- **In the first loop** each handler is given its own object. -/
theorem staticLoop_emptying {objects : List (H × ArgVal)} {s : Traced W H}
    (hcurr : s.thread.curr = (i.val : Int)) (hs : (s.thread.stack i).Holds P.size objects)
    (hquiet : ∀ e ∈ (s.thread.stack i).statics, ∀ v, (P.handler e.1 v).Only HandlerAct.Stores) :
    (∀ x ∈ passes maxPasses (staticPass tracedThread (openHandler P callF) i) () s,
      Emptying P.size i objects.reverse (s.thread.stack i).statics s x.2) ∧
    Returns (loop maxPasses (staticPass tracedThread (openHandler P callF) i) ()) s fun _ s' =>
      Emptying P.size i objects.reverse (s.thread.stack i).statics s s' ∧
        (s'.thread.stack i).statics = [] := by
  have hstart : Emptying P.size i objects.reverse (s.thread.stack i).statics s s :=
    ⟨hcurr, List.suffix_rfl, ⟨_, hs.packed.stacked⟩, [], (List.append_nil _).symm, hs.saved⟩
  constructor
  · refine Returns.passes (I := fun _ s' => Emptying P.size i objects.reverse _ s s')
      (fun _ s₁ hs₁ => (staticPass_emptying P hcalls hquiet hs₁).mono fun r s₂ hs₂ => ?_) hstart
    cases r with
    | inl u => exact hs₂.1
    | inr u => trivial
  · refine Returns.loop (I := fun _ s' => Emptying P.size i objects.reverse _ s s')
      (fun _ s₁ hs₁ => (staticPass_emptying P hcalls hquiet hs₁).mono fun r s₂ hs₂ => ?_) hstart
    cases r with
    | inl u => exact hs₂.1
    | inr u => exact ⟨hs₂.1, hs₂.2 rfl⟩

end Handlers

/-! ## §5. Any body. -/

/-- **Saved arguments stay intact.**  Take any program, a frame that was empty
    when it was entered, and any body that has not aborted so far; what it does
    in between, and which functions it calls, is up to it.  Then

    - the copies of the objects saved so far take up disjoint parts of the
      pool, and hold the bytes the objects had when they were registered;
    - one more call of `static_defer` aborts exactly when the frame holds
      MAX_STATIC_DEFERS entries or the sizes saved so far and the new one
      exceed POOL_SIZE, and then it has written nothing;
    - if the handlers saved register nothing, then in `run_defers` each of them
      is given the bytes its object had when it was registered, the last one
      first: at every pass, what has been given and what is still in the
      frame are these objects, and when the loop is over all have been
      given. -/
theorem saved_arguments_intact (P : OpenProgram W F R H) (fuel : Nat) (i : Fin STACK_SIZE)
    (s s₁ : Traced W H) (hcurr : s.thread.curr = (i.val : Int)) (hempty : (s.thread.stack i).Empty)
    (p : Code W F R (Deferral H P.size) A) (a : A)
    (hrun : perform (openCall P fuel) openRegister p s = .ok a s₁) :
    ∃ ms, s₁.log = s.log ++ ms ∧
      ((s₁.thread.stack i).statics.Pairwise (Separate P.size) ∧
        ∀ e ∈ (s₁.thread.stack i).statics, ∀ n, InExtent P.size e n → n < POOL_SIZE) ∧
      (s₁.thread.stack i).statics.map (savedObject P.size (s₁.thread.stack i).pool) =
        (savedIn i ms).reverse ∧
      (∀ (g : H) (n : Size) (obj : List Cell), n.toNat < 2 ^ 63 → obj.length = n.toNat →
        if MAX_STATIC_DEFERS ≤ (savedIn i ms).length ∨
            POOL_SIZE < savedBytes P.size (savedIn i ms) + n.toNat then
          staticDefer g n obj s₁.thread = .stop .abort s₁.thread
        else ∃ t, staticDefer g n obj s₁.thread = .ok () t) ∧
      ((∀ e ∈ (s₁.thread.stack i).statics, ∀ v, (P.handler e.1 v).Only HandlerAct.Stores) →
        (∀ x ∈ passes maxPasses (staticPass tracedThread (openHandler P (openCall P fuel)) i) () s₁,
          ∃ ms', x.2.log = s₁.log ++ ms' ∧
            ranIn i ms' ++
                (x.2.thread.stack i).statics.map (savedObject P.size (x.2.thread.stack i).pool) =
              (savedIn i ms).reverse) ∧
        Returns (runDefers tracedThread (openHandler P (openCall P fuel))) s₁ fun _ _ =>
          ∃ s₂ ms', loop maxPasses (staticPass tracedThread (openHandler P (openCall P fuel)) i) () s₁ =
              .ok () s₂ ∧
            s₂.log = s₁.log ++ ms' ∧ ranIn i ms' = (savedIn i ms).reverse) := by
  obtain ⟨ms, hs₁⟩ := perform_saving P fuel p hcurr hempty a s₁ hrun
  have hholds := hs₁.holds
  have hstacked := hholds.packed.stacked
  refine ⟨ms, hs₁.log, ⟨hstacked.pairwise, fun e he n hn => ?_⟩, hholds.saved,
    fun g n obj hn hobj => staticDefer_cases hs₁.curr hholds g hn hobj, fun hquiet => ?_⟩
  · exact Nat.lt_of_lt_of_le (hstacked.within he hn) hholds.used
  · -- an edf function called by a handler runs in a frame of its own
    obtain ⟨hpasses, hloop⟩ := staticLoop_emptying P (openCall_above P fuel i) hs₁.curr hholds hquiet
    refine ⟨fun x hx => (hpasses x hx).given, fun u s' hdefers => ?_⟩
    obtain ⟨s₂, hfirst, -⟩ := runDefers_parts hs₁.curr hdefers
    obtain ⟨hempty₂, hnil⟩ := hloop () s₂ hfirst
    obtain ⟨ms', hlog, hgiven⟩ := hempty₂.given
    rw [hnil, List.map_nil, List.append_nil] at hgiven
    exact ⟨s₂, ms', hfirst, hlog, hgiven⟩

end SavedArguments

/-- Its handler overwrites the object it is given. -/
def scribbler : OpenProgram Unit Empty Unit Unit where
  size _ := 8
  size_lt _ := pointer_lt
  body := Empty.elim
  handler _ _ := .act (.store 0 .undef) <| .ret ()

/-- A `size_t` fills the object. -/
theorem scribbler_fits (n : Size) : (encodeSize n).length = (scribbler.size ()).toNat :=
  length_encodeSize n

/-- A body that saves two objects. -/
def twoObjects : Code Unit Empty Unit (Deferral Unit scribbler.size) Unit :=
  .act (.staticDefer () ⟨encodeSize 5, scribbler_fits 5⟩) <|
  .act (.staticDefer () ⟨encodeSize 7, scribbler_fits 7⟩) <| .ret ()

/-- A thread in its first frame. -/
def firstFrame : Traced Unit Unit := ⟨{ Thread.start Unit with curr := 0 }, (), []⟩

/-- Both handlers are given what was saved for them, and there is no room for
    another 33 bytes. -/
theorem two_objects_intact :
    ∃ s₁ : Traced Unit Unit, perform (openCall scribbler 0) openRegister twoObjects firstFrame = .ok () s₁ ∧
      staticDefer () 33 (fresh 33) s₁.thread = .stop .abort s₁.thread ∧
      ∃ s' : Traced Unit Unit, ∃ ms,
        runDefers tracedThread (openHandler scribbler (openCall scribbler 0)) s₁ = .ok () s' ∧
          s'.log = s₁.log ++ ms ∧
          ranIn bottomFrame ms = [((), .obj (encodeSize 7)), ((), .obj (encodeSize 5))] := by
  obtain ⟨_, s₁, hbody, htest⟩ := Yields.of_check (s := firstFrame)
    (m := perform (openCall scribbler 0) openRegister twoObjects)
    (p := fun _ s₁ => s₁.log = [.registered bottomFrame () (.obj (encodeSize 5)),
        .registered bottomFrame () (.obj (encodeSize 7))] ∧
      check (loop maxPasses (staticPass tracedThread
          (openHandler scribbler (openCall scribbler 0)) bottomFrame) ()) s₁ (fun _ s₂ =>
        check (runDefers tracedThread (openHandler scribbler (openCall scribbler 0))) s₁
          fun _ s' => s'.log = s₂.log) = true) (by decide +kernel)
  obtain ⟨hlog₁, hdefers⟩ := of_decide_eq_true htest
  -- the second loop finds nothing to run
  obtain ⟨_, s₂, hloop, hsame⟩ := Yields.of_check hdefers
  obtain ⟨_, s', hrun, hlast⟩ := Yields.of_check hsame
  obtain ⟨ms, hlog, -, -, hnext, hgiven⟩ := saved_arguments_intact scribbler 0 bottomFrame firstFrame s₁
    rfl ⟨rfl, rfl, rfl, rfl⟩ twoObjects () hbody
  have hms : ms = _ := hlog.symm.trans hlog₁
  subst hms
  obtain ⟨-, hreturns⟩ := hgiven fun _ _ _ => ⟨trivial, trivial⟩
  obtain ⟨s₂', ms', hloop', hlog₂, hran⟩ := hreturns () s' hrun
  cases hloop.symm.trans hloop'
  refine ⟨s₁, hbody, ?_, s', ms', hrun, (of_decide_eq_true hlast).trans hlog₂, hran⟩
  exact hnext () 33 (fresh 33) (by decide) rfl

end Prom.Errm
