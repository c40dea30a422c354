/-
  Prom.Errm.Draining — what `run_defers` leaves in its frame.

  Handlers may register handlers in the frame that is being drained.  The
  first loop runs the static ones, gives the pool up, and the second loop runs
  the dynamic ones.  A handler run by the first loop may register either kind
  and it will be run; so may one run by the second loop register a dynamic
  one.  A static one registered then is not looked at again.

  The proof keeps the books of a frame: what it held at first together with
  what was registered in it is what has been run in it together with what it
  holds now.

  Main results:
    * `openHandler_kept` — the books of a frame balance over one handler.
    * `staticLoop_books`, `dynLoop_books` — and over each loop.
    * `openCall_sound` — frames are sound in every state a program reaches.
    * `run_defers_drains_iff` — everything has been run and nothing is left
      exactly when the second loop saw no `static_defer`.
-/
import Prom.Errm.OpenPrograms

namespace Prom.Errm

open Prom.C Exec

section Draining

variable {W F R H D A : Type}

/-! ## §1. What a frame holds. -/

/-- Saved objects lie in the pool as they were saved, each behind the ones
    saved before it, and end at `top`. -/
def Stacked (size : H → Size) : List (H × Nat) → (top : Nat) → Prop
  | [], _ => True
  | (h, off) :: rest, top => off + (size h).toNat ≤ top ∧ Stacked size rest off

theorem Stacked.mono {size : H → Size} {es : List (H × Nat)} {top top' : Nat}
    (h : Stacked size es top) (htop : top ≤ top') : Stacked size es top' := by
  cases es with
  | nil => trivial
  | cons e es => exact ⟨Nat.le_trans h.1 htop, h.2⟩

theorem Stacked.end_le {size : H → Size} {es : List (H × Nat)} {top : Nat}
    (h : Stacked size es top) {e : H × Nat} (he : e ∈ es) : e.2 + (size e.1).toNat ≤ top := by
  induction es generalizing top with
  | nil => cases he
  | cons e' es ih =>
    obtain ⟨hfirst, hrest⟩ := h
    rcases List.mem_cons.mp he with rfl | he
    · exact hfirst
    · have := ih hrest he
      omega

/-- What `static_defer` keeps of a frame. -/
structure Frame.Sound (size : H → Size) (fr : Frame H) : Prop where
  pool : fr.pool.length = POOL_SIZE
  used : fr.used.toNat ≤ POOL_SIZE
  stacked : Stacked size fr.statics fr.used.toNat

/-- The object a static entry stands for. -/
def savedObject (size : H → Size) (pool : List Cell) (e : H × Nat) : H × ArgVal :=
  (e.1, .obj (slice pool e.2 (size e.1).toNat))

/-- The handlers in a frame, each with its own argument. -/
def Frame.contents (size : H → Size) (fr : Frame H) : List (H × ArgVal) :=
  fr.statics.map (savedObject size fr.pool) ++ fr.dyns.map fun e => (e.1, .ptr e.2)

/-- A frame without handlers, and with the whole pool to give out. -/
def Frame.Drained (fr : Frame H) : Prop := fr.statics = [] ∧ fr.dyns = [] ∧ fr.used = 0

theorem Frame.Empty.sound {fr : Frame H} (h : fr.Empty) (size : H → Size) : fr.Sound size := by
  obtain ⟨hstatics, -, hused, hpool⟩ := h
  refine ⟨hpool, ?_, ?_⟩
  · rw [hused]
    exact Nat.zero_le _
  · rw [hstatics]
    trivial

/-- The used part of the pool behind one object more. -/
theorem used_add {used n : Size} (h : used.toNat + n.toNat ≤ POOL_SIZE) :
    (used + n).toNat = used.toNat + n.toNat := by
  rw [BitVec.toNat_add]
  exact Nat.mod_eq_of_lt (Nat.lt_of_le_of_lt h (by decide))

/-- A sound frame with one object more. -/
theorem Frame.Sound.saved {size : H → Size} {fr : Frame H} (hsound : fr.Sound size) {h : H}
    (obj : Obj (size h)) (hfit : fr.used.toNat + (size h).toNat ≤ POOL_SIZE) :
    Frame.Sound size
      { fr with
        used := fr.used + size h
        pool := splice fr.pool fr.used.toNat obj.cells
        statics := (h, fr.used.toNat) :: fr.statics } := by
  refine ⟨?_, ?_, ?_⟩
  · have hin : fr.used.toNat + obj.cells.length ≤ fr.pool.length := by
      rw [hsound.pool, obj.length_eq]
      exact hfit
    exact (length_splice hin).trans hsound.pool
  · show (fr.used + size h).toNat ≤ POOL_SIZE
    rw [used_add hfit]
    exact hfit
  · show _ ≤ (fr.used + size h).toNat ∧ _
    rw [used_add hfit]
    exact ⟨Nat.le_refl _, hsound.stacked⟩

/-! ## §2. What the log says about a frame. -/

/-- The handlers run in frame `i`. -/
def ranIn (i : Fin STACK_SIZE) (ms : List (Mark H)) : List (H × ArgVal) :=
  ms.filterMap fun
    | .ran j h v => if j = i then some (h, v) else none
    | _ => none

/-- The handlers registered in frame `i`. -/
def registeredIn (i : Fin STACK_SIZE) (ms : List (Mark H)) : List (H × ArgVal) :=
  ms.filterMap fun
    | .registered j h v => if j = i then some (h, v) else none
    | _ => none

/-- `static_defer` is called in frame `i`. -/
def RegistersStatic (i : Fin STACK_SIZE) (ms : List (Mark H)) : Prop :=
  ∃ h cells, Mark.registered i h (.obj cells) ∈ ms

theorem ranIn_append (i : Fin STACK_SIZE) (ms ms' : List (Mark H)) :
    ranIn i (ms ++ ms') = ranIn i ms ++ ranIn i ms' := List.filterMap_append

theorem ranIn_ran (i : Fin STACK_SIZE) (h : H) (v : ArgVal) (ms : List (Mark H)) :
    ranIn i (.ran i h v :: ms) = (h, v) :: ranIn i ms := by
  simp [ranIn]

theorem registeredIn_append (i : Fin STACK_SIZE) (ms ms' : List (Mark H)) :
    registeredIn i (ms ++ ms') = registeredIn i ms ++ registeredIn i ms' := List.filterMap_append

theorem registersStatic_append {i : Fin STACK_SIZE} {ms ms' : List (Mark H)} :
    RegistersStatic i (ms ++ ms') ↔ RegistersStatic i ms ∨ RegistersStatic i ms' := by
  simp only [RegistersStatic, List.mem_append, exists_or]

/-- Marks about higher frames say nothing about frame `i`. -/
theorem marks_elsewhere {i : Fin STACK_SIZE} {ms : List (Mark H)}
    (h : ∀ m ∈ ms, ∀ j, m.frame? = some j → i.val + 1 ≤ j.val) :
    ranIn i ms = [] ∧ registeredIn i ms = [] ∧ ¬RegistersStatic i ms := by
  refine ⟨List.filterMap_eq_nil_iff.mpr ?_, List.filterMap_eq_nil_iff.mpr ?_, ?_⟩
  · intro m hm
    cases m with
    | ran j g v =>
      have hj : j ≠ i := by
        rintro rfl
        exact Nat.not_succ_le_self _ (h _ hm _ rfl)
      exact if_neg hj
    | _ => rfl
  · intro m hm
    cases m with
    | registered j g v =>
      have hj : j ≠ i := by
        rintro rfl
        exact Nat.not_succ_le_self _ (h _ hm _ rfl)
      exact if_neg hj
    | _ => rfl
  · -- a registration here would have its frame number above itself
    rintro ⟨g, cells, hm⟩
    exact Nat.not_succ_le_self _ (h _ hm i rfl)

/-! ## §3. Keeping the books. -/

/-- The books of frame `i`, which is current before and after, balance. -/
structure Books (size : H → Size) (i : Fin STACK_SIZE) (ms : List (Mark H))
    (s s' : Traced W H) : Prop where
  log : s'.log = s.log ++ ms
  curr : s'.thread.curr = (i.val : Int)
  sound : (s'.thread.stack i).Sound size
  balance : ((s.thread.stack i).contents size ++ registeredIn i ms).Perm
    (ranIn i ms ++ (s'.thread.stack i).contents size)

/-- What running handlers may do to the static entries of frame `i`. -/
structure Grown (i : Fin STACK_SIZE) (ms : List (Mark H)) (s s' : Traced W H) : Prop where
  same : ¬RegistersStatic i ms → (s'.thread.stack i).statics = (s.thread.stack i).statics ∧
    (s'.thread.stack i).used = (s.thread.stack i).used
  more : RegistersStatic i ms → (s'.thread.stack i).statics ≠ []
  kept : (s.thread.stack i).statics ≠ [] → (s'.thread.stack i).statics ≠ []

theorem Books.trans {size : H → Size} {i : Fin STACK_SIZE} {ms ms' : List (Mark H)}
    {s s' s'' : Traced W H} (h : Books size i ms s s') (h' : Books size i ms' s' s'') :
    Books size i (ms ++ ms') s s'' := by
  refine ⟨?_, h'.curr, h'.sound, ?_⟩
  · rw [h'.log, h.log, List.append_assoc]
  · rw [ranIn_append, registeredIn_append, ← List.append_assoc, List.append_assoc (ranIn i ms)]
    -- what the first part leaves is what the second starts from
    have hfirst := h.balance.append_right (registeredIn i ms')
    rw [List.append_assoc (ranIn i ms)] at hfirst
    exact hfirst.trans (h'.balance.append_left (ranIn i ms))

theorem Grown.trans {i : Fin STACK_SIZE} {ms ms' : List (Mark H)} {s s' s'' : Traced W H}
    (h : Grown i ms s s') (h' : Grown i ms' s' s'') : Grown i (ms ++ ms') s s'' := by
  refine ⟨?_, ?_, fun hne => h'.kept (h.kept hne)⟩
  · intro hnone
    rw [registersStatic_append, not_or] at hnone
    obtain ⟨hstatics, hused⟩ := h.same hnone.1
    obtain ⟨hstatics', hused'⟩ := h'.same hnone.2
    exact ⟨hstatics'.trans hstatics, hused'.trans hused⟩
  · intro hsome
    rcases registersStatic_append.mp hsome with hsome | hsome
    · exact h'.kept (h.more hsome)
    · exact h'.more hsome

/-! ## §4. One step of a handler. -/

/-- The range `lo` to `hi` of the pool is used, and no saved object is in it. -/
def Apart (size : H → Size) (lo hi : Nat) (fr : Frame H) : Prop :=
  hi ≤ fr.used.toNat ∧ ∀ e ∈ fr.statics, e.2 + (size e.1).toNat ≤ lo ∨ hi ≤ e.2

/-- Saved objects outside of what is written to the pool stay. -/
theorem savedObjects_splice {size : H → Size} {pool new : List Cell} {off : Nat}
    (hin : off + new.length ≤ pool.length) {es : List (H × Nat)}
    (hes : ∀ e ∈ es, e.2 + (size e.1).toNat ≤ off ∨ off + new.length ≤ e.2) :
    es.map (savedObject size (splice pool off new)) = es.map (savedObject size pool) := by
  apply List.map_congr_left
  intro e he
  have hslice : slice (splice pool off new) e.2 (size e.1).toNat = slice pool e.2 (size e.1).toNat := by
    rcases hes e he with hbelow | habove
    · exact slice_splice_below hin hbelow
    · exact slice_splice_above hin habove
  rw [savedObject, savedObject, hslice]

/-- The books of frame `i` balance from `s` to `s'`, and the range `lo` to `hi`
    of its pool is still set apart. -/
def Kept (size : H → Size) (i : Fin STACK_SIZE) (lo hi : Nat) (s s' : Traced W H) : Prop :=
  ∃ ms, Books size i ms s s' ∧ Grown i ms s s' ∧ Apart size lo hi (s'.thread.stack i)

theorem Kept.trans {size : H → Size} {i : Fin STACK_SIZE} {lo hi : Nat} {s s' s'' : Traced W H}
    (h : Kept size i lo hi s s') (h' : Kept size i lo hi s' s'') : Kept size i lo hi s s'' := by
  obtain ⟨ms, hbooks, hgrown, -⟩ := h
  obtain ⟨ms', hbooks', hgrown', hapart⟩ := h'
  exact ⟨ms ++ ms', hbooks.trans hbooks', hgrown.trans hgrown', hapart⟩

/-- What happens beyond frame `i` leaves its books alone. -/
theorem Beyond.kept {size : H → Size} {i : Fin STACK_SIZE} {lo hi : Nat} {s s' : Traced W H}
    (h : Beyond (i.val + 1) s s') (hcurr : s.thread.curr = (i.val : Int))
    (hsound : (s.thread.stack i).Sound size) (hapart : Apart size lo hi (s.thread.stack i)) :
    Kept size i lo hi s s' := by
  obtain ⟨ms, hlog, hms⟩ := h.marks
  obtain ⟨hran, hregistered, hstatic⟩ := marks_elsewhere hms
  have hsame : s'.thread.stack i = s.thread.stack i := h.below i (Nat.lt_succ_self _)
  refine ⟨ms, ⟨hlog, h.curr.trans hcurr, ?_, ?_⟩, ⟨fun _ => ?_, fun hsome => absurd hsome hstatic, ?_⟩, ?_⟩
  · rw [hsame]
    exact hsound
  · rw [hran, hregistered, hsame, List.append_nil, List.nil_append]
  · rw [hsame]
    exact ⟨rfl, rfl⟩
  · rw [hsame]
    exact id
  · rw [hsame]
    exact hapart

/-- What a registration does to the static entries and the pool. -/
def StaticsAfter (fr fr' : Frame H) : ArgVal → Prop
  | .ptr _ => fr'.statics = fr.statics ∧ fr'.used = fr.used
  | .obj _ => fr'.statics ≠ []

theorem StaticsAfter.grown {i : Fin STACK_SIZE} {s s' : Traced W H} {v : ArgVal}
    (hafter : StaticsAfter (s.thread.stack i) (s'.thread.stack i) v) (h : H) :
    Grown i [.registered i h v] s s' := by
  cases v with
  | ptr p =>
    have hnone : ¬RegistersStatic i [Mark.registered i h (.ptr p)] := by
      rintro ⟨g, cells, hmem⟩
      cases List.mem_singleton.mp hmem
    refine ⟨fun _ => hafter, fun hsome => absurd hsome hnone, ?_⟩
    rw [hafter.1]
    exact id
  | obj cells =>
    have hsome : RegistersStatic i [Mark.registered i h (.obj cells)] :=
      ⟨h, cells, List.mem_singleton_self _⟩
    exact ⟨fun hnone => absurd hsome hnone, fun _ => hafter, fun _ => hafter⟩

/-- The books balance with one handler more. -/
theorem registered_books {size : H → Size} {i : Fin STACK_SIZE} {s : Traced W H}
    (hcurr : s.thread.curr = (i.val : Int)) {fr : Frame H} (hsound : fr.Sound size) {h : H} {v : ArgVal}
    (hcontents : (fr.contents size).Perm ((h, v) :: (s.thread.stack i).contents size))
    (hafter : StaticsAfter (s.thread.stack i) fr v) :
    Returns (markFrame fun j => .registered j h v) (tracedThread.set s (s.thread.setFrame i fr))
      fun _ s' => Books size i [.registered i h v] s s' ∧ Grown i [.registered i h v] s s' ∧
        s'.thread.stack i = fr := by
  have hframe : (s.thread.setFrame i fr).stack i = fr := setFrame_same s.thread i fr
  have hcurr' : (tracedThread.set s (s.thread.setFrame i fr)).thread.curr = (i.val : Int) := hcurr
  refine .of_eq (markFrame_eq hcurr' _) ⟨⟨rfl, hcurr, ?_, ?_⟩, StaticsAfter.grown ?_ h, hframe⟩
  · show ((s.thread.setFrame i fr).stack i).Sound size
    rw [hframe]
    exact hsound
  · show (_ ++ registeredIn i [.registered i h v]).Perm
      (ranIn i [.registered i h v] ++ ((s.thread.setFrame i fr).stack i).contents size)
    have hone : registeredIn i [.registered i h v] = [(h, v)] := by simp [registeredIn]
    have hnone : ranIn i [.registered i h v] = [] := rfl
    rw [hframe, hone, hnone]
    exact (List.perm_append_singleton _ _).trans hcontents.symm
  · show StaticsAfter _ ((s.thread.setFrame i fr).stack i) v
    rw [hframe]
    exact hafter

/-- **The books balance over a registration**, and a range set apart stays
    so. -/
theorem register_books {size : H → Size} (hsize : ∀ h, (size h).toNat < 2 ^ 63)
    {i : Fin STACK_SIZE} {s : Traced W H} (hcurr : s.thread.curr = (i.val : Int))
    (hsound : (s.thread.stack i).Sound size) {lo hi : Nat}
    (hapart : Apart size lo hi (s.thread.stack i)) (d : Deferral H size) :
    Returns (openRegister d) s fun _ s' => Kept size i lo hi s s' := by
  cases d with
  | defer h arg =>
    refine Returns.bind (Returns.zoom fun u t' hrun => ?_) fun _ s' hs' => hs'
    cases defer_inv hcurr hrun
    refine (registered_books hcurr (h := h) (v := .ptr arg) ?_ ?_ ?_).mono
      fun _ s' hs' => ⟨_, hs'.1, hs'.2.1, ?_⟩
    · exact ⟨hsound.pool, hsound.used, hsound.stacked⟩
    · exact List.perm_middle
    · exact ⟨rfl, rfl⟩
    · rw [hs'.2.2]
      exact hapart
  | staticDefer h obj =>
    refine Returns.bind (Returns.zoom fun u t' hrun => ?_) fun _ s' hs' => hs'
    obtain ⟨hfit, rfl⟩ := staticDefer_inv hcurr (hsize h) obj.length_eq hsound.used hsound.pool hrun
    have hin : (s.thread.stack i).used.toNat + obj.cells.length ≤ (s.thread.stack i).pool.length := by
      rw [hsound.pool, obj.length_eq]
      exact hfit
    refine (registered_books hcurr (h := h) (v := .obj obj.cells) ?_ ?_ ?_).mono
      fun _ s' hs' => ⟨_, hs'.1, hs'.2.1, ?_⟩
    · exact hsound.saved obj hfit
    · -- the new object is behind the others, which stay
      have hnew := slice_splice_same hin
      rw [obj.length_eq] at hnew
      have hold := savedObjects_splice hin fun e he => .inl (hsound.stacked.end_le he)
      show (savedObject size _ (h, _) :: List.map _ _ ++ _).Perm _
      rw [hold, savedObject, hnew]
      exact .refl _
    · exact List.cons_ne_nil _ _
    · rw [hs'.2.2]
      refine ⟨?_, ?_⟩
      · -- the new object starts where the used part ended, above the range
        show hi ≤ ((s.thread.stack i).used + size h).toNat
        rw [used_add hfit]
        exact Nat.le_trans hapart.1 (Nat.le_add_right _ _)
      · intro e he
        rcases List.mem_cons.mp he with rfl | he
        · exact .inr hapart.1
        · exact hapart.2 e he

/-- A frame with the same handlers and arguments. -/
theorem Kept.setFrame {size : H → Size} {i : Fin STACK_SIZE} {lo hi : Nat} {s : Traced W H}
    (hcurr : s.thread.curr = (i.val : Int)) (hapart : Apart size lo hi (s.thread.stack i))
    {fr : Frame H} (hsound : fr.Sound size) (hstatics : fr.statics = (s.thread.stack i).statics)
    (hused : fr.used = (s.thread.stack i).used)
    (hcontents : fr.contents size = (s.thread.stack i).contents size) :
    Kept size i lo hi s (tracedThread.set s (s.thread.setFrame i fr)) := by
  have hframe : (tracedThread.set s (s.thread.setFrame i fr)).thread.stack i = fr :=
    setFrame_same s.thread i fr
  refine ⟨[], ⟨(List.append_nil _).symm, hcurr, ?_, ?_⟩, ⟨fun _ => ?_, ?_, ?_⟩, ?_⟩
  · rw [hframe]
    exact hsound
  · show (_ ++ []).Perm ([] ++ _)
    rw [hframe, hcontents, List.append_nil, List.nil_append]
  · rw [hframe]
    exact ⟨hstatics, hused⟩
  · rintro ⟨g, cells, hmem⟩
    cases hmem
  · rw [hframe, hstatics]
    exact id
  · rw [hframe, Apart, hstatics, hused]
    exact hapart

/-- A handler's writes to its own object leave the others. -/
theorem store_kept {size : H → Size} {i : Fin STACK_SIZE} {s : Traced W H}
    (hcurr : s.thread.curr = (i.val : Int)) (hsound : (s.thread.stack i).Sound size) {h : H} {off : Nat}
    (hapart : Apart size off (off + (size h).toNat) (s.thread.stack i)) (n : Nat) (c : Cell) :
    Returns (zoom tracedThread (storeArg size h n c (.pool i off))) s
      fun _ s' => Kept size i off (off + (size h).toNat) s s' := by
  refine Returns.zoom fun u t' hrun => ?_
  obtain ⟨hn, hin, rfl⟩ := storeArg_inv hrun
  have hin' : off + n + [c].length ≤ (s.thread.stack i).pool.length := hin
  -- every other object ends at `off` or starts behind the handler's own
  have hothers : ∀ e ∈ (s.thread.stack i).statics,
      e.2 + (size e.1).toNat ≤ off + n ∨ off + n + [c].length ≤ e.2 := by
    intro e he
    have hlen : [c].length = 1 := rfl
    rcases hapart.2 e he with hbelow | habove
    · exact .inl (by omega)
    · exact .inr (by omega)
  refine Kept.setFrame hcurr hapart ?_ rfl rfl ?_
  · exact ⟨(length_splice hin').trans hsound.pool, hsound.used, hsound.stacked⟩
  · exact congrArg (· ++ _) (savedObjects_splice hin' hothers)

/-- The range of the pool that a handler's argument takes up. -/
def ArgAt (size : H → Size) (i : Fin STACK_SIZE) (h : H) : Arg → (lo hi : Nat) → Prop
  | .ptr _, _, _ => True
  | .pool j off, lo, hi => j = i ∧ lo = off ∧ hi = off + (size h).toNat

/-- **The books balance over a handler's code.** -/
theorem perform_kept {size : H → Size} (hsize : ∀ h, (size h).toNat < 2 ^ 63) {i : Fin STACK_SIZE}
    {callF : F → Exec (Traced W H) R}
    (hcalls : ∀ f s, s.thread.curr = (i.val : Int) → Returns (callF f) s fun _ s' => Beyond (i.val + 1) s s')
    {h : H} {arg : Arg} {lo hi : Nat} (harg : ArgAt size i h arg lo hi)
    (p : Code W F R (HandlerAct H size) A) {s : Traced W H} (hcurr : s.thread.curr = (i.val : Int))
    (hsound : (s.thread.stack i).Sound size) (hapart : Apart size lo hi (s.thread.stack i)) :
    Returns (perform callF (handlerAct size h arg) p) s fun _ s' => Kept size i lo hi s s' := by
  -- what happens in the frames above leaves this one alone
  have hbeyond : ∀ s₁ s₂ : Traced W H, Kept size i lo hi s s₁ → Beyond (i.val + 1) s₁ s₂ →
      Kept size i lo hi s s₂ := by
    intro s₁ s₂ hs₁ hs₂
    obtain ⟨ms, hbooks, -, hapart₁⟩ := id hs₁
    exact hs₁.trans (hs₂.kept hbooks.curr hbooks.sound hapart₁)
  refine perform_keeps (I := fun s' => Kept size i lo hi s s') ?_ ?_ ?_ ?_ ?_ p
    ((Beyond.refl _ s).kept hcurr hsound hapart)
  · intro s₁ w hs₁
    exact hbeyond s₁ _ hs₁ (.world _ s₁ w)
  · intro s₁ c hs₁
    exact hbeyond s₁ _ hs₁ (.code _ s₁ (some c) rfl)
  · intro s₁ hs₁
    exact hbeyond s₁ _ hs₁ (.code _ s₁ none rfl)
  · intro f s₁ hs₁
    obtain ⟨ms, hbooks, -⟩ := id hs₁
    exact (hcalls f s₁ hbooks.curr).mono fun r s₂ hs₂ => hbeyond s₁ s₂ hs₁ hs₂
  · intro d s₁ hs₁
    obtain ⟨ms, hbooks, -, hapart₁⟩ := id hs₁
    have hstep : Returns (handlerAct size h arg d) s₁ fun _ s₂ => Kept size i lo hi s₁ s₂ := by
      cases d with
      | register d => exact register_books hsize hbooks.curr hbooks.sound hapart₁ d
      | store n c =>
        cases arg with
        | ptr p => exact .of_eq rfl ((Beyond.refl _ s₁).kept hbooks.curr hbooks.sound hapart₁)
        | pool j off =>
          obtain ⟨rfl, rfl, rfl⟩ := harg
          exact store_kept hbooks.curr hbooks.sound hapart₁ n c
    exact hstep.mono fun _ s₂ hs₂ => hs₁.trans hs₂

/-- The argument a handler sees. -/
def argSeen (size : H → Size) (h : H) (fr : Frame H) : Arg → ArgVal
  | .ptr p => .ptr p
  | .pool _ off => .obj (slice fr.pool off (size h).toNat)

theorem ArgAt.frame {size : H → Size} {i : Fin STACK_SIZE} {h : H} {arg : Arg} {lo hi : Nat}
    (harg : ArgAt size i h arg lo hi) (j : Fin STACK_SIZE) (off : Nat) (heq : arg = .pool j off) :
    j = i := by
  subst heq
  exact harg.1

theorem readArg_seen (size : H → Size) (h : H) {i : Fin STACK_SIZE} {arg : Arg}
    (harg : ∀ j off, arg = .pool j off → j = i) (s : Traced W H) :
    Returns (readArg size h arg) s fun v s' =>
      v = argSeen size h (s.thread.stack i) arg ∧ s' = s := by
  cases arg with
  | ptr p => exact .pure ⟨rfl, rfl⟩
  | pool j off =>
    obtain rfl := harg j off rfl
    refine Returns.bind (P := fun v s' => v = slice (s.thread.stack j).pool off (size h).toNat ∧ s' = s)
      (Returns.zoom fun cells t hrun => ?_) fun v s' hs' => .pure ⟨congrArg _ hs'.1, hs'.2⟩
    unfold poolObject at hrun
    split at hrun
    · cases hrun
      exact ⟨rfl, rfl⟩
    · cases hrun

/-- The books after a handler has been taken off and run. -/
theorem Books.ran {size : H → Size} {i : Fin STACK_SIZE} {ms : List (Mark H)} {s₁ s₂ s' : Traced W H}
    {h : H} {v : ArgVal}
    (hpop : ((s₁.thread.stack i).contents size).Perm ((h, v) :: (s₂.thread.stack i).contents size))
    (hlog : s₂.log = s₁.log ++ [.ran i h v]) (hbooks : Books size i ms s₂ s') :
    Books size i (.ran i h v :: ms) s₁ s' := by
  refine ⟨?_, hbooks.curr, hbooks.sound, ?_⟩
  · rw [hbooks.log, hlog, List.append_assoc, List.singleton_append]
  · have hregistered : registeredIn i (.ran i h v :: ms) = registeredIn i ms := rfl
    rw [ranIn_ran, hregistered]
    exact (hpop.append_right _).trans (hbooks.balance.cons (h, v))

theorem Grown.ran {i : Fin STACK_SIZE} {ms : List (Mark H)} {s₁ s₂ s' : Traced W H} {h : H}
    {v : ArgVal} (hgrown : Grown i ms s₂ s')
    (hstatics : (s₂.thread.stack i).statics = (s₁.thread.stack i).statics)
    (hused : (s₂.thread.stack i).used = (s₁.thread.stack i).used) :
    Grown i (.ran i h v :: ms) s₁ s' := by
  have hran : RegistersStatic i (.ran i h v :: ms) ↔ RegistersStatic i ms := by
    simp [RegistersStatic]
  refine ⟨fun hnone => ?_, fun hsome => hgrown.more (hran.mp hsome), fun hne => ?_⟩
  · rw [← hstatics, ← hused]
    exact hgrown.same (mt hran.mpr hnone)
  · rw [← hstatics] at hne
    exact hgrown.kept hne

section Handlers

variable (P : OpenProgram W F R H) {i : Fin STACK_SIZE} {callF : F → Exec (Traced W H) R}
  (hcalls : ∀ f s, s.thread.curr = (i.val : Int) → Returns (callF f) s fun _ s' => Beyond (i.val + 1) s s')
include hcalls

/-- **The books balance over a handler**, once it is written down as run. -/
theorem openHandler_kept {h : H} {arg : Arg} {lo hi : Nat} (harg : ArgAt P.size i h arg lo hi)
    {s : Traced W H} (hcurr : s.thread.curr = (i.val : Int)) (hsound : (s.thread.stack i).Sound P.size)
    (hapart : Apart P.size lo hi (s.thread.stack i)) :
    Returns (openHandler P callF h arg) s fun _ s' =>
      Kept P.size i lo hi
        { s with log := s.log ++ [.ran i h (argSeen P.size h (s.thread.stack i) arg)] } s' := by
  -- the argument is read before the handler runs a step
  refine Returns.bind (readArg_seen P.size h harg.frame s) fun v s₁ hs₁ => ?_
  obtain ⟨rfl, rfl⟩ := hs₁
  refine Returns.step (markFrame_eq hcurr _) ?_
  exact perform_kept P.size_lt hcalls harg (P.handler h _) hcurr hsound hapart

/-! ## §5. The two loops. -/

/-- Taking a handler off its frame and running it. -/
theorem popped_books {s : Traced W H} (hcurr : s.thread.curr = (i.val : Int)) (h : H) (arg : Arg) (fr : Frame H)
    {lo hi : Nat} (harg : ArgAt P.size i h arg lo hi) (hsound : fr.Sound P.size)
    (hapart : Apart P.size lo hi fr)
    (hpop : ((s.thread.stack i).contents P.size).Perm
      ((h, argSeen P.size h fr arg) :: fr.contents P.size)) :
    Returns (openHandler P callF h arg) (tracedThread.set s (s.thread.setFrame i fr)) fun _ s' =>
      ∃ ms, Books P.size i ms s s' ∧
        (fr.statics = (s.thread.stack i).statics → fr.used = (s.thread.stack i).used →
          Grown i ms s s') := by
  have hframe : (tracedThread.set s (s.thread.setFrame i fr)).thread.stack i = fr :=
    setFrame_same s.thread i fr
  have hrun := openHandler_kept P hcalls harg
    (s := tracedThread.set s (s.thread.setFrame i fr)) hcurr (by rwa [hframe]) (by rwa [hframe])
  rw [hframe] at hrun
  refine hrun.mono fun _ s' hs' => ?_
  obtain ⟨ms, hbooks, hgrown, -⟩ := hs'
  -- the mark is the entry that was taken off
  refine ⟨.ran i h (argSeen P.size h fr arg) :: ms, Books.ran ?_ rfl hbooks, fun hstatics hused => ?_⟩
  · show List.Perm _ (_ :: Frame.contents P.size ((s.thread.setFrame i fr).stack i))
    rw [setFrame_same]
    exact hpop
  · refine hgrown.ran ?_ ?_
    · exact (congrArg Frame.statics hframe).trans hstatics
    · exact (congrArg Frame.used hframe).trans hused

/-- **The first loop** keeps the books and leaves no static entry. -/
theorem staticLoop_books {s : Traced W H} (hcurr : s.thread.curr = (i.val : Int))
    (hsound : (s.thread.stack i).Sound P.size) :
    Returns (loop maxPasses (staticPass tracedThread (openHandler P callF) i) ()) s fun _ s' =>
      (∃ ms, Books P.size i ms s s') ∧ (s'.thread.stack i).statics = [] := by
  have hstart : ∃ ms, Books P.size i ms s s := by
    refine ⟨[], (List.append_nil _).symm, hcurr, hsound, ?_⟩
    rw [show registeredIn i ([] : List (Mark H)) = [] from rfl, List.append_nil]
    exact .refl _
  refine Returns.loop (I := fun _ s' => ∃ ms, Books P.size i ms s s') (fun _ s₁ hs₁ => ?_) hstart
  apply staticPass_returns
  · intro hnil
    exact ⟨hs₁, hnil⟩
  · intro h off rest hentries
    obtain ⟨ms, hbooks⟩ := hs₁
    have hentries' : (s₁.thread.stack i).statics = (h, off) :: rest := hentries
    have hstacked := hbooks.sound.stacked
    rw [hentries'] at hstacked
    obtain ⟨hend, hrest⟩ := hstacked
    -- what is left of the frame lies below the object taken off
    have hoff : off ≤ (s₁.thread.stack i).used.toNat := Nat.le_trans (Nat.le_add_right _ _) hend
    have hrun := popped_books P hcalls hbooks.curr h (.pool i off)
      { s₁.thread.stack i with statics := rest } ⟨rfl, rfl, rfl⟩
      ⟨hbooks.sound.pool, hbooks.sound.used, hrest.mono hoff⟩
      ⟨hend, fun e he => .inl (hrest.end_le he)⟩ (by rw [Frame.contents, hentries']; exact .refl _)
    exact hrun.mono fun _ s' ⟨ms', hbooks', _⟩ => ⟨ms ++ ms', hbooks.trans hbooks'⟩

/-- **The second loop** keeps the books, leaves no dynamic entry, and runs no
    static one. -/
theorem dynLoop_books {s : Traced W H} (hcurr : s.thread.curr = (i.val : Int))
    (hsound : (s.thread.stack i).Sound P.size) :
    Returns (loop maxPasses (dynPass tracedThread (openHandler P callF) i) ()) s fun _ s' =>
      (∃ ms, Books P.size i ms s s' ∧ Grown i ms s s') ∧ (s'.thread.stack i).dyns = [] := by
  -- a pointer takes up no part of the pool
  have hnowhere : ∀ fr : Frame H, Apart P.size 0 0 fr := fun fr => ⟨Nat.zero_le _, fun _ _ => .inr (Nat.zero_le _)⟩
  obtain ⟨ms₀, hbooks₀, hgrown₀, -⟩ :=
    (Beyond.refl (i.val + 1) s).kept hcurr hsound (hnowhere (s.thread.stack i))
  refine Returns.loop (I := fun _ s' => ∃ ms, Books P.size i ms s s' ∧ Grown i ms s s')
    (fun _ s₁ hs₁ => ?_) ⟨ms₀, hbooks₀, hgrown₀⟩
  apply dynPass_returns
  · intro hnil
    exact ⟨hs₁, hnil⟩
  · intro h p rest hentries
    obtain ⟨ms, hbooks, hgrown⟩ := hs₁
    have hentries' : (s₁.thread.stack i).dyns = (h, p) :: rest := hentries
    have hrun := popped_books P hcalls hbooks.curr h (.ptr p)
      { s₁.thread.stack i with dyns := rest } trivial
      ⟨hbooks.sound.pool, hbooks.sound.used, hbooks.sound.stacked⟩ (hnowhere _)
      (by rw [Frame.contents, hentries']; exact List.perm_middle)
    exact hrun.mono fun _ s' ⟨ms', hbooks', hgrown'⟩ =>
      ⟨ms ++ ms', hbooks.trans hbooks', hgrown.trans (hgrown' rfl rfl)⟩

end Handlers

/-! ## §6. `run_defers`. -/

/-- **What `run_defers` leaves.**  Take any program, any handlers of it in the
    current frame, and any run of `run_defers` that returns.  Every handler
    that was in the frame or was registered in it during the run has been run
    exactly once, with its own argument, and the frame is drained, if and only
    if no handler run by the second loop calls `static_defer` in that frame. -/
theorem run_defers_drains_iff (P : OpenProgram W F R H) (fuel : Nat) (i : Fin STACK_SIZE)
    (s s' : Traced W H) (hcurr : s.thread.curr = (i.val : Int))
    (hsound : (s.thread.stack i).Sound P.size)
    (hrun : runDefers tracedThread (openHandler P (openCall P fuel)) s = .ok () s') :
    ∃ s₁ ms₁ ms₂,
      loop maxPasses (staticPass tracedThread (openHandler P (openCall P fuel)) i) () s = .ok () s₁ ∧
      s₁.log = s.log ++ ms₁ ∧ s'.log = s₁.log ++ ms₂ ∧
      (((ranIn i (ms₁ ++ ms₂)).Perm
          ((s.thread.stack i).contents P.size ++ registeredIn i (ms₁ ++ ms₂)) ∧
        (s'.thread.stack i).Drained) ↔ ¬RegistersStatic i ms₂) := by
  -- an edf function runs in a frame of its own
  have hcalls := openCall_above P fuel i
  obtain ⟨s₁, hfirst, hsecond⟩ := runDefers_parts hcurr hrun
  obtain ⟨⟨ms₁, hbooks₁⟩, hstatics₁⟩ := staticLoop_books P hcalls hcurr hsound () s₁ hfirst
  -- the pool is given up, which leaves the dynamic entries
  have hframe := setFrame_same s₁.thread i { s₁.thread.stack i with used := 0 }
  have hsound₂ : Frame.Sound P.size { s₁.thread.stack i with used := 0 } := by
    refine ⟨hbooks₁.sound.pool, Nat.zero_le _, ?_⟩
    show Stacked P.size (s₁.thread.stack i).statics 0
    rw [hstatics₁]
    trivial
  have hsecond' := dynLoop_books P hcalls
    (s := tracedThread.set s₁ (s₁.thread.setFrame i { s₁.thread.stack i with used := 0 }))
    hbooks₁.curr (by rw [← hframe] at hsound₂; exact hsound₂) () s' hsecond
  obtain ⟨⟨ms₂, hbooks₂, hgrown₂⟩, hdyns⟩ := hsecond'
  have hrest : Books P.size i ms₂ s₁ s' := by
    refine ⟨hbooks₂.log, hbooks₂.curr, hbooks₂.sound, ?_⟩
    have hbalance := hbooks₂.balance
    rw [show (tracedThread.set s₁ (s₁.thread.setFrame i _)).thread.stack i = _ from hframe] at hbalance
    exact hbalance
  have hboth := (hbooks₁.trans hrest).balance
  refine ⟨s₁, ms₁, ms₂, hfirst, hbooks₁.log, hrest.log, ⟨?_, ?_⟩⟩
  · -- a static entry that the second loop gained is still there
    rintro ⟨-, hdrained⟩ hsome
    exact hgrown₂.more hsome hdrained.1
  · intro hnone
    -- without one the static entries are as the first loop left them
    obtain ⟨hstatics, hused⟩ := hgrown₂.same hnone
    have hstatics' : (s'.thread.stack i).statics = [] :=
      hstatics.trans ((congrArg Frame.statics hframe).trans hstatics₁)
    have hused' : (s'.thread.stack i).used = 0 := hused.trans (congrArg Frame.used hframe)
    have hempty : (s'.thread.stack i).contents P.size = [] := by
      rw [Frame.contents, hstatics', hdyns]
      rfl
    rw [hempty, List.append_nil] at hboth
    exact ⟨hboth.symm, hstatics', hdyns, hused'⟩

/-! ## §7. Every frame is sound. -/

/-- Frame `i` is current and every frame is sound. -/
def SoundAt (size : H → Size) (i : Int) (s : Traced W H) : Prop :=
  s.thread.curr = i ∧ ∀ j, (s.thread.stack j).Sound size

theorem SoundAt.setFrame {size : H → Size} {c : Int} {s : Traced W H} (h : SoundAt size c s)
    (i : Fin STACK_SIZE) {fr : Frame H} (hfr : fr.Sound size) :
    SoundAt size c (tracedThread.set s (s.thread.setFrame i fr)) := by
  refine ⟨h.1, fun j => ?_⟩
  -- the frame that was set, or another one
  by_cases hj : j = i
  · subst hj
    show ((s.thread.setFrame j fr).stack j).Sound size
    rw [setFrame_same]
    exact hfr
  · show ((s.thread.setFrame i fr).stack j).Sound size
    rw [setFrame_ne fr hj]
    exact h.2 j

theorem markFrame_sound {size : H → Size} {i : Fin STACK_SIZE} {s : Traced W H}
    (h : SoundAt size i.val s) (m : Fin STACK_SIZE → Mark H) :
    Returns (markFrame m) s fun _ s' => SoundAt size i.val s' :=
  .of_eq (markFrame_eq h.1 m) h

theorem register_sound {size : H → Size} (hsize : ∀ h, (size h).toNat < 2 ^ 63) {i : Fin STACK_SIZE}
    {s : Traced W H} (h : SoundAt size i.val s) (d : Deferral H size) :
    Returns (openRegister d) s fun _ s' => SoundAt size i.val s' := by
  have hframe := h.2 i
  have hset : ∀ fr : Frame H, fr.Sound size →
      SoundAt size i.val (tracedThread.set s (s.thread.setFrame i fr)) := fun fr hfr => h.setFrame i hfr
  cases d with
  | defer g arg =>
    refine Returns.bind (Returns.zoom fun u t' hrun => ?_) fun _ s' hs' => hs'
    cases defer_inv h.1 hrun
    have hfr : Frame.Sound size { s.thread.stack i with dyns := (g, arg) :: (s.thread.stack i).dyns } :=
      ⟨hframe.pool, hframe.used, hframe.stacked⟩
    exact markFrame_sound (hset _ hfr) _
  | staticDefer g obj =>
    refine Returns.bind (Returns.zoom fun u t' hrun => ?_) fun _ s' hs' => hs'
    obtain ⟨hfit, rfl⟩ := staticDefer_inv h.1 (hsize g) obj.length_eq hframe.used hframe.pool hrun
    exact markFrame_sound (hset _ (hframe.saved obj hfit)) _

theorem store_sound {size : H → Size} {c : Int} {s : Traced W H} (h : SoundAt size c s) (g : H)
    (arg : Arg) (n : Nat) (x : Cell) :
    Returns (zoom tracedThread (storeArg size g n x arg)) s fun _ s' => SoundAt size c s' := by
  cases arg with
  | ptr p => exact .of_eq rfl h
  | pool j off =>
    refine Returns.zoom fun u t' hrun => ?_
    obtain ⟨-, hin, rfl⟩ := storeArg_inv hrun
    have hin' : off + n + [x].length ≤ (s.thread.stack j).pool.length := hin
    have hframe := h.2 j
    -- only the pool has changed, and not its length
    exact h.setFrame j ⟨(length_splice hin').trans hframe.pool, hframe.used, hframe.stacked⟩

/-- Code keeps frames sound when its calls and acts do. -/
theorem perform_sound {size : H → Size} {c : Int} {callF : F → Exec (Traced W H) R}
    {act : D → Exec (Traced W H) Unit}
    (hcall : ∀ f s, SoundAt size c s → Returns (callF f) s fun _ s' => SoundAt size c s')
    (hact : ∀ d s, SoundAt size c s → Returns (act d) s fun _ s' => SoundAt size c s')
    (p : Code W F R D A) {s : Traced W H} (h : SoundAt size c s) :
    Returns (perform callF act p) s fun _ s' => SoundAt size c s' :=
  perform_keeps (I := SoundAt size c) (fun _ _ hs => hs) (fun _ _ hs => hs) (fun _ hs => hs) hcall hact
    p h

theorem openHandler_sound (P : OpenProgram W F R H) {i : Fin STACK_SIZE}
    {callF : F → Exec (Traced W H) R}
    (hcall : ∀ f s, SoundAt P.size i.val s → Returns (callF f) s fun _ s' => SoundAt P.size i.val s')
    (h : H) (arg : Arg) {s : Traced W H} (hs : SoundAt P.size i.val s) :
    Returns (openHandler P callF h arg) s fun _ s' => SoundAt P.size i.val s' := by
  refine Returns.bind (readArg_same P.size h arg s) fun v s₁ hs₁ => ?_
  subst hs₁
  refine Returns.bind (markFrame_sound hs _) fun _ s₂ hs₂ => ?_
  refine perform_sound hcall (fun d s₃ hs₃ => ?_) (P.handler h v) hs₂
  cases d with
  | register d => exact register_sound P.size_lt hs₃ d
  | store n c => exact store_sound hs₃ h arg n c

theorem runDefers_sound (P : OpenProgram W F R H) {i : Fin STACK_SIZE}
    {callF : F → Exec (Traced W H) R}
    (hcall : ∀ f s, SoundAt P.size i.val s → Returns (callF f) s fun _ s' => SoundAt P.size i.val s')
    {s : Traced W H} (hs : SoundAt P.size i.val s) :
    Returns (runDefers tracedThread (openHandler P callF)) s fun _ s' => SoundAt P.size i.val s' := by
  refine runDefers_keeps (I := SoundAt P.size i.val) ?_ ?_ ?_ hs.1 hs
  · intro s₁ h off rest hs₁ hentries
    have hframe := hs₁.2 i
    -- the entries that stay end below the one taken off
    have hstacked := hframe.stacked
    rw [show (s₁.thread.stack i).statics = (h, off) :: rest from hentries] at hstacked
    refine openHandler_sound P hcall h _ (hs₁.setFrame i ⟨hframe.pool, hframe.used, ?_⟩)
    exact hstacked.2.mono (Nat.le_trans (Nat.le_add_right _ _) hstacked.1)
  · intro s₁ hs₁ hnil
    refine hs₁.setFrame i ⟨(hs₁.2 i).pool, Nat.zero_le _, ?_⟩
    show Stacked P.size (s₁.thread.stack i).statics 0
    rw [show (s₁.thread.stack i).statics = [] from hnil]
    trivial
  · intro s₁ h p rest hs₁ _
    have hframe := hs₁.2 i
    exact openHandler_sound P hcall h _ (hs₁.setFrame i ⟨hframe.pool, hframe.used, hframe.stacked⟩)

/-- **Frames stay sound**: whatever a program does, a call that returns leaves
    every frame sound. -/
theorem openCall_sound (P : OpenProgram W F R H) (fuel : Nat) (f : F) {d : Nat} {s : Traced W H}
    (hs : SoundAt P.size ((d : Int) - 1) s) :
    Returns (openCall P fuel f) s fun _ s' => SoundAt P.size ((d : Int) - 1) s' := by
  induction fuel generalizing f d s with
  | zero => exact .fail .fuel s _
  | succ fuel ih =>
    intro r s' hrun
    have hcurr' : s'.thread.curr = (d : Int) - 1 :=
      (openCall_beyond P (fuel + 1) f hs.1 r s' hrun).curr.trans hs.1
    obtain ⟨_, s₀, hmark, hrun⟩ := ok_of_bind hrun
    cases hmark
    obtain ⟨hroom, s₁, s₂, hbody, hdefers, rfl⟩ := edfFunc_parts hrun
    have hroom' : s.thread.curr < (STACK_SIZE : Int) - 1 := hroom
    have hd := hs.1
    obtain ⟨i, rfl⟩ : ∃ i : Fin STACK_SIZE, i.val = d := ⟨⟨d, by omega⟩, rfl⟩
    have hcall : ∀ g s, SoundAt P.size i.val s →
        Returns (openCall P fuel g) s fun _ s' => SoundAt P.size i.val s' := by
      intro g s hs
      have hnext := ih g (d := i.val + 1) (s := s)
      rw [show ((i.val + 1 : Nat) : Int) - 1 = (i.val : Int) by omega] at hnext
      exact hnext hs
    have hpushed : SoundAt P.size i.val
        (entered tracedThread { s with log := s.log ++ [.cleared] }) := by
      refine ⟨?_, hs.2⟩
      show s.thread.curr + 1 = _
      omega
    have hs₁ := perform_sound hcall (fun a s hs => register_sound P.size_lt hs a) (P.body f) hpushed
      r s₁ hbody
    have hs₂ := runDefers_sound P hcall hs₁ () s₂ hdefers
    exact ⟨hcurr', hs₂.2⟩

/-- The first call of a thread finds every frame empty. -/
theorem firstCall_sound (P : OpenProgram W F R H) (fuel : Nat) (f : F) (w : W) :
    Returns (openCall P fuel f) ⟨.start H, w, []⟩ fun _ s' => SoundAt P.size (-1) s' := by
  have hempty : ∀ j, ((Thread.start H).stack j).Empty := fun _ => ⟨rfl, rfl, rfl, List.length_replicate⟩
  exact openCall_sound P fuel f (d := 0) ⟨rfl, fun j => (hempty j).sound P.size⟩

end Draining

/-- Handler `false` saves an object for handler `true`, which does nothing. -/
def latecomer : OpenProgram Unit Empty Unit Bool where
  size _ := 8
  size_lt _ := pointer_lt
  body := Empty.elim
  handler
    | false, _ => .act (.register (.staticDefer true ⟨encodeSize 5, length_encodeSize 5⟩)) <| .ret ()
    | true, _ => .ret ()

/-- The first frame is current and holds handler `false`: with an object, or
    with a pointer. -/
def oneHandler (static : Bool) : Traced Unit Bool where
  thread :=
    { errCode := none
      stack := fun _ =>
        if static then { Frame.zero Bool with statics := [(false, 0)], used := 8 }
        else { Frame.zero Bool with dyns := [(false, .null)] }
      curr := 0 }
  world := ()
  log := []

theorem oneHandler_sound (static : Bool) :
    ((oneHandler static).thread.stack bottomFrame).Sound latecomer.size := by
  cases static with
  | false => exact ⟨rfl, by decide, trivial⟩
  | true => exact ⟨rfl, by decide, by decide, trivial⟩

/-- With an object, both handlers are run and the frame is drained. -/
theorem early_static_drained :
    ∃ s', runDefers tracedThread (openHandler latecomer (openCall latecomer 0)) (oneHandler true) =
        .ok () s' ∧
      s'.log = [.ran bottomFrame false (.obj (List.replicate 8 (.byte 0))),
        .registered bottomFrame true (.obj (encodeSize 5)),
        .ran bottomFrame true (.obj (encodeSize 5))] ∧
      (s'.thread.stack bottomFrame).Drained := by
  obtain ⟨s₁, ms₁, ms₂, hfirst, hlog₁, hlog₂, hiff⟩ :=
    run_defers_drains_iff latecomer 0 bottomFrame (oneHandler true) _ rfl (oneHandler_sound true) rfl
  -- both handlers are run by the first loop, so the second one adds nothing to the log
  cases hfirst
  have hnothing : ms₂ = [] := List.self_eq_append_right.mp hlog₂
  subst hnothing
  refine ⟨_, rfl, rfl, (hiff.mpr ?_).2⟩
  rintro ⟨g, cells, hmem⟩
  cases hmem

/-- **With a pointer, the object is saved too late**: its handler is not run,
    and stays in the frame. -/
theorem late_static_stays :
    ∃ s', runDefers tracedThread (openHandler latecomer (openCall latecomer 0)) (oneHandler false) =
        .ok () s' ∧
      s'.log = [.ran bottomFrame false (.ptr .null),
        .registered bottomFrame true (.obj (encodeSize 5))] ∧
      (s'.thread.stack bottomFrame).statics = [(true, 0)] ∧
      (s'.thread.stack bottomFrame).used = 8 :=
  ⟨_, rfl, rfl, rfl, rfl⟩

end Prom.Errm
