/-
  Prom.Errm.Alignment — where the copies made by `static_defer` start.

  A handler takes the pointer it is given for a pointer to an object of its
  own type, so the copy has to start where such an object may start.  The pool
  is aligned for any object, but each copy starts right behind the one before
  it.

  Main results:
    * `staticDefers_placed` — a copy starts at the sum of the sizes saved
      before it.
    * `runDefers_hands` — and that is the pointer its handler is given.
    * `saved_aligned_iff` — every copy is aligned exactly when each alignment
      divides the sum of the sizes saved before.
-/
import Prom.Errm.Draining

namespace Prom.Errm

open Prom.C Exec

section Alignment

variable {H : Type}

/-! ## §1. Objects and where they are placed. -/

/-- An object and the alignment of its type. -/
structure Object where
  cells : List Cell
  align : Nat
  /-- No object is larger than `PTRDIFF_MAX`. -/
  size_lt : cells.length < 2 ^ 63
  align_pow : ∃ k, k ≤ 3 ∧ align = 2 ^ k
  align_dvd : align ∣ cells.length

/-- `sizeof`. -/
def Object.size (o : Object) : Size := BitVec.ofNat 64 o.cells.length

theorem Object.size_toNat (o : Object) : o.size.toNat = o.cells.length := by
  have := o.size_lt
  rw [Object.size, BitVec.toNat_ofNat]
  omega

/-- What is aligned for the largest alignment is aligned for any. -/
theorem Object.align_dvd_eight (o : Object) : o.align ∣ 8 := by
  obtain ⟨k, hk, halign⟩ := o.align_pow
  rw [halign]
  exact Nat.pow_dvd_pow 2 hk

/-- Calls of `static_defer`, one after the other. -/
def staticDefers : List (H × Object) → Exec (Thread H) Unit
  | [] => pure ()
  | (h, o) :: rest => do
    staticDefer h o.size o.cells
    staticDefers rest

/-- Objects placed one behind the other, from `off` on. -/
def placed : (off : Nat) → List (H × Object) → List (H × Nat)
  | _, [] => []
  | off, (h, o) :: rest => (h, off) :: placed (off + o.cells.length) rest

/-- What `static_defer` keeps of the current frame. -/
structure Current (i : Fin STACK_SIZE) (t : Thread H) : Prop where
  curr : t.curr = (i.val : Int)
  used : (t.stack i).used.toNat ≤ POOL_SIZE
  pool : (t.stack i).pool.length = POOL_SIZE
  statics : (t.stack i).statics.length ≤ MAX_STATIC_DEFERS
  dyns : (t.stack i).dyns = []

theorem Current.start {i : Fin STACK_SIZE} {t : Thread H} (hcurr : t.curr = (i.val : Int))
    (hempty : (t.stack i).Empty) : Current i t := by
  obtain ⟨hstatics, hdyns, hused, hpool⟩ := hempty
  refine ⟨hcurr, ?_, hpool, ?_, hdyns⟩
  · rw [hused]
    exact Nat.zero_le _
  · rw [hstatics]
    exact Nat.zero_le _

/-- **One copy** starts at the end of the used part, which grows by its
    size. -/
theorem staticDefer_places {t t' : Thread H} {i : Fin STACK_SIZE} (ht : Current i t) {h : H}
    (o : Object) {u : Unit} (hrun : staticDefer h o.size o.cells t = .ok u t') :
    Current i t' ∧ (t'.stack i).used.toNat = (t.stack i).used.toNat + o.cells.length ∧
      (t'.stack i).statics = (h, (t.stack i).used.toNat) :: (t.stack i).statics := by
  have hsize := o.size_toNat
  have hroom : (t.stack i).statics.length < MAX_STATIC_DEFERS := by
    by_contra hfull
    rw [staticDefer_full ht.curr (Nat.le_of_not_lt hfull)] at hrun
    cases hrun
  obtain ⟨hfit, rfl⟩ := staticDefer_inv ht.curr (hsize ▸ o.size_lt) hsize.symm ht.used ht.pool hrun
  have hadd := used_add hfit
  have hin : (t.stack i).used.toNat + o.cells.length ≤ (t.stack i).pool.length := by
    rw [ht.pool, ← hsize]
    exact hfit
  refine ⟨⟨ht.curr, ?_, ?_, ?_, ?_⟩, ?_, ?_⟩
  · rw [setFrame_same]
    exact hadd ▸ hfit
  · rw [setFrame_same]
    exact (length_splice hin).trans ht.pool
  · rw [setFrame_same]
    exact hroom
  · rw [setFrame_same]
    exact ht.dyns
  · rw [setFrame_same, ← hsize]
    exact hadd
  · rw [setFrame_same]

/-- **Each copy starts where the one before it ends.** -/
theorem staticDefers_placed {i : Fin STACK_SIZE} (calls : List (H × Object)) {t t' : Thread H}
    (ht : Current i t) (hrun : staticDefers calls t = .ok () t') :
    Current i t' ∧ (t'.stack i).statics =
      (placed (t.stack i).used.toNat calls).reverse ++ (t.stack i).statics := by
  induction calls generalizing t with
  | nil =>
    cases hrun
    exact ⟨ht, rfl⟩
  | cons call rest ih =>
    obtain ⟨h, o⟩ := call
    obtain ⟨u, t₁, hfirst, hrest⟩ := ok_of_bind hrun
    obtain ⟨ht₁, hused, hstatics⟩ := staticDefer_places ht o hfirst
    obtain ⟨ht', hstatics'⟩ := ih ht₁ hrest
    refine ⟨ht', ?_⟩
    rw [hstatics', hstatics, hused, placed, List.reverse_cons, List.append_assoc,
      List.singleton_append]

/-! ## §2. What the handlers are given. -/

/-- A thread, and the pointers its handlers have been given. -/
structure Handing (H : Type) where
  thread : Thread H
  given : List (H × Arg)

def handingThread : Lens (Handing H) (Thread H) where
  get := Handing.thread
  set s t := { s with thread := t }
  get_set _ _ := rfl
  set_get _ := rfl
  set_set _ _ _ := rfl

/-- A handler is given its pointer. -/
def handOver (h : H) (arg : Arg) : Exec (Handing H) Unit := modify fun s =>
  { s with given := s.given ++ [(h, arg)] }

/-- The pointer to a copy in the pool of frame `i`. -/
def copyAt (i : Fin STACK_SIZE) (e : H × Nat) : H × Arg := (e.1, .pool i e.2)

/-- The first loop runs every static handler, and none is dynamic. -/
theorem staticLoop_hands {t : Thread H} {i : Fin STACK_SIZE} (ht : Current i t) :
    Yields (loop maxPasses (staticPass handingThread handOver i) ()) ⟨t, []⟩ fun _ s =>
      (s.thread.stack i).dyns = [] ∧ s.given = (t.stack i).statics.map (copyAt i) := by
  have hfuel : (t.stack i).statics.length < maxPasses := Nat.lt_of_le_of_lt ht.statics (by decide)
  refine Yields.over
    (I := fun done rest _ s => (s.thread.stack i).statics = rest ∧ (s.thread.stack i).dyns = [] ∧
      s.given = done.map (copyAt i)) ?_ ?_ hfuel ⟨rfl, ht.dyns, rfl⟩
  · rintro done ⟨h, off⟩ rest a s - ⟨hstatics, hnone, hgiven⟩
    have hpop := popStatic_cons (t := handingThread.get s) hstatics
    refine Yields.step (zoom_ok hpop) (Yields.step (modify_apply _ _) (.pure ⟨?_, ?_, ?_⟩))
    · exact congrArg Frame.statics (setFrame_same s.thread i _)
    · exact (congrArg Frame.dyns (setFrame_same s.thread i _)).trans hnone
    · rw [List.map_append]
      exact congrArg (· ++ _) hgiven
  · rintro a s ⟨hstatics, hnone, hgiven⟩
    have hpop := popStatic_nil (t := handingThread.get s) hstatics
    exact Yields.step (zoom_ok hpop) (.pure ⟨(), rfl, hnone, hgiven⟩)

/-- **Each handler is given the pointer to its copy**, the last one first. -/
theorem runDefers_hands {t : Thread H} {i : Fin STACK_SIZE} (ht : Current i t) :
    ∃ s', runDefers handingThread handOver ⟨t, []⟩ = .ok () s' ∧
      s'.given = (t.stack i).statics.map (copyAt i) := by
  obtain ⟨_, s₁, hfirst, hnone, hgiven⟩ := staticLoop_hands ht
  -- there is nothing for the second loop to do
  have hdyn : ∀ s : Handing H, (s.thread.stack i).dyns = [] →
      loop maxPasses (dynPass handingThread handOver i) () s = .ok () s := by
    intro s hs
    refine loop_zero maxPasses_pos ?_
    exact bind_ok (zoom_ok (popDyn_nil (t := handingThread.get s) hs)) _
  refine ⟨handingThread.set s₁ (s₁.thread.setFrame i { s₁.thread.stack i with used := 0 }), ?_, hgiven⟩
  rw [runDefers, bind_ok (zoom_ok (currStackframe_eq (t := handingThread.get ⟨t, []⟩) ht.curr)),
    handingThread.set_get, bind_ok hfirst, bind_ok (zoom_ok (modify_apply _ _))]
  apply hdyn
  exact (congrArg Frame.dyns (setFrame_same s₁.thread i _)).trans hnone

/-! ## §3. Alignment. -/

/-- The handler of a call is given its copy at an address where an object of
    its type may start; the pool starts at address `base`. -/
def Aligned (base : Nat) (i : Fin STACK_SIZE) (call : H × Object) (given : H × Arg) : Prop :=
  ∃ off, given = (call.1, .pool i off) ∧ call.2.align ∣ base + off

theorem placed_aligned {base : Nat} (hbase : 8 ∣ base) (i : Fin STACK_SIZE)
    (calls : List (H × Object)) (off : Nat) :
    List.Forall₂ (Aligned base i) calls ((placed off calls).map (copyAt i)) ↔
      ∀ front h o back, calls = front ++ (h, o) :: back →
        o.align ∣ off + (front.map fun c => c.2.cells.length).sum := by
  induction calls generalizing off with
  | nil =>
    refine ⟨fun _ front h o back heq => ?_, fun _ => .nil⟩
    cases List.append_eq_nil_iff.mp heq.symm |>.2
  | cons call rest ih =>
    obtain ⟨h, o⟩ := call
    have hfirst : Aligned base i (h, o) (h, .pool i off) ↔ o.align ∣ off := by
      have hzero := Nat.dvd_trans o.align_dvd_eight hbase
      constructor
      · rintro ⟨off', heq, hdvd⟩
        cases heq
        exact (Nat.dvd_add_right hzero).mp hdvd
      · intro hdvd
        exact ⟨off, rfl, (Nat.dvd_add_right hzero).mpr hdvd⟩
    rw [placed, List.map_cons, copyAt, List.forall₂_cons, hfirst, ih]
    constructor
    · rintro ⟨hhead, htail⟩ front h' o' back heq
      cases front with
      | nil =>
        cases heq
        exact hhead
      | cons c front =>
        rw [List.cons_append, List.cons.injEq] at heq
        obtain ⟨rfl, heq⟩ := heq
        have := htail front h' o' back heq
        rwa [List.map_cons, List.sum_cons, ← Nat.add_assoc]
    · intro hall
      refine ⟨hall [] h o rest rfl, fun front h' o' back heq => ?_⟩
      have := hall ((h, o) :: front) h' o' back (by rw [heq]; rfl)
      rwa [List.map_cons, List.sum_cons, ← Nat.add_assoc] at this

/-- **When saved objects are aligned.**  Take a pool that starts at a multiple
    of 8, a frame that was empty when it was entered, and any calls of
    `static_defer` in it that do not abort, with objects of any types.  Every
    handler is given a pointer at which an object of its type may start, if
    and only if the alignment of each object divides the sum of the sizes of
    the objects saved before it. -/
theorem saved_aligned_iff (base : Nat) (hbase : 8 ∣ base) (i : Fin STACK_SIZE) (t t' : Thread H)
    (hcurr : t.curr = (i.val : Int)) (hempty : (t.stack i).Empty) (calls : List (H × Object))
    (hrun : staticDefers calls t = .ok () t') :
    ∃ s', runDefers handingThread handOver ⟨t', []⟩ = .ok () s' ∧
      (List.Forall₂ (Aligned base i) calls s'.given.reverse ↔
        ∀ front h o back, calls = front ++ (h, o) :: back →
          o.align ∣ (front.map fun c => c.2.cells.length).sum) := by
  obtain ⟨ht', hstatics⟩ := staticDefers_placed calls (.start hcurr hempty) hrun
  obtain ⟨s', hdefers, hgiven⟩ := runDefers_hands ht'
  refine ⟨s', hdefers, ?_⟩
  have hplaced := placed_aligned hbase i calls 0
  simp only [Nat.zero_add] at hplaced
  rw [hgiven, hstatics, hempty.1, hempty.2.2.1, List.append_nil, List.map_reverse, List.reverse_reverse]
  exact hplaced

end Alignment

theorem length_byte_lt : [Cell.byte 1].length < 2 ^ 63 := by decide

theorem length_size_lt : (encodeSize 5).length < 2 ^ 63 := by
  rw [length_encodeSize]
  decide

theorem eight_dvd_length : 8 ∣ (encodeSize 5).length := ⟨1, length_encodeSize 5⟩

/-- A `char`. -/
def aByte : Object := ⟨[.byte 1], 1, length_byte_lt, ⟨0, Nat.zero_le 3, rfl⟩, Nat.one_dvd _⟩

/-- A `size_t`. -/
def aSize : Object := ⟨encodeSize 5, 8, length_size_lt, ⟨3, Nat.le_refl 3, rfl⟩, eight_dvd_length⟩

/-- A thread in its first frame. -/
def inFrame : Thread Bool := { Thread.start Bool with curr := 0 }

/-- Save objects in the first frame and run their handlers. -/
theorem saves_run (calls : List (Bool × Object)) (given : List (Bool × Arg))
    (h : check (staticDefers calls) inFrame (fun _ t' =>
      check (runDefers handingThread handOver) ⟨t', []⟩ fun _ s' => s'.given = given) = true) :
    ∃ t' s', staticDefers calls inFrame = .ok () t' ∧
      runDefers handingThread handOver ⟨t', []⟩ = .ok () s' ∧ s'.given = given := by
  obtain ⟨_, t', hsaves, htest⟩ := Yields.of_check h
  obtain ⟨_, s', hdefers, hgiven⟩ := Yields.of_check htest
  exact ⟨t', s', hsaves, hdefers, of_decide_eq_true hgiven⟩

/-- A `char` behind a `size_t` is aligned. -/
theorem byte_last_aligned :
    ∃ t' s', staticDefers [(true, aSize), (false, aByte)] inFrame = .ok () t' ∧
      runDefers handingThread handOver ⟨t', []⟩ = .ok () s' ∧
      List.Forall₂ (Aligned 64 bottomFrame) [(true, aSize), (false, aByte)] s'.given.reverse := by
  obtain ⟨t', _, hsaves, -⟩ := saves_run [(true, aSize), (false, aByte)]
    [(false, .pool bottomFrame 8), (true, .pool bottomFrame 0)] (by decide +kernel)
  obtain ⟨s', hdefers, hiff⟩ := saved_aligned_iff 64 ⟨8, rfl⟩ bottomFrame inFrame t' rfl
    ⟨rfl, rfl, rfl, rfl⟩ [(true, aSize), (false, aByte)] hsaves
  refine ⟨t', s', hsaves, hdefers, hiff.mpr ?_⟩
  intro front h o back heq
  rcases front with _ | ⟨c, _ | ⟨c', front⟩⟩
  · exact Nat.dvd_zero _
  · cases heq
    exact Nat.one_dvd _
  · cases front <;> cases heq

/-- **A `size_t` behind a `char`** is copied to an odd address. -/
theorem byte_first_misaligned :
    ∃ t' s', staticDefers [(false, aByte), (true, aSize)] inFrame = .ok () t' ∧
      runDefers handingThread handOver ⟨t', []⟩ = .ok () s' ∧
      s'.given = [(true, .pool bottomFrame 1), (false, .pool bottomFrame 0)] ∧
      ¬List.Forall₂ (Aligned 64 bottomFrame) [(false, aByte), (true, aSize)] s'.given.reverse := by
  obtain ⟨t', s', hsaves, hdefers, hgiven⟩ := saves_run [(false, aByte), (true, aSize)]
    [(true, .pool bottomFrame 1), (false, .pool bottomFrame 0)] (by decide +kernel)
  refine ⟨t', s', hsaves, hdefers, hgiven, ?_⟩
  rw [hgiven]
  intro h
  obtain ⟨-, hsize, -⟩ := List.forall₂_cons.mp h |>.imp_right List.forall₂_cons.mp
  obtain ⟨off, heq, hdvd⟩ := hsize
  cases heq
  exact absurd hdvd (by decide)

end Prom.Errm
