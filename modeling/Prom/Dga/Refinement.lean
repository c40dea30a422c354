/-
  Prom.Dga.Refinement — dga arrays behave as lists.

  A program works on any number of arrays held in variables: it creates,
  resizes, grows, shrinks, copies and frees them and writes elements.  Its
  list model keeps for each variable the element size and the list of
  elements; a step of the model is partial, and undefined exactly where the
  program would leave the arrays' contract (a variable that holds no array, an
  index out of range, shrinking below nothing, a byte size or a length beyond
  `SIZE_MAX`).

  `Represents` relates a machine state to a model state: each array of the model
  lies in a block of its own, behind a header with its length and size.

  Main results:
    * `step_repr` — one step keeps `Represents`.
    * `run_repr` — a run keeps `Represents`.
    * `dga_refines_lists` — after any run of the model the machine shows the
      model's lists, and the next step leaves all other arrays alone.
-/
import Mathlib.Logic.Function.Basic
import Prom.Dga.Lists

namespace Prom.Dga

open Prom.C Exec Heap

/-! ## §1. Programs over arrays. -/

/-- A program variable. -/
abbrev Var := Nat

/-- An operation of a program. -/
inductive Cmd where
  /-- `x = dga_new(n, T)`, with `sizeof(T) = szt`. -/
  | new (x : Var) (n szt : Size)
  /-- `x[i] = v`. -/
  | write (x : Var) (i : Size) (v : List Cell)
  /-- `dga_resize_or(x, m)`. -/
  | resize (x : Var) (m : Size)
  /-- `dga_grow_or(x, n)`. -/
  | grow (x : Var) (n : Size)
  /-- `dga_shrink_or(x, n)`. -/
  | shrink (x : Var) (n : Size)
  /-- `y = dga_dup(x)`. -/
  | dup (y x : Var)
  /-- `dga_free(x)`. -/
  | free (x : Var)
  deriving Repr, DecidableEq

/-- The variable an operation changes. -/
def Cmd.target : Cmd → Var
  | new x _ _ => x
  | write x _ _ => x
  | resize x _ => x
  | grow x _ => x
  | shrink x _ => x
  | dup y _ => y
  | free x => x

/-- The memory and the variables of a program. -/
structure Machine where
  heap : Heap
  vars : Var → Option Ptr

/-- The heap of a machine. -/
def heapLens : Lens Machine Heap where
  get := Machine.heap
  set s h := { s with heap := h }
  get_set _ _ := rfl
  set_get _ := rfl
  set_set _ _ _ := rfl

/-- Read a variable; an unset one is indeterminate. -/
def var (x : Var) : Exec Machine Ptr := do
  match (← get).vars x with
  | some p => pure p
  | none => fail .undefined

/-- Set a variable. -/
def setVar (x : Var) (p : Option Ptr) : Exec Machine Unit :=
  modify fun s => { s with vars := Function.update s.vars x p }

/-- Set a variable to the answer of a resize, unless it is `NULL`. -/
def keep (x : Var) (tmp : Ptr) : Exec Machine Ptr := do
  if tmp ≠ .null then
    setVar x (some tmp)
  pure tmp

/-- Run one operation; its value is the pointer the library returned, or the
    one it was given. -/
def Cmd.exec : Cmd → Exec Machine Ptr
  | new x n szt => do
    let p ← zoom heapLens (dgaNew n szt)
    setVar x (some p)
    pure p
  | write x i v => do
    let p ← var x
    zoom heapLens (store (p.add (v.length * i.toNat)) v)
    pure p
  | resize x m => do
    let p ← var x
    keep x (← zoom heapLens (dgaResize p m))
  | grow x n => do
    let p ← var x
    keep x (← zoom heapLens (dgaGrow p n))
  | shrink x n => do
    let p ← var x
    keep x (← zoom heapLens (dgaShrink p n))
  | dup y x => do
    let p ← var x
    keep y (← zoom heapLens (dgaDup p))
  | free x => do
    let p ← var x
    zoom heapLens (dgaFree p)
    setVar x none
    pure p

/-- Run a program. -/
def run : List Cmd → Exec Machine Unit
  | [] => pure ()
  | c :: cs => do
    let _ ← c.exec
    run cs

/-! ## §2. The list model. -/

/-- The arrays of a program. -/
abbrev Store := Var → Option Arr

/-- Put what `f` makes of the array in `x` into `y`. -/
def Store.alter (s : Store) (x y : Var) (f : Arr → Option Arr) : Option Store :=
  ((s x).bind f).map fun a => Function.update s y (some a)

/-- One step of the model. -/
def specStep : Cmd → Store → Option Store
  | .new x n szt, s => (Arr.new? szt n.toNat).map fun a => Function.update s x (some a)
  | .write x i v, s => s.alter x x (Arr.write? · i.toNat v)
  | .resize x m, s => s.alter x x (Arr.resize? · m.toNat)
  | .grow x n, s => s.alter x x (Arr.grow? · n.toNat)
  | .shrink x n, s => s.alter x x (Arr.shrink? · n.toNat)
  | .dup y x, s => s.alter x y some
  | .free x, s => (s x).map fun _ => Function.update s x none

/-- A run of the model. -/
def specRun : List Cmd → Store → Option Store
  | [], s => some s
  | c :: cs, s => specStep c s >>= specRun cs

theorem Store.alter_eq_some {s s' : Store} {x y : Var} {f : Arr → Option Arr}
    (h : s.alter x y f = some s') :
    ∃ a a', s x = some a ∧ f a = some a' ∧ s' = Function.update s y (some a') := by
  obtain ⟨a', ha', rfl⟩ := Option.map_eq_some_iff.mp h
  obtain ⟨a, ha, hf⟩ := Option.bind_eq_some_iff.mp ha'
  exact ⟨a, a', ha, hf, rfl⟩

theorem Store.alter_other {s s' : Store} {x y z : Var} {f : Arr → Option Arr}
    (h : s.alter x y f = some s') (hz : z ≠ y) : s' z = s z := by
  obtain ⟨a, a', -, -, rfl⟩ := Store.alter_eq_some h
  exact Function.update_of_ne hz _ _

/-- A step of the model concerns its target only. -/
theorem specStep_other {c : Cmd} {s s' : Store} (h : specStep c s = some s') {y : Var}
    (hy : y ≠ c.target) : s' y = s y := by
  cases c with
  | new x n szt =>
    obtain ⟨a, -, rfl⟩ := Option.map_eq_some_iff.mp h
    exact Function.update_of_ne hy _ _
  | free x =>
    obtain ⟨a, -, rfl⟩ := Option.map_eq_some_iff.mp h
    exact Function.update_of_ne hy _ _
  | write x i v => exact Store.alter_other h hy
  | resize x m => exact Store.alter_other h hy
  | grow x n => exact Store.alter_other h hy
  | shrink x n => exact Store.alter_other h hy
  | dup z x => exact Store.alter_other h hy

/-! ## §3. Machine and model. -/

/-- No two variables hold the same array. -/
structure Apart (m : Machine) : Prop where
  live : ∀ x b, m.vars x = some (arrayPtr b) → b < m.heap.blocks.length
  inj : ∀ x y b, m.vars x = some (arrayPtr b) → m.vars y = some (arrayPtr b) → x = y

/-- **The machine represents the model**: each array of the model lies in a
    block of its own. -/
structure Represents (m : Machine) (s : Store) : Prop where
  apart : Apart m
  holds : ∀ x a, s x = some a → ∃ b, m.vars x = some (arrayPtr b) ∧ Holds m.heap b a

/-- A new block in a variable. -/
theorem Apart.assign {m : Machine} (ha : Apart m) (x : Var) {h' : Heap}
    (hlen : m.heap.blocks.length < h'.blocks.length) :
    Apart ⟨h', Function.update m.vars x (some (arrayPtr m.heap.blocks.length))⟩ := by
  -- the new block has a number no variable had before
  have hfresh : ∀ y, m.vars y ≠ some (arrayPtr m.heap.blocks.length) :=
    fun y hv => Nat.lt_irrefl _ (ha.live y _ hv)
  constructor
  · intro y b hv
    simp only at hv ⊢
    by_cases hy : y = x
    · subst hy
      rw [Function.update_self] at hv
      rwa [← arrayPtr_inj (Option.some.inj hv)]
    · rw [Function.update_of_ne hy] at hv
      exact Nat.lt_trans (ha.live y b hv) hlen
  · intro y z b hv₁ hv₂
    simp only at hv₁ hv₂
    by_cases hy : y = x
    · by_cases hz : z = x
      · rw [hy, hz]
      · subst hy
        rw [Function.update_self] at hv₁
        rw [Function.update_of_ne hz] at hv₂
        exact absurd (hv₂.trans hv₁.symm) (hfresh z)
    · rw [Function.update_of_ne hy] at hv₁
      by_cases hz : z = x
      · subst hz
        rw [Function.update_self] at hv₂
        exact absurd (hv₁.trans hv₂.symm) (hfresh y)
      · rw [Function.update_of_ne hz] at hv₂
        exact ha.inj y z b hv₁ hv₂

/-- Nothing in a variable any more. -/
theorem Apart.clear {m : Machine} (ha : Apart m) (x : Var) {h' : Heap}
    (hlen : h'.blocks.length = m.heap.blocks.length) :
    Apart ⟨h', Function.update m.vars x none⟩ := by
  have hother : ∀ y b, Function.update m.vars x none y = some (arrayPtr b) →
      m.vars y = some (arrayPtr b) := by
    intro y b hv
    by_cases hy : y = x
    · subst hy
      rw [Function.update_self] at hv
      cases hv
    · rwa [Function.update_of_ne hy] at hv
  constructor
  · intro y b hv
    exact hlen ▸ ha.live y b (hother y b hv)
  · intro y z b hv₁ hv₂
    exact ha.inj y z b (hother y b hv₁) (hother z b hv₂)

/-- The same variables on a heap of the same size. -/
theorem Apart.same {m : Machine} (ha : Apart m) {h' : Heap}
    (hlen : h'.blocks.length = m.heap.blocks.length) : Apart ⟨h', m.vars⟩ :=
  ⟨fun x b hv => hlen ▸ ha.live x b hv, ha.inj⟩

/-- A heap that keeps every array but those in `x`'s hands, and a new block
    for the array `a` in `x`. -/
theorem Represents.install {m : Machine} {s : Store} (hr : Represents m s) {x : Var} {a : Arr} {h' : Heap}
    (hkeep : ∀ y a' b, y ≠ x → s y = some a' → m.vars y = some (arrayPtr b) →
      Holds m.heap b a' → Holds h' b a')
    (hnew : Holds h' m.heap.blocks.length a) :
    Represents ⟨h', Function.update m.vars x (some (arrayPtr m.heap.blocks.length))⟩
      (Function.update s x (some a)) := by
  refine ⟨hr.apart.assign x hnew.lt, ?_⟩
  intro y a' hs
  by_cases hy : y = x
  · subst hy
    rw [Function.update_self] at hs
    cases hs
    exact ⟨m.heap.blocks.length, Function.update_self _ _ _, hnew⟩
  · rw [Function.update_of_ne hy] at hs
    obtain ⟨b, hv, hb⟩ := hr.holds y a' hs
    exact ⟨b, (Function.update_of_ne hy _ _).trans hv, hkeep y a' b hy hs hv hb⟩

/-- The block in one variable is not that in another. -/
theorem Apart.block_ne {m : Machine} (ha : Apart m) {x y : Var} {b b' : Nat}
    (hvx : m.vars x = some (arrayPtr b)) (hvy : m.vars y = some (arrayPtr b')) (hne : y ≠ x) :
    b ≠ b' := by
  intro hb
  subst hb
  exact hne (ha.inj y x b hvy hvx)

/-! ## §4. One step. -/

/-- What a step of the machine owes to a step of the model. -/
def Step (c : Cmd) (m : Machine) (s' : Store) : Prop :=
  ∃ p m', c.exec m = .ok p m' ∧ Represents m' s' ∧ m'.heap.grants = m.heap.grants

theorem var_eq {m : Machine} {x : Var} {p : Ptr} (h : m.vars x = some p) : var x m = .ok p m := by
  show (match m.vars x with
    | some p => (Pure.pure p : Exec Machine Ptr)
    | none => fail .undefined) m = _
  rw [h]
  rfl

theorem keep_ne_null {m : Machine} {x : Var} {p : Ptr} (hp : p ≠ .null) :
    keep x p m = .ok p { m with vars := Function.update m.vars x (some p) } := by
  rw [keep, if_pos hp]
  rfl


theorem keep_repr {m : Machine} {s : Store} (hr : Represents m s) {x : Var} {a : Arr} {h' : Heap}
    (hkeep : ∀ y a' b, y ≠ x → s y = some a' → m.vars y = some (arrayPtr b) →
      Holds m.heap b a' → Holds h' b a')
    (hnew : Holds h' m.heap.blocks.length a) (hgrants : h'.grants = m.heap.grants) :
    ∃ p m', keep x (arrayPtr m.heap.blocks.length) ⟨h', m.vars⟩ = .ok p m' ∧
      Represents m' (Function.update s x (some a)) ∧ m'.heap.grants = m.heap.grants :=
  ⟨_, _, keep_ne_null (arrayPtr_ne_null _), hr.install hkeep hnew, hgrants⟩

/-- A resize of any kind: the old block goes, the new one holds the list the
    model expects. -/
theorem resize_step {m : Machine} {s s' : Store} (hr : Represents m s) {x : Var}
    {f : Arr → Option Arr} {op : Ptr → Exec Heap Ptr} (hs : s.alter x x f = some s')
    (hop : ∀ b a a', Holds m.heap b a → f a = some a' →
      ∃ cells, op (arrayPtr b) m.heap =
          .ok (arrayPtr m.heap.blocks.length) ((m.heap.release b).alloc cells) ∧
        Holds ((m.heap.release b).alloc cells) m.heap.blocks.length a') :
    ∃ p m', (do let p ← var x; keep x (← zoom heapLens (op p)) : Exec Machine Ptr) m = .ok p m' ∧
      Represents m' s' ∧ m'.heap.grants = m.heap.grants := by
  obtain ⟨a, a', hx, hf, rfl⟩ := Store.alter_eq_some hs
  obtain ⟨b, hv, hb⟩ := hr.holds x a hx
  obtain ⟨cells, hrun, hnew⟩ := hop b a a' hb hf
  rw [bind_ok (var_eq hv), bind_ok (zoom_ok hrun)]
  refine keep_repr hr ?_ hnew rfl
  -- the other arrays lie in other blocks than the one given up
  intro y a'' b' hne hy hvy hh
  exact (hh.release (hr.apart.block_ne hv hvy hne)).alloc cells

theorem write_step {m : Machine} {s s' : Store} (hr : Represents m s) {x : Var} {i : Size}
    {v : List Cell} (hs : specStep (.write x i v) s = some s') : Step (.write x i v) m s' := by
  obtain ⟨a, a', hx, hf, rfl⟩ := Store.alter_eq_some hs
  obtain ⟨b, hv, hb⟩ := hr.holds x a hx
  obtain ⟨cells, hrun, hnew⟩ := store_holds hb hf
  refine ⟨arrayPtr b, ⟨m.heap.put b cells, m.vars⟩, ?_, ?_, rfl⟩
  · rw [Cmd.exec, bind_ok (var_eq hv), bind_ok (zoom_ok hrun)]
    rfl
  · refine ⟨hr.apart.same (length_put m.heap b cells), ?_⟩
    intro y a'' hs
    by_cases hy : y = x
    · subst hy
      rw [Function.update_self] at hs
      cases hs
      exact ⟨b, hv, hnew⟩
    · rw [Function.update_of_ne hy] at hs
      obtain ⟨b', hvy, hh⟩ := hr.holds y a'' hs
      exact ⟨b', hvy, hh.put (hr.apart.block_ne hv hvy hy) cells⟩

theorem free_step {m : Machine} {s s' : Store} (hr : Represents m s) {x : Var}
    (hs : specStep (.free x) s = some s') : Step (.free x) m s' := by
  obtain ⟨a, hx, rfl⟩ := Option.map_eq_some_iff.mp hs
  obtain ⟨b, hv, hb⟩ := hr.holds x a hx
  refine ⟨arrayPtr b, ⟨m.heap.release b, Function.update m.vars x none⟩, ?_, ?_, rfl⟩
  · rw [Cmd.exec, bind_ok (var_eq hv), bind_ok (zoom_ok (dgaFree_holds hb))]
    rfl
  · refine ⟨hr.apart.clear x (length_release m.heap b), ?_⟩
    intro y a' hs
    by_cases hy : y = x
    · subst hy
      rw [Function.update_self] at hs
      cases hs
    · rw [Function.update_of_ne hy] at hs
      obtain ⟨b', hvy, hh⟩ := hr.holds y a' hs
      exact ⟨b', (Function.update_of_ne hy _ _).trans hvy, hh.release (hr.apart.block_ne hv hvy hy)⟩

/-- **One step keeps the representation**, as long as its request for memory
    is granted. -/
theorem step_repr {m : Machine} {s s' : Store} (hr : Represents m s) (hg : m.heap.Grants) {c : Cmd}
    (hs : specStep c s = some s') : Step c m s' := by
  cases c with
  | new x n szt =>
    obtain ⟨a, ha, rfl⟩ := Option.map_eq_some_iff.mp hs
    obtain ⟨cells, hrun, hnew⟩ := dgaNew_holds hg ha
    refine ⟨arrayPtr m.heap.blocks.length, _, ?_,
      hr.install (fun y a' b _ _ _ hh => hh.alloc cells) hnew, rfl⟩
    rw [Cmd.exec, bind_ok (zoom_ok hrun)]
    rfl
  | write x i v => exact write_step hr hs
  | resize x k => exact resize_step hr hs fun b a a' hh ha => dgaResize_holds hh hg ha
  | grow x n => exact resize_step hr hs fun b a a' hh ha => dgaGrow_holds hh hg ha
  | shrink x n => exact resize_step hr hs fun b a a' hh ha => dgaShrink_holds hh hg ha
  | dup y x =>
    obtain ⟨a, a', hx, ha, rfl⟩ := Store.alter_eq_some hs
    cases ha
    obtain ⟨b, hv, hb⟩ := hr.holds x a hx
    obtain ⟨cells, hrun, hnew⟩ := dgaDup_holds hb hg
    rw [Step, Cmd.exec, bind_ok (var_eq hv), bind_ok (zoom_ok hrun)]
    exact keep_repr hr (fun z a' b _ _ _ hh => hh.alloc cells) hnew rfl
  | free x => exact free_step hr hs

/-! ## §5. Runs. -/

/-- **A run keeps the representation.** -/
theorem run_repr {cs : List Cmd} {m : Machine} {s s' : Store} (hr : Represents m s)
    (hg : ∀ i, m.heap.grants i = true) (hs : specRun cs s = some s') :
    ∃ m', run cs m = .ok () m' ∧ Represents m' s' ∧ m'.heap.grants = m.heap.grants := by
  induction cs generalizing m s with
  | nil =>
    cases hs
    exact ⟨m, rfl, hr, rfl⟩
  | cons c cs ih =>
    obtain ⟨s₁, hc, hcs⟩ := Option.bind_eq_some_iff.mp hs
    obtain ⟨p, m₁, hrun, hr₁, hg₁⟩ := step_repr hr (hg _) hc
    obtain ⟨m', hrun', hr', hg'⟩ := ih hr₁ (fun i => by rw [hg₁]; exact hg i) hcs
    exact ⟨m', (bind_ok hrun _).trans hrun', hr', hg'.trans hg₁⟩

/-- Variable `x` shows the array `a`: through the pointer in `x` the program
    reads the array's length and each of its elements. -/
def Shows (m : Machine) (x : Var) (a : Arr) : Prop :=
  ∃ p, m.vars x = some p ∧
    (∃ len, dgaLen p m.heap = .ok len m.heap ∧ len.toNat = a.len) ∧
    ∀ i e, a.elems[i]? = some e →
      load (p.add (a.szt.toNat * i)) a.szt.toNat m.heap = .ok e m.heap

theorem Represents.shows {m : Machine} {s : Store} (hr : Represents m s) {x : Var} {a : Arr}
    (hx : s x = some a) : Shows m x a := by
  obtain ⟨b, hv, hb⟩ := hr.holds x a hx
  exact ⟨arrayPtr b, hv, ⟨_, dgaLen_holds hb, toNat_ofNat_len a⟩, fun i e hi => load_holds hb hi⟩

/-- A program before its first operation. -/
def Machine.start (h : Heap) : Machine := ⟨h, fun _ => none⟩

theorem Apart.start (h : Heap) : Apart (Machine.start h) := by
  constructor
  · intro x b hv
    cases hv
  · intro x y b hv
    cases hv

theorem Represents.start (h : Heap) : Represents (Machine.start h) fun _ => none := by
  refine ⟨Apart.start h, ?_⟩
  intro x a hs
  cases hs

/-- **dga arrays refine lists.**  With every request for memory granted, a
    program that the list model runs is run by the machine; each variable then
    shows its list, and the next operation shows the model's next lists and
    leaves every array but its target's as it was. -/
theorem dga_refines_lists (h : Heap) (hg : ∀ i, h.grants i = true) (cs : List Cmd) (s : Store)
    (hs : specRun cs (fun _ => none) = some s) :
    ∃ m, run cs (Machine.start h) = .ok () m ∧ (∀ x a, s x = some a → Shows m x a) ∧
      ∀ c s', specStep c s = some s' →
        ∃ p m', c.exec m = .ok p m' ∧ (∀ x a, s' x = some a → Shows m' x a) ∧
          ∀ x a, x ≠ c.target → s x = some a → Shows m' x a := by
  obtain ⟨m, hrun, hr, hgrants⟩ := run_repr (Represents.start h) hg hs
  refine ⟨m, hrun, fun x a hx => hr.shows hx, fun c s' hc => ?_⟩
  have hgm : m.heap.Grants := by
    show m.heap.grants m.heap.requests = true
    rw [hgrants]
    exact hg _
  obtain ⟨p, m', hstep, hr', -⟩ := step_repr hr hgm hc
  refine ⟨p, m', hstep, fun x a hx => hr'.shows hx, fun x a hne hx => ?_⟩
  exact hr'.shows ((specStep_other hc hne).trans hx)

/-- Two arrays of four-byte elements: one is made, written and copied, then
    the first grows and the copy shrinks. -/
def twoArrays : List Cmd :=
  [.new 0 2 4, .write 0 1 (encodeSize 7 |>.take 4), .dup 1 0, .grow 0 3, .shrink 1 1,
    .write 0 4 (encodeSize 9 |>.take 4)]

theorem twoArrays_refines :
    ∃ m a b, run twoArrays (Machine.start ⟨[], [], fun _ => true, 0⟩) = .ok () m ∧
      Shows m 0 a ∧ a.len = 5 ∧ Shows m 1 b ∧ b.len = 1 := by
  obtain ⟨s, hs, a, b, ha, hla, hb, hlb⟩ : ∃ s, specRun twoArrays (fun _ => none) = some s ∧
      ∃ a b, s 0 = some a ∧ a.len = 5 ∧ s 1 = some b ∧ b.len = 1 :=
    ⟨_, rfl, _, _, rfl, rfl, rfl, rfl⟩
  obtain ⟨m, hrun, hshows, -⟩ := dga_refines_lists ⟨[], [], fun _ => true, 0⟩ (fun _ => rfl)
    twoArrays s hs
  exact ⟨m, a, b, hrun, hshows 0 a ha, hla, hshows 1 b hb, hlb⟩

end Prom.Dga
