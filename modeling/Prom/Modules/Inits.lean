/-
  Prom.Modules.Inits — what a module's `init` may do.

  An `init` is code of its own: it may call the functions of prom, change the
  files, leave an error code, and not return.  An `Init` is such code together
  with its `effect` on the `Scene`, which is everything it can tell apart but
  the contents of memory.

  What prom relies on is said by `Left`: an `init` that returns has freed and
  overwritten nothing that it has not allocated, and has left the frames of its
  callers as they were, but for the handlers it has put off in the frame in use.
  These are about blocks of its own.

  Main results:
    * `Puts.trans` — what is left by one piece of work after another.
    * `Init.plain`, `Init.links`, `Init.removes`, `Init.defers`, `Init.andThen` —
      `init` functions that set an error code, call `add_module`, `rm_module` or
      `defer`, or do one thing after the other.
-/
import Prom.Modules.Deferrals
import Prom.Modules.Loading

namespace Prom.Modules

open Prom.C Exec Heap Dga Errm Posix

variable {P : System} {w w₁ w' w'' : World} {c : Nat} {qs ps qs' ps' : List Deferral}

/-! ## §1. What an `init` finds. -/

/-- How full a frame is. -/
structure Fill where
  statics : Nat
  used : Nat
  dyns : Nat

def frameFill (fr : Frame Handler) : Fill := ⟨fr.statics.length, fr.used.toNat, fr.dyns.length⟩

/-- The state without the contents of memory. -/
structure Scene where
  os : Os
  /-- What modules remember from one `init` to the next. -/
  inits : Nat
  code : Option ErrorCode
  /-- `defer_stack.curr`. -/
  curr : Int
  /-- The frame in use, if there is one. -/
  frame : Option Fill

def World.scene (w : World) : Scene :=
  ⟨w.os, w.inits, w.thread.errCode, w.thread.curr,
    w.thread.currFrame?.map fun j => frameFill (w.thread.stack j)⟩

theorem currFrame?_curr {t : Thread Handler} {j : Fin STACK_SIZE} (h : t.currFrame? = some j) :
    t.curr = (j.val : Int) := by
  rw [Thread.currFrame?] at h
  split at h
  · rename_i n hn
    split at h
    · cases h
      exact hn
    · cases h
  · cases h

/-- Frame `j` holds these entries more. -/
structure Added (j : Fin STACK_SIZE) (w w' : World) (qs ps : List Deferral) : Prop where
  statics : staticEntries j (w'.thread.stack j) =
    qs.map Deferral.entry ++ staticEntries j (w.thread.stack j)
  dyns : dynEntries (w'.thread.stack j) = ps.map Deferral.entry ++ dynEntries (w.thread.stack j)
  few : (w.thread.stack j).statics.length ≤ MAX_STATIC_DEFERS ∧
      (w.thread.stack j).dyns.length ≤ MAX_DYN_DEFERS →
    (w'.thread.stack j).statics.length ≤ MAX_STATIC_DEFERS ∧
      (w'.thread.stack j).dyns.length ≤ MAX_DYN_DEFERS
  pool : (w'.thread.stack j).pool.take (w.thread.stack j).used.toNat =
    (w.thread.stack j).pool.take (w.thread.stack j).used.toNat
  size : (w'.thread.stack j).pool.length = (w.thread.stack j).pool.length
  used : (w.thread.stack j).used.toNat ≤ (w'.thread.stack j).used.toNat
  works : ∀ e ∈ qs ++ ps, e.Works j (w'.thread.stack j).used.toNat w'
  fresh : ∀ e ∈ qs ++ ps, ∀ b, e.own b → w.heap.blocks.length ≤ b ∧ b < w'.heap.blocks.length
  apart : Apart (qs ++ ps)

/-- The frames are as before, but for these entries of the one in use. -/
structure Puts (w w' : World) (qs ps : List Deferral) : Prop where
  curr : w'.thread.curr = w.thread.curr
  below : ∀ j, (j.val : Int) < w.thread.curr → w'.thread.stack j = w.thread.stack j
  above : ∀ j, w.thread.curr < (j.val : Int) → (w'.thread.stack j).Empty
  added : ∀ j, w.thread.curr = (j.val : Int) → Added j w w' qs ps
  length : w.heap.blocks.length ≤ w'.heap.blocks.length

/-- Nothing is put off. -/
theorem Puts.none (hrest : Rests c w.thread w.thread) (h : Rests c w.thread w'.thread)
    (hlen : w.heap.blocks.length ≤ w'.heap.blocks.length) : Puts w w' [] [] := by
  have hcurr := h.1.trans hrest.1.symm
  refine ⟨hcurr, fun j hj => h.2.1 j ?_, fun j hj => h.2.2 j ?_, fun j hj => ?_, hlen⟩
  · have := hrest.1
    omega
  · have := hrest.1
    omega
  · have hsame : w'.thread.stack j = w.thread.stack j := h.2.1 j (by have := hrest.1; omega)
    exact ⟨by rw [hsame]; rfl, by rw [hsame]; rfl, by rw [hsame]; exact id, by rw [hsame], by rw [hsame],
      by rw [hsame], fun e he => absurd he List.not_mem_nil, fun e he => absurd he List.not_mem_nil,
      List.Pairwise.nil⟩

theorem Puts.rests (h : Puts w w' qs ps) (hrest : Rests c w.thread w.thread) :
    Rests c w'.thread w'.thread := by
  refine ⟨h.curr.trans hrest.1, fun _ _ => rfl, fun j hj => h.above j ?_⟩
  have := hrest.1
  omega

/-- The entries of both, the later first; no order is asked of their blocks. -/
theorem mem_both {e : Deferral} (he : e ∈ (qs' ++ qs) ++ (ps' ++ ps)) : e ∈ qs' ++ ps' ∨ e ∈ qs ++ ps := by
  simp only [List.mem_append] at he ⊢
  tauto

/-- **One piece of work after another.** -/
theorem Puts.trans (h : Puts w w' qs ps) (h' : Puts w' w'' qs' ps')
    (hkept : ∀ e ∈ qs ++ ps, ∀ b, e.own b → ∀ cells, w'.heap.At b cells → w''.heap.At b cells) :
    Puts w w'' (qs' ++ qs) (ps' ++ ps) := by
  refine ⟨h'.curr.trans h.curr, fun j hj => ?_, fun j hj => h'.above j (h.curr ▸ hj), fun j hj => ?_,
    Nat.le_trans h.length h'.length⟩
  · exact (h'.below j (h.curr ▸ hj)).trans (h.below j hj)
  · obtain ⟨hq, hp, hfew, hpool, hsize, hused, hworks, hfresh, hapart⟩ := h.added j hj
    obtain ⟨hq', hp', hfew', hpool', hsize', hused', hworks', hfresh', hapart'⟩ :=
      h'.added j (h.curr.trans hj)
    refine ⟨?_, ?_, fun hf => hfew' (hfew hf), ?_, hsize'.trans hsize, Nat.le_trans hused hused', ?_, ?_, ?_⟩
    · rw [hq', hq, List.map_append, List.append_assoc]
    · rw [hp', hp, List.map_append, List.append_assoc]
    · -- what is in use at first is in use all the time
      have htake := congrArg (List.take (w.thread.stack j).used.toNat) hpool'
      rw [List.take_take, List.take_take, Nat.min_eq_left hused] at htake
      exact htake.trans hpool
    · intro e he
      rcases mem_both he with he | he
      · exact hworks' e he
      · exact ((hworks e he).later ⟨hkept e he, hpool'⟩).grow hused'
    · intro e he b hb
      rcases mem_both he with he | he
      · exact ⟨Nat.le_trans h.length (hfresh' e he b hb).1, (hfresh' e he b hb).2⟩
      · exact ⟨(hfresh e he b hb).1, Nat.lt_of_lt_of_le (hfresh e he b hb).2 h'.length⟩
    · -- what is put off later is about later blocks
      have hperm : ((qs' ++ ps') ++ (qs ++ ps)).Perm ((qs' ++ qs) ++ (ps' ++ ps)) := by
        rw [List.append_assoc, List.append_assoc]
        refine List.Perm.append_left qs' ?_
        rw [← List.append_assoc, ← List.append_assoc]
        exact List.Perm.append_right ps List.perm_append_comm
      refine hperm.pairwise (List.pairwise_append.mpr ⟨hapart', hapart, ?_⟩) fun hxy b hb hb' => hxy b hb' hb
      intro e he e' he' b hb hb'
      have := (hfresh' e he b hb).1
      have := (hfresh e' he' b hb').2
      omega

/-- What an `init` leaves that was run in `w`. -/
structure Left (w : World) (s : Scene) (cbs : List Cell) (w' : World) : Prop where
  cbs : cbs.length = 32
  scene : w'.scene = s
  heap : Leaves (fun _ => True) w.heap w'.heap
  frames : ∃ qs ps, Puts w w' qs ps

/-- Work that puts nothing off, done before. -/
theorem Left.after {s : Scene} {cbs : List Cell} (hl : Left w₁ s cbs w') (hputs : Puts w w₁ [] [])
    (hleaves : Leaves (fun _ => False) w.heap w₁.heap) : Left w s cbs w' := by
  obtain ⟨qs, ps, hputs'⟩ := hl.frames
  exact ⟨hl.cbs, hl.scene, (hleaves.trans hl.heap).weaken fun _ _ => trivial, _, _,
    hputs.trans hputs' fun e he => absurd he List.not_mem_nil⟩

/-- An `init` function: what it does, and the part of it that can be seen without
    looking at memory; without an effect it does not return. -/
structure Init where
  /-- The body; it returns the `struct module_cbs` it has filled in. -/
  run : Exec World (List Cell)
  effect : Scene → Option Scene
  stops : ∀ (c : Nat) (w : World), Rests c w.thread w.thread → w.heap.Generous →
    effect w.scene = none → ∃ e w', run w = .stop e w'
  returns : ∀ (c : Nat) (w : World) (s : Scene), Rests c w.thread w.thread → w.heap.Generous →
    effect w.scene = some s → Yields run w (Left w s)

/-! ## §3. Some `init` functions. -/

/-- An error code is left, which depends on the one that is found and on how
    often such an `init` has been run. -/
def Init.plain (m : ModInit) : Init where
  run := runInit m
  effect s := some { s with inits := s.inits + 1, code := m.leaves s.inits s.code }
  stops := by
    rintro c w - - ⟨⟩
  returns := by
    rintro c w s hrest - ⟨⟩
    exact Yields.of_eq rfl ⟨m.cbs_length, rfl, (Leaves.refl _).weaken fun _ h => h.elim,
      [], [], Puts.none hrest (hrest.setErr _) (Nat.le_refl _)⟩

/-- The system is called with the path of a module. -/
theorem callOnModPath_left {call : Option CStr → Exec Os Int} (hcall : ∀ path s, ∃ r s', call path s = .ok r s')
    (name D : CStr) (m : ModInit) (hrest : Rests c w.thread w.thread) (hgen : w.heap.Generous) :
    Yields (callOnModPath call name D >>= fun _ => pure m.cbs) w
      (Left w { w.scene with os := (call (some (D.append name)) w.os).state, code := none }) := by
  obtain ⟨r, s, hrun⟩ := hcall (some (D.append name)) w.os
  have hpath : modPathArg D name w.heap = some (D.append name) := if_pos hgen.grants
  obtain ⟨h, e, hdone, hleaves, -, hnone⟩ := callOnModPath_eq (w := w) call name D (by rw [hpath]; exact hrun)
  rw [hnone hgen.grants] at hdone
  refine Yields.step hdone (Yields.pure ⟨m.cbs_length, ?_, hleaves.weaken fun _ hf => hf.elim,
    [], [], Puts.none hrest (hrest.setErr _) hleaves.keeps.length⟩)
  rw [hrun]
  rfl

theorem attempt_returns (P : System) (k : Call) (f : Os → Except Errno Os) (s : Os) :
    ∃ r s', attempt P k f s = .ok r s' := by
  rcases attempt_cases P k f s with ⟨e, h, -⟩ | ⟨s', h, -⟩
  · exact ⟨_, _, h⟩
  · exact ⟨_, _, h⟩

/-- `add_module(path, name, D)` is called. -/
def Init.links (P : System) (path name D : CStr) (m : ModInit) : Init where
  run := do
    let _ ← addModule P path name D
    pure m.cbs
  effect s := some { s with os := (symlink P path (some (D.append name)) s.os).state, code := none }
  stops := by
    rintro c w - - ⟨⟩
  returns := by
    rintro c w s hrest hgen ⟨⟩
    exact callOnModPath_left (fun _ _ => attempt_returns P _ _ _) name D m hrest hgen

/-- `rm_module(name, D)` is called. -/
def Init.removes (P : System) (name D : CStr) (m : ModInit) : Init where
  run := do
    let _ ← rmModule P name D
    pure m.cbs
  effect s := some { s with os := (remove P (some (D.append name)) s.os).state, code := none }
  stops := by
    rintro c w - - ⟨⟩
  returns := by
    rintro c w s hrest hgen ⟨⟩
    exact callOnModPath_left (fun _ _ => attempt_returns P _ _ _) name D m hrest hgen

/-- The world in which a new block has been allocated and freeing it been put
    off. -/
def World.deferred (w : World) (j : Fin STACK_SIZE) (cells : List Cell) : World :=
  { w with
    heap := w.heap.alloc cells
    thread := w.thread.setFrame j { w.thread.stack j with
      dyns := (.free, ⟨.heap w.heap.blocks.length, 0⟩) :: (w.thread.stack j).dyns } }

theorem scene_frame {j : Fin STACK_SIZE} (hj : w.thread.currFrame? = some j) :
    w.scene.frame = some (frameFill (w.thread.stack j)) := by
  rw [World.scene, hj]
  rfl

theorem scene_frameless (hj : w.thread.currFrame? = none) : w.scene.frame = none := by
  rw [World.scene, hj]
  rfl

theorem scene_deferred {j : Fin STACK_SIZE} (hj : w.thread.currFrame? = some j) (cells : List Cell) :
    (w.deferred j cells).scene =
      { w.scene with
        frame := some { frameFill (w.thread.stack j) with dyns := (w.thread.stack j).dyns.length + 1 } } := by
  have hcurr : (w.deferred j cells).thread.currFrame? = some j := hj
  rw [World.scene, hcurr, Option.map_some, World.deferred, setFrame_same]
  rfl

theorem Puts.deferred {j : Fin STACK_SIZE} (hrest : Rests c w.thread w.thread)
    (hj : w.thread.currFrame? = some j) (hroom : (w.thread.stack j).dyns.length < MAX_DYN_DEFERS)
    (cells : List Cell) :
    Puts w (w.deferred j cells) []
      [⟨.free, .ptr ⟨.heap w.heap.blocks.length, 0⟩, fun b => b = w.heap.blocks.length⟩] := by
  have hcurr := currFrame?_curr hj
  have hother : ∀ x, x ≠ j → (w.deferred j cells).thread.stack x = w.thread.stack x :=
    fun x hx => setFrame_ne _ hx
  have hsame : (w.deferred j cells).thread.stack j = { w.thread.stack j with
      dyns := (.free, ⟨.heap w.heap.blocks.length, 0⟩) :: (w.thread.stack j).dyns } := setFrame_same _ _ _
  have hlen : (w.deferred j cells).heap.blocks.length = w.heap.blocks.length + 1 := length_alloc _ _
  refine ⟨rfl, fun x hx => hother x ?_, fun x hx => ?_, fun x hx => ?_, by omega⟩
  · rintro rfl
    omega
  · rw [hother x (by rintro rfl; omega)]
    exact hrest.2.2 x (by have := hrest.1; omega)
  · obtain rfl : x = j := Fin.ext (by omega)
    refine ⟨by rw [hsame]; rfl, by rw [hsame]; rfl, fun hf => ⟨by rw [hsame]; exact hf.1, ?_⟩, by rw [hsame],
      by rw [hsame], by rw [hsame], ?_, ?_, List.pairwise_singleton _ _⟩
    · rw [hsame]
      exact hroom
    · intro e he w₂ hintact
      rw [List.nil_append, List.mem_singleton] at he
      subst he
      -- the block is there until it is freed here
      have hat := hintact.blocks _ rfl cells (At_alloc_new w.heap cells)
      exact Yields.of_eq (onHeap_eq (free_eq hat)) ⟨rfl, (Spares.refl _ _).release rfl⟩
    · intro e he b hb
      rw [List.nil_append, List.mem_singleton] at he
      subst he
      replace hb : b = w.heap.blocks.length := hb
      omega

/-- A block of `n` bytes is allocated, and freeing it put off. -/
def Init.defers (n : Nat) (m : ModInit) : Init where
  run := do
    let p ← onHeap (malloc n)
    onThread (defer .free p)
    pure m.cbs
  effect s :=
    match s.frame with
    | none => none
    | some f =>
      if f.dyns < MAX_DYN_DEFERS then some { s with frame := some { f with dyns := f.dyns + 1 } } else none
  stops := by
    intro c w hrest hgen heffect
    have hmalloc := onHeap_eq (w := w) (malloc_eq hgen.grants n)
    cases hj : w.thread.currFrame? with
    | none =>
      have hdefer : defer .free ⟨.heap w.heap.blocks.length, 0⟩ w.thread = .stop .undefined w.thread :=
        bind_stop (by rw [currStackframe, hj]) _
      exact ⟨_, _, (bind_ok hmalloc _).trans (bind_stop (zoom_stop hdefer) _)⟩
    | some j =>
      simp only [scene_frame hj] at heffect
      split at heffect
      · cases heffect
      · rename_i hfull
        -- the frame is full
        have hdefer := defer_full (currFrame?_curr hj) (Nat.not_lt.mp hfull) Handler.free
          ⟨.heap w.heap.blocks.length, 0⟩
        exact ⟨_, _, (bind_ok hmalloc _).trans (bind_stop (zoom_stop hdefer) _)⟩
  returns := by
    intro c w s hrest hgen heffect
    cases hj : w.thread.currFrame? with
    | none =>
      simp only [scene_frameless hj] at heffect
      cases heffect
    | some j =>
      simp only [scene_frame hj] at heffect
      split at heffect
      · rename_i hroom
        cases heffect
        refine Yields.step (onHeap_eq (w := w) (malloc_eq hgen.grants n)) ?_
        refine Yields.step (onThread_eq (defer_eq (currFrame?_curr hj) hroom .free _)) ?_
        exact Yields.pure ⟨m.cbs_length, scene_deferred hj _,
          ((Leaves.refl _).alloc _).weaken fun _ _ => trivial, [], _, Puts.deferred hrest hj hroom (fresh n)⟩
      · cases heffect

/-- One thing after the other. -/
def Init.andThen (a b : Init) : Init where
  run := do
    let _ ← a.run
    b.run
  effect s := (a.effect s).bind b.effect
  stops := by
    intro c w hrest hgen heffect
    cases ha : a.effect w.scene with
    | none =>
      obtain ⟨e, w', hstop⟩ := a.stops c w hrest hgen ha
      exact ⟨e, w', bind_stop hstop _⟩
    | some s =>
      rw [ha] at heffect
      obtain ⟨cbs, w', hrun, hleft⟩ := a.returns c w s hrest hgen ha
      obtain ⟨qs, ps, hputs⟩ := hleft.frames
      obtain ⟨e, w'', hstop⟩ := b.stops c w' (hputs.rests hrest) (hleft.heap.keeps.generous hgen)
        (by rw [hleft.scene]; exact heffect)
      exact ⟨e, w'', (bind_ok hrun _).trans hstop⟩
  returns := by
    intro c w s hrest hgen heffect
    cases ha : a.effect w.scene with
    | none =>
      rw [ha] at heffect
      cases heffect
    | some s₁ =>
      rw [ha] at heffect
      refine Yields.bind (a.returns c w s₁ hrest hgen ha) fun _ w' hleft => ?_
      obtain ⟨qs, ps, hputs⟩ := hleft.frames
      refine (b.returns c w' s (hputs.rests hrest) (hleft.heap.keeps.generous hgen)
        (by rw [hleft.scene]; exact heffect)).mono ?_
      rintro cbs w'' hleft'
      obtain ⟨qs', ps', hputs'⟩ := hleft'.frames
      exact ⟨hleft'.cbs, hleft'.scene, (hleft.heap.trans hleft'.heap).weaken fun _ _ => trivial,
        _, _, hputs.trans hputs' fun _ _ b _ cells => hleft'.heap.keeps.at_ b cells⟩

end Prom.Modules
