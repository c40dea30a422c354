/-
  Prom.C.Machine — machines that answer inputs, and what holds along their runs.

  A machine takes one input at a time and answers it with outputs.  Every fact
  about a run comes from a fact about one step; this file has the rules that
  lead from the one to the other, for any machine:

      invariant        one step keeps Inv        ⟹  every state reached has it
      Machine.history  one step keeps Inv of the outputs so far and the state
      lockstep         one step keeps R and agrees on the outputs
                       ⟹  two machines agree along the whole run
      refines          one step keeps R and answers what the request asks for
                       ⟹  the run does what the abstract machine's run does

  A rule may use a condition on the steps of the run (`Along`), which says how
  the environment behaves.
-/
import Mathlib.Data.List.Basic
import Mathlib.Data.List.Forall2
import Mathlib.Tactic.Common

namespace Prom.C

universe u v w

/-- A machine: an input leads to a state and is answered by outputs. -/
structure Machine (σ : Type u) (ι : Type v) (ω : Type w) where
  step : σ → ι → σ × List ω

namespace Machine

variable {σ τ : Type u} {ι : Type v} {ω ω' : Type w} (M : Machine σ ι ω)

/-! ## §1. Runs. -/

/-- The state a run leads to. -/
def after : σ → List ι → σ
  | s, [] => s
  | s, i :: is => after (M.step s i).1 is

/-- What a run outputs. -/
def out : σ → List ι → List ω
  | _, [] => []
  | s, i :: is => (M.step s i).2 ++ out (M.step s i).1 is

/-- `P` holds at every step of a run. -/
def Along (P : σ → ι → Prop) : σ → List ι → Prop
  | _, [] => True
  | s, i :: is => P s i ∧ Along P (M.step s i).1 is

@[simp] theorem after_nil (s : σ) : M.after s [] = s := rfl

@[simp] theorem after_cons (s : σ) (i : ι) (is : List ι) :
    M.after s (i :: is) = M.after (M.step s i).1 is := rfl

@[simp] theorem out_nil (s : σ) : M.out s [] = [] := rfl

@[simp] theorem out_cons (s : σ) (i : ι) (is : List ι) :
    M.out s (i :: is) = (M.step s i).2 ++ M.out (M.step s i).1 is := rfl

@[simp] theorem along_nil (P : σ → ι → Prop) (s : σ) : M.Along P s [] := trivial

@[simp] theorem along_cons (P : σ → ι → Prop) (s : σ) (i : ι) (is : List ι) :
    M.Along P s (i :: is) ↔ P s i ∧ M.Along P (M.step s i).1 is := Iff.rfl

theorem after_append (is js : List ι) :
    ∀ s : σ, M.after s (is ++ js) = M.after (M.after s is) js := by
  induction is with
  | nil => exact fun s => rfl
  | cons i is ih => exact fun s => ih (M.step s i).1

theorem along_append {P : σ → ι → Prop} (is js : List ι) :
    ∀ s : σ, M.Along P s (is ++ js) ↔ M.Along P s is ∧ M.Along P (M.after s is) js := by
  induction is with
  | nil => exact fun s => ⟨fun h => ⟨trivial, h⟩, And.right⟩
  | cons i is ih =>
    intro s
    rw [List.cons_append, along_cons, along_cons, after_cons, ih, and_assoc]

variable {M}

theorem along_of_forall {P : σ → ι → Prop} (h : ∀ s i, P s i) :
    ∀ {is : List ι} {s : σ}, M.Along P s is
  | [], _ => trivial
  | i :: _, s => ⟨h s i, along_of_forall h⟩

theorem Along.imp {P Q : σ → ι → Prop} (himp : ∀ s i, P s i → Q s i) :
    ∀ {is : List ι} {s : σ}, M.Along P s is → M.Along Q s is
  | [], _, _ => trivial
  | _ :: _, _, ⟨hp, hrest⟩ => ⟨himp _ _ hp, Along.imp himp hrest⟩

/-- A condition on the inputs alone. -/
theorem along_of_mem {P : ι → Prop} :
    ∀ {is : List ι} {s : σ}, (∀ i ∈ is, P i) → M.Along (fun _ i => P i) s is
  | [], _, _ => trivial
  | i :: _, _, h => ⟨h i List.mem_cons_self, along_of_mem fun j hj => h j (List.mem_cons_of_mem i hj)⟩

/-- An output of a run is one of a step: the run up to it, and what that step
put out before it. -/
theorem out_split {is : List ι} {o : ω} : ∀ {s : σ} {before rest : List ω},
    M.out s is = before ++ o :: rest →
      ∃ earlier i later said unsaid, is = earlier ++ i :: later ∧
        (M.step (M.after s earlier) i).2 = said ++ o :: unsaid ∧
        before = M.out s earlier ++ said := by
  induction is with
  | nil => exact fun h => absurd h.symm (List.append_ne_nil_of_right_ne_nil _ (List.cons_ne_nil _ _))
  | cons i is ih =>
    intro s before rest h
    rw [out_cons, List.append_eq_append_iff] at h
    rcases h with ⟨mid, hbefore, hlater⟩ | ⟨mid, hout, hrest⟩
    · -- the output comes after the first step
      obtain ⟨earlier, j, later, said, unsaid, his, hsaid, hmid⟩ := ih hlater
      exact ⟨i :: earlier, j, later, said, unsaid, by rw [his, List.cons_append], hsaid,
        by rw [hbefore, hmid, out_cons, List.append_assoc]⟩
    · cases mid with
      | nil =>
        -- it is the first output after the first step
        obtain ⟨earlier, j, later, said, unsaid, his, hsaid, hmid⟩ :=
          @ih _ [] rest hrest.symm
        refine ⟨i :: earlier, j, later, said, unsaid, by rw [his, List.cons_append], hsaid, ?_⟩
        rw [out_cons, List.append_assoc, ← hmid, hout, List.append_nil, List.append_nil]
      | cons o' mid =>
        rw [List.cons_append] at hrest
        obtain ⟨rfl, -⟩ := List.cons.inj hrest
        exact ⟨[], i, is, before, mid, rfl, hout, rfl⟩

/-! ## §2. Invariants. -/

section Rules

variable {P : σ → ι → Prop}

/-- **Invariants.**  What every step keeps holds at the end of every run. -/
theorem invariant {Inv : σ → Prop} (hstep : ∀ s i, Inv s → P s i → Inv (M.step s i).1) :
    ∀ {is : List ι} {s : σ}, Inv s → M.Along P s is → Inv (M.after s is)
  | [], _, hs, _ => hs
  | i :: _, s, hs, ⟨hp, hrest⟩ => by
    rw [after_cons]
    exact invariant hstep (hstep s i hs hp) hrest

/-- What an invariant kept by every input implies holds all along. -/
theorem along_of_invariant {Inv : σ → Prop} (hstep : ∀ s i, Inv s → Inv (M.step s i).1)
    (himp : ∀ s i, Inv s → P s i) : ∀ {is : List ι} {s : σ}, Inv s → M.Along P s is
  | [], _, _ => trivial
  | i :: _, s, hs => ⟨himp s i hs, along_of_invariant hstep himp (hstep s i hs)⟩

/-- **Histories.**  An invariant of the outputs so far and the state. -/
theorem history (Inv : List ω → σ → Prop)
    (hstep : ∀ past s i, Inv past s → P s i → Inv (past ++ (M.step s i).2) (M.step s i).1) :
    ∀ {is : List ι} {past : List ω} {s : σ}, Inv past s → M.Along P s is →
      Inv (past ++ M.out s is) (M.after s is)
  | [], past, _, hs, _ => by
    rw [out_nil, List.append_nil]
    exact hs
  | _ :: _, past, _, hs, ⟨hp, hrest⟩ => by
    rw [out_cons, ← List.append_assoc]
    exact history Inv hstep (hstep _ _ _ hs hp) hrest

end Rules

/-! ## §3. Two machines. -/

/-- **Lockstep.**  Two machines fed the same inputs: when one step keeps `R`
and the second answers what `view` shows of the first one's answer, then so it
is along the whole run. -/
theorem lockstep (view : ω → List ω') {N : Machine τ ι ω'} {P : τ → ι → Prop}
    {R : σ → τ → Prop} (hstep : ∀ s t i, R s t → P t i →
      R (M.step s i).1 (N.step t i).1 ∧ (M.step s i).2.flatMap view = (N.step t i).2) :
    ∀ {is : List ι} {s : σ} {t : τ}, R s t → N.Along P t is →
      R (M.after s is) (N.after t is) ∧ (M.out s is).flatMap view = N.out t is
  | [], _, _, hR, _ => ⟨hR, rfl⟩
  | i :: is, s, t, hR, ⟨hp, hrest⟩ => by
    obtain ⟨hnext, hout⟩ := hstep s t i hR hp
    obtain ⟨hend, houts⟩ := lockstep view hstep hnext hrest
    refine ⟨hend, ?_⟩
    rw [out_cons, out_cons, List.flatMap_append, hout, houts]

/-- Lockstep of two machines that put out the same. -/
theorem mirror {N : Machine τ ι ω} {P : τ → ι → Prop} {R : σ → τ → Prop}
    (hstep : ∀ s t i, R s t → P t i →
      R (M.step s i).1 (N.step t i).1 ∧ (M.step s i).2 = (N.step t i).2)
    {is : List ι} {s : σ} {t : τ} (hR : R s t) (hP : N.Along P t is) :
    R (M.after s is) (N.after t is) ∧ M.out s is = N.out t is := by
  have hrun := lockstep (fun o => [o]) (fun s t i hR hP => by
    rw [List.flatMap_singleton']
    exact hstep s t i hR hP) hR hP
  rwa [List.flatMap_singleton'] at hrun

/-- Lockstep with a machine that puts out a part of what the first one does. -/
theorem shadow (p : ω → Bool) {N : Machine τ ι ω} {P : τ → ι → Prop} {R : σ → τ → Prop}
    (hstep : ∀ s t i, R s t → P t i →
      R (M.step s i).1 (N.step t i).1 ∧ (M.step s i).2.filter p = (N.step t i).2)
    {is : List ι} {s : σ} {t : τ} (hR : R s t) (hP : N.Along P t is) :
    R (M.after s is) (N.after t is) ∧ (M.out s is).filter p = N.out t is := by
  have hview : ∀ l : List ω, l.filter p = l.flatMap fun o => if p o then [o] else [] := by
    intro l
    induction l with
    | nil => rfl
    | cons o l ih => rw [List.filter_cons, List.flatMap_cons, ih]; split <;> rfl
  rw [hview]
  exact lockstep _ (fun s t i hR hP => by rw [← hview]; exact hstep s t i hR hP) hR hP

/-- **Refinement.**  Each step of a machine answers its input as the abstract
machine answers the request that the input stands for, and `R` is kept; then so
does a whole run. -/
theorem refines {ι' : Type*} {N : Machine τ ι' ω'} {R : σ → τ → Prop} {In : ι → ι' → Prop}
    {Out : ω → ω' → Prop} (hstep : ∀ s t i j, R s t → In i j →
      R (M.step s i).1 (N.step t j).1 ∧ List.Forall₂ Out (M.step s i).2 (N.step t j).2)
    {is : List ι} {js : List ι'} (hin : List.Forall₂ In is js) :
    ∀ {s : σ} {t : τ}, R s t →
      R (M.after s is) (N.after t js) ∧ List.Forall₂ Out (M.out s is) (N.out t js) := by
  induction hin with
  | nil => exact fun hR => ⟨hR, .nil⟩
  | cons hij hrest ih =>
    intro s t hR
    obtain ⟨hnext, hout⟩ := hstep _ _ _ _ hR hij
    obtain ⟨hend, houts⟩ := ih hnext
    exact ⟨hend, List.rel_append hout houts⟩

end Machine

end Prom.C
