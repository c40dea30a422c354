/-
  Prom.Modules.Contents — the array `dir_content` returns, to the last block.

  The number of names is kept in two places, the array's header and `*len_ret`,
  and the array moves whenever a name is added.  `Contents` is what the caller
  has in hand at the end: how many names there are, where each of them is, and
  which blocks they take up.

  Main results:
    * `dirContent_exact` — the visible names in blocks of their own, and
      nothing left of them when the array is given back.
-/
import Prom.Modules.Store

namespace Prom.Modules

open Prom.C Exec Heap Dga Errm Posix

variable {P : System} {i : Fin STACK_SIZE} {w : World}

/-- The array is in block `b`, the `k`-th name in block `cs[k]`; the counts
    agree. -/
structure Contents (w : World) (names : List CStr) (b : Nat) (cs : List Nat) (r : Listing)
    (w' : World) : Prop where
  array : r.array = arrayPtr b
  len : ∃ n, r.len = some n ∧ dgaLen r.array w'.heap = .ok n w'.heap ∧ n.toNat = names.length
  length : cs.length = names.length
  elems : ∀ (k c : Nat) (s : CStr), cs[k]? = some c → names[k]? = some s →
    loadPtr (r.array.add (8 * k)) w'.heap = .ok (arrayPtr c) w'.heap ∧
      loadStr (arrayPtr c) w'.heap = .ok s w'.heap
  distinct : (b :: cs).Nodup
  live : ∀ c ∈ b :: cs, w.heap.blocks.length ≤ c ∧ ∃ cells, w'.heap.At c cells

theorem Owned.contents {spare : Nat → Prop} {w' : World} {b : Nat} {cs : List Nat}
    {names : List CStr} (ho : Owned spare w.heap w'.heap b cs names []) :
    Contents w names b cs ⟨arrayPtr b, some (BitVec.ofNat 64 names.length)⟩ w' := by
  refine ⟨rfl, ⟨_, rfl, ?_, ho.at_.toNat_length⟩, ho.at_.length, ?_, ho.at_.nodup, ?_⟩
  · have hlen := ho.at_.len
    rwa [List.length_nil, Nat.add_zero] at hlen
  · intro k c s hc hs
    exact ⟨ho.at_.elem hc, (ho.at_.names k c s hc hs).load⟩
  · intro c hc
    exact ⟨ho.later c hc, ho.at_.live hc⟩

/-- **The contents of a directory**: the entries that do not start with a dot,
    in the order of the stream.  Giving the array back frees its blocks, each
    once; then nothing is left of the call, unless `wordexp` found more words
    than it can count. -/
theorem dirContent_exact (hroom : i.val + 3 < STACK_SIZE) (hrest : Rests i.val w.thread w.thread)
    {path t : CStr} {rest : List CStr} {d : Nat}
    (hwords : P.wordexp w.os.fs w.os.cwd path = some (t :: rest))
    (hg : w.heap.grants (copyRequest w.heap (t :: rest).length) = true)
    (hopens : opens P w.os t = .ok d) (hgrants : GrantsListing P w (t :: rest).length d) :
    Yields (dirContent P path) w fun r w' =>
      ∃ b cs, Contents w (visible (P.order w.os.fs d)) b cs r w' ∧
        w'.thread.errCode = none ∧ w'.os = w.os.listed ∧ Rests i.val w.thread w'.thread ∧
        ∀ give ∈ [freeDirContent, freeModNames],
          give r.array w'.heap = .ok () (w'.heap.releaseAll (cs ++ [b])) ∧
            ((t :: rest).length < 2 ^ 64 →
              Leaves (fun _ => False) w.heap (w'.heap.releaseAll (cs ++ [b]))) := by
  refine (dirContent_returned hroom hrest hwords hg hopens hgrants).mono ?_
  intro r w' hr
  obtain ⟨b, cs, rfl, howned⟩ := hr.owned
  refine ⟨b, cs, howned.contents, hr.noError, hr.os, hr.thread, ?_⟩
  intro give hgive
  -- `free_mod_names` is `free_dir_content` by another name
  have hgive' : give = freeDirContent := by
    rcases List.mem_cons.mp hgive with heq | hgive
    · exact heq
    · exact List.mem_singleton.mp hgive
  subst hgive'
  obtain ⟨⟨hfree, -⟩, hleft⟩ := howned.frees
  exact ⟨hfree, fun hfew => hleft.weaken fun _ hmany => absurd hmany (Nat.not_le.mpr hfew)⟩

/-- The contents of the root: `m`. -/
theorem root_contents : ∃ r w' b cs, dirContent bareSystem slashStr (World.start emptyModules 0) = .ok r w' ∧
    Contents (World.start emptyModules 0) [⟨ascii "m", by decide⟩] b cs r w' := by
  obtain ⟨r, w', hrun, b, cs, hc, -⟩ := dirContent_exact (P := bareSystem)
    (w := World.start emptyModules 0) (i := ⟨0, by decide⟩) (d := 0) (by decide)
    (rests_start emptyModules 0)
    (show bareSystem.wordexp emptyModules 0 slashStr = some [slashStr] from rfl) rfl rfl fun _ _ => rfl
  exact ⟨r, w', b, cs, hrun, hc⟩

end Prom.Modules
