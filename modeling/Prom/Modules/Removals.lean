/-
  Prom.Modules.Removals — which entries `clean_ul_mod_names` removes.

  With memory granted: those that `load_module` refused, each once.  When memory
  runs out, others as well: without memory for the path `load_module` asks for
  the program itself, which is no module, and `rm_module` may have memory again.
  `Vetted` is what a series of calls should satisfy; `NeverBlind` says of the
  entries, the requests for memory and the files that no such pass comes up.

  Main results:
    * `clean_selects_refused` — with memory granted.
    * `clean_vetted_iff` — whatever memory is refused.
-/
import Prom.Modules.AllOrNothing
import Prom.Modules.ListingFailures

namespace Prom.Modules

open Prom.C Exec Heap Dga Errm Posix

variable {P : System} {w : World}

/-! ## §1. Listing leaves the files alone. -/

/-- The files and the working directory are the same. -/
def SameFiles (w w' : World) : Prop := w'.os.fs = w.os.fs ∧ w'.os.cwd = w.os.cwd

theorem SameFiles.refl (w : World) : SameFiles w w := ⟨rfl, rfl⟩

theorem SameFiles.trans (w w' w'' : World) (h : SameFiles w w') (h' : SameFiles w' w'') : SameFiles w w'' :=
  ⟨h'.1.trans h.1, h'.2.trans h.2⟩

/-- However it ends, the files are the same. -/
def Still {A : Type} (m : Exec World A) : Prop := Within SameFiles m

section Still

variable {A B : Type}

theorem still_pure (a : A) : Still (pure a) := Within.pure SameFiles.refl a

theorem still_fail (f : Fault) : Still (fail f : Exec World A) := Within.fail SameFiles.refl f

theorem Still.bind {m : Exec World A} {f : A → Exec World B} (hm : Still m) (hf : ∀ a, Still (f a)) :
    Still (m >>= f) :=
  Within.bind SameFiles.trans hm hf

theorem Still.loop {body : A → Exec World (A ⊕ B)} (hbody : ∀ a, Still (body a)) (fuel : Nat) (a : A) :
    Still (loop fuel body a) :=
  Within.loop SameFiles.refl SameFiles.trans hbody fuel a

theorem Still.ite {c : Prop} [Decidable c] {m m' : Exec World A} (hm : Still m) (hm' : Still m') :
    Still (if c then m else m') := by
  split
  · exact hm
  · exact hm'

theorem still_onHeap (m : Exec Heap A) : Still (onHeap m) := by
  have hwithin : Within (fun _ _ => True) m := fun _ => trivial
  exact hwithin.zoom fun _ _ _ => ⟨rfl, rfl⟩

theorem still_onThread (m : Exec (Thread Handler) A) : Still (onThread m) := by
  have hwithin : Within (fun _ _ => True) m := fun _ => trivial
  exact hwithin.zoom fun _ _ _ => ⟨rfl, rfl⟩

theorem still_onOs {m : Exec Os A} (hm : ∀ s, (m s).state.fs = s.fs ∧ (m s).state.cwd = s.cwd) :
    Still (onOs m) := by
  have hwithin : Within (fun s s' => s'.fs = s.fs ∧ s'.cwd = s.cwd) m := hm
  exact hwithin.zoom fun _ _ h => h

theorem still_closedir (dp : Ptr) : Still (onOs (closedir dp)) := by
  refine still_onOs fun s => ?_
  unfold closedir
  cases openStream dp s <;> exact ⟨rfl, rfl⟩

theorem still_readdir (dp : Ptr) : Still (onOs (readdir dp)) := by
  refine still_onOs fun s => ?_
  unfold readdir
  rcases openStream dp s with _ | ⟨i, _ | ⟨name, rest⟩⟩ <;> exact ⟨rfl, rfl⟩

theorem still_handle (h : Handler) (a : Arg) : Still (handle h a) := by
  cases h <;> cases a
  case free.ptr p => exact still_onHeap _
  case wordfree.pool i off => exact (still_onThread _).bind fun _ => still_onHeap _
  case closeDir.ptr p => exact still_closedir p
  case freeModNames.ptr p => exact still_onHeap _
  all_goals exact still_fail _

/-- A call of an edf function whose body leaves the files alone. -/
theorem Still.edf {body : Exec World A} (hbody : Still body) : Still (edf body) := by
  have hstatic : ∀ (i : Fin STACK_SIZE) (u : Unit), Still (staticPass threadLens handle i u) := by
    intro i u
    refine (still_onThread (popStatic i)).bind fun e => ?_
    rcases e with _ | ⟨h, off⟩
    · exact still_pure _
    · exact (still_handle h _).bind fun _ => still_pure _
  have hdyn : ∀ (i : Fin STACK_SIZE) (u : Unit), Still (dynPass threadLens handle i u) := by
    intro i u
    refine (still_onThread (popDyn i)).bind fun e => ?_
    rcases e with _ | ⟨h, p⟩
    · exact still_pure _
    · exact (still_handle h _).bind fun _ => still_pure _
  have hdefers : Still (runDefers threadLens handle) :=
    (still_onThread _).bind fun i => (Still.loop (hstatic i) maxPasses ()).bind fun _ =>
      (still_onThread _).bind fun _ => Still.loop (hdyn i) maxPasses ()
  refine (still_onThread errmClear).bind fun _ => (still_onThread deferPush).bind fun pushed => ?_
  refine Still.ite (still_fail _) (hbody.bind fun r => hdefers.bind fun _ => ?_)
  exact (still_onThread deferPop).bind fun popped => Still.ite (still_fail _) (still_pure r)

theorem still_errored : Still errored := (still_onThread _).bind fun _ => still_pure _

theorem still_expand (P : System) (path : CStr) : Still (expand P path) := by
  have hwordexp : Still (wordexp P path) := by
    refine (still_onOs fun s => ⟨rfl, rfl⟩).bind fun s => ?_
    cases P.wordexp s.fs s.cwd path with
    | none => exact still_pure _
    | some words =>
      exact (still_onHeap _).bind fun _ => (still_onHeap _).bind fun _ => (still_onHeap _).bind fun _ =>
        still_pure _
  have hemalloc : ∀ n, Still (emalloc n) := fun n => Still.edf ((still_onHeap _).bind fun p =>
    Still.ite ((still_onThread _).bind fun _ => still_pure p) (still_pure p))
  refine Still.edf (hwordexp.bind fun words => ?_)
  cases words with
  | none => exact (still_onThread _).bind fun _ => still_pure _
  | some words =>
    refine (still_onThread _).bind fun _ => (still_onHeap _).bind fun _ => (still_onHeap _).bind fun s =>
      (hemalloc _).bind fun p => still_errored.bind fun e => ?_
    exact Still.ite (still_pure _) ((still_onHeap _).bind fun _ => still_pure _)

theorem still_openDir (P : System) (path : CStr) : Still (openDir P path) := by
  have hopendir : ∀ s, Still (onOs (opendir P s)) := by
    intro path
    refine still_onOs fun s => ?_
    cases hopens : opens P s path with
    | ok d =>
      rw [opendir_ok hopens]
      exact ⟨rfl, rfl⟩
    | error e =>
      rw [opendir_error hopens]
      exact ⟨rfl, rfl⟩
  have herrno : Still errmErrorFromErrno := by
    refine (still_onOs fun s => ⟨rfl, rfl⟩).bind fun s => ?_
    split
    all_goals first | exact still_onThread _ | exact still_pure _
  refine Still.edf ((still_expand P path).bind fun p => still_errored.bind fun e => ?_)
  refine Still.ite (still_pure _) ((still_onThread _).bind fun _ => (still_onHeap _).bind fun s =>
    (hopendir s).bind fun dp => ?_)
  exact Still.ite (herrno.bind fun _ => still_pure dp) (still_pure dp)

theorem still_dirContent (P : System) (path : CStr) : Still (dirContent P path) := by
  have hmemfail : ∀ p len, Still (dirContentMemfail p len) := fun p len =>
    (still_onThread _).bind fun _ => (still_onHeap _).bind fun _ => still_pure _
  refine Still.edf ((still_openDir P path).bind fun dp => still_errored.bind fun e => ?_)
  refine Still.ite (still_pure _) ((still_onThread _).bind fun _ => (still_onHeap _).bind fun p => ?_)
  refine Still.loop (fun st => ?_) maxPasses (p, 0)
  refine (still_readdir dp).bind fun next => ?_
  cases next with
  | none => exact still_pure _
  | some name =>
    refine Still.ite (still_pure _) ((still_onHeap _).bind fun tmp => ?_)
    refine Still.ite ((hmemfail _ _).bind fun r => still_pure _) ((still_onHeap _).bind fun q => ?_)
    refine Still.ite ((hmemfail _ _).bind fun r => still_pure _) ?_
    exact (still_onHeap _).bind fun _ => (still_onHeap _).bind fun _ => still_pure _

end Still

/-! ## §2. With memory granted. -/

/-- What was refused is some of what was asked for, in the same order. -/
theorem refused_sublist (calls : List ModCall) :
    (calls.filterMap ModCall.refused).Sublist (calls.filterMap ModCall.asked) := by
  induction calls with
  | nil => exact List.Sublist.refl _
  | cons c calls ih =>
    match c with
    | .load _ _ (.error _) => exact ih.cons_cons _
    | .load _ _ (.ok _) => exact ih.cons _
    | .remove _ _ _ => exact ih

/-- **`clean_ul_mod_names` selects the modules that do not load**: those are
    copied and removed, each once; the names listed are freed, and so can be
    the copies. -/
theorem clean_selects_refused {i : Fin STACK_SIZE} (hroom : i.val + 3 < STACK_SIZE)
    (hrest : Rests i.val w.thread w.thread) (hgen : w.heap.Generous) {D t : CStr} {later : List CStr}
    {d : Nat} (hwords : P.wordexp w.os.fs w.os.cwd D = some (t :: later)) (hopens : opens P w.os t = .ok d)
    (htidy : InitsTidy P) :
    Yields (cleanUlModNames P D) w fun r w' => ∃ calls bad,
      Selected P D i.val (t :: later).length w (visible (P.order w.os.fs d)) calls bad r w' ∧
      bad.Sublist (visible (P.order w.os.fs d)) ∧ bad.Nodup ∧
      (∃ n, r.len = some n ∧ dgaLen r.array w'.heap = .ok n w'.heap ∧ n.toNat = bad.length) ∧
      w'.thread.errCode = none ∧
      ∃ b cs, r.array = arrayPtr b ∧ NamesAt w'.heap b cs bad [] ∧
        freeUlModNames r.array w'.heap = .ok () (w'.heap.releaseAll (cs ++ [b])) ∧ (cs ++ [b]).Nodup ∧
        ((t :: later).length < 2 ^ 64 → Leaves (fun c => c ∈ b :: cs) w.heap w'.heap ∧
          Leaves (fun _ => False) w.heap (w'.heap.releaseAll (cs ++ [b]))) := by
  refine (cleanUlModNames_selects hroom hrest hgen hwords hopens).mono ?_
  rintro r w' ⟨calls, bad, hsel⟩
  obtain ⟨b, cs, hr, howned⟩ := hsel.result
  -- the refused names are among the ones asked for, in their order
  have hsub : bad.Sublist (visible (P.order w.os.fs d)) := by
    rw [← hsel.asked, ← hsel.refused]
    exact refused_sublist calls
  obtain ⟨⟨-, hfree⟩, hleft⟩ := howned.frees
  have hlen := howned.at_.len
  rw [List.length_nil, Nat.add_zero] at hlen
  refine ⟨calls, bad, hsel, hsub, (nodup_visible P w.os.fs d).sublist hsub, ⟨_, by rw [hr], ?_, ?_⟩,
    hsel.noError htidy, b, cs, by rw [hr], howned.at_, ?_, ?_, fun hfew => ⟨?_, ?_⟩⟩
  · rw [hr]
    exact hlen
  · exact howned.at_.toNat_length
  · rw [hr]
    exact hfree
  · exact List.nodup_append_comm.mp howned.at_.nodup
  · exact howned.leaves.weaken fun c hc => hc.resolve_right (Nat.not_le.mpr hfew)
  · exact hleft.weaken fun c hc => absurd hc (Nat.not_le.mpr hfew)

/-- Of a module `x` and a file `y`, the file is copied and removed. -/
theorem mixed_selected :
    Yields (cleanUlModNames tidySystem mPath) (World.start mixedModules 0) fun r w' => ∃ calls,
      Selected tidySystem mPath 0 1 (World.start mixedModules 0) [xName, ⟨ascii "y", by decide⟩] calls
        [⟨ascii "y", by decide⟩] r w' ∧
      (∃ n, r.len = some n ∧ dgaLen r.array w'.heap = .ok n w'.heap ∧ n.toNat = 1) ∧
      w'.thread.errCode = none ∧
      ∃ b cs, r.array = arrayPtr b ∧ NamesAt w'.heap b cs [⟨ascii "y", by decide⟩] [] ∧
        freeUlModNames r.array w'.heap = .ok () (w'.heap.releaseAll (cs ++ [b])) ∧ (cs ++ [b]).Nodup ∧
        Leaves (fun c => c ∈ b :: cs) (World.start mixedModules 0).heap w'.heap ∧
        Leaves (fun _ => False) (World.start mixedModules 0).heap (w'.heap.releaseAll (cs ++ [b])) := by
  obtain ⟨r, w', hrun, calls, bad, hsel, -, -, hlen, hcode, b, cs, hr, hnames, hfree, hnodup, hleaves⟩ :=
    clean_selects_refused (P := tidySystem) (w := World.start mixedModules 0) (i := ⟨0, by decide⟩)
      (d := 1) (by decide) (rests_start mixedModules 0) (generous_start _ _)
      (show tidySystem.wordexp mixedModules 0 mPath = some [mPath] from rfl) rfl tidySystem_tidy
  obtain rfl : bad = [⟨ascii "y", by decide⟩] := hsel.names_eq.trans (by decide)
  exact ⟨r, w', hrun, calls, hsel, hlen, hcode, b, cs, hr, hnames, hfree, hnodup, hleaves (by decide)⟩

/-! ## §3. Whatever memory is refused. -/

/-- What is removed was refused before, when its own file was asked for. -/
def Vetted (D : CStr) (calls : List ModCall) : Prop :=
  ∀ before name path after, calls = before ++ .remove name path 0 :: after →
    ∃ e, .load name (some (D.append name)) (.error e) ∈ before

theorem vetted_concat {D : CStr} {calls : List ModCall} {c : ModCall} :
    Vetted D (calls ++ [c]) ↔ Vetted D calls ∧ ∀ name path, c = .remove name path 0 →
      ∃ e, .load name (some (D.append name)) (.error e) ∈ calls := by
  constructor
  · intro h
    refine ⟨?_, ?_⟩
    · rintro before name path after rfl
      exact h before name path (after ++ [c]) (by rw [List.append_assoc, List.cons_append])
    · rintro name path rfl
      exact h calls name path [] rfl
  · rintro ⟨hcalls, hc⟩ before name path after hsplit
    rcases List.eq_nil_or_concat after with rfl | ⟨after, c', rfl⟩
    · obtain ⟨rfl, hlast⟩ := List.append_inj' hsplit rfl
      exact hc name path (List.singleton_inj.mp hlast)
    · rw [List.concat_eq_append, ← List.cons_append, ← List.append_assoc] at hsplit
      obtain ⟨hfirst, -⟩ := List.append_inj' hsplit rfl
      exact hcalls before name path after hfirst

/-- The request numbers of a pass start at `q`, and `k` removals were tried
    before it.  No entry is asked for without a path and then removed. -/
def NeverBlind (P : System) (cwd : Nat) (D : CStr) (grants : Nat → Bool) :
    List CStr → Nat → Nat → FileSys → Prop
  | [], _, _, _ => True
  | n :: ns, q, k, fs =>
    if grants q = true ∧ (loads P fs cwd (D.append n)).isSome then NeverBlind P cwd D grants ns (q + 1) k fs
    else if grants (q + 1) = true ∧ grants (q + 2) = true then
      (grants q = false → removedAt P cwd (pathAt D grants (q + 3) n) k fs = none) ∧
        NeverBlind P cwd D grants ns (q + 4) (k + 1)
          ((removedAt P cwd (pathAt D grants (q + 3) n) k fs).getD fs)
    else True

/-- With memory for everything there is none. -/
theorem neverBlind_granted {cwd : Nat} {D : CStr} {grants : Nat → Bool} (hg : ∀ q, grants q = true)
    (ns : List CStr) (q k : Nat) (fs : FileSys) : NeverBlind P cwd D grants ns q k fs := by
  induction ns generalizing q k fs with
  | nil => exact trivial
  | cons n ns ih =>
    rw [NeverBlind]
    split
    · exact ih _ _ _
    · split
      · refine ⟨fun hno => ?_, ih _ _ _⟩
        rw [hg q] at hno
        cases hno
      · exact trivial

/-- The calls so far are vetted, and no blind removal is to come, iff there is
    none at all. -/
def Watching (P : System) (D : CStr) (w₀ : World) (all : Prop) (calls : List ModCall) (rest : List CStr)
    (w : World) : Prop :=
  (Vetted D calls ∧ NeverBlind P w₀.os.cwd D w₀.heap.grants rest w.heap.requests (w.os.calls .remove)
    w.os.fs) ↔ all

section Watching

variable {D name : CStr} {w₀ w' : World} {all : Prop} {calls new : List ModCall}
  {done bad dropped rest : List CStr} {ulNames : Ptr}

theorem vetted_load {path : Option CStr} {a : Except Ptr Module} :
    Vetted D (calls ++ [.load name path a]) ↔ Vetted D calls := by
  rw [vetted_concat]
  refine and_iff_left_of_imp fun _ => ?_
  rintro name path ⟨⟩

/-- A removal right behind the name's only load. -/
theorem vetted_remove {path path' : Option CStr} {e : Ptr} {ret : Int}
    (hnew : name ∉ calls.filterMap ModCall.asked) :
    Vetted D (calls ++ [.load name path (.error e), .remove name path' ret]) ↔
      Vetted D calls ∧ (ret = 0 → path = some (D.append name)) := by
  rw [List.append_cons, vetted_concat, vetted_load]
  refine and_congr_right fun _ => ⟨fun h hret => ?_, fun h => ?_⟩
  · subst hret
    obtain ⟨e', hmem⟩ := h name path' rfl
    rcases List.mem_append.mp hmem with hmem | hmem
    · -- an earlier load of the name would have been asked for before
      exact absurd (List.mem_filterMap (f := ModCall.asked) |>.mpr ⟨_, hmem, rfl⟩) hnew
    · obtain ⟨-, hpath, -⟩ := ModCall.load.inj (List.mem_singleton.mp hmem)
      exact hpath.symm
  · rintro name' path'' heq
    obtain ⟨rfl, rfl, rfl⟩ := ModCall.remove.inj heq
    exact ⟨e, List.mem_append_right _ (by rw [h rfl]; exact List.mem_singleton_self _)⟩

theorem removeRet_eq_zero {cwd k : Nat} {path : Option CStr} {fs : FileSys} :
    removeRet P cwd path k fs = 0 ↔ removedAt P cwd path k fs ≠ none := by
  rw [removeRet, ← Option.isSome_iff_ne_none]
  split
  · exact ⟨fun _ => by assumption, fun _ => rfl⟩
  · refine ⟨fun h => absurd h (by decide), fun h => ?_⟩
    contradiction

theorem pathAt_eq_some {grants : Nat → Bool} {q : Nat} :
    pathAt D grants q name = some (D.append name) ↔ grants q = true := by
  unfold pathAt
  split
  · exact ⟨fun _ => by assumption, fun _ => rfl⟩
  · refine ⟨fun h => ?_, fun h => ?_⟩
    · cases h
    · contradiction

/-- One pass. -/
theorem Watching.next (hs : Sweeping P D w₀ calls done bad ulNames w) (hnew : name ∉ done)
    (hw : Watching P D w₀ all calls (name :: rest) w) (hpassed : Passed P D name w new dropped w') :
    Watching P D w₀ all (calls ++ new) rest w' := by
  have hgrants : w.heap.grants = w₀.heap.grants := hs.keeps.grants
  rw [Watching, NeverBlind] at hw
  cases hpassed with
  | @keep l w' hg hl hreq hos hcode =>
    obtain ⟨hfs, -, hcalls, -⟩ := hos.fields
    -- it loads, so nothing is removed
    have hgo : w₀.heap.grants w.heap.requests = true ∧
        (loads P w.os.fs w₀.os.cwd (D.append name)).isSome = true := by
      rw [← hgrants, ← hs.cwd, hl]
      exact ⟨hg, rfl⟩
    rw [if_pos hgo] at hw
    rw [Watching, vetted_load, hreq, hfs, hcalls]
    exact hw
  | @drop w' hl hcopy hroom hreq hcwd hremoves hfs hcode =>
    rw [hgrants] at hcopy hroom hfs ⊢
    -- it was refused: by the system, or for want of a path
    have hno : ¬(w₀.heap.grants w.heap.requests = true ∧
        (loads P w.os.fs w₀.os.cwd (D.append name)).isSome = true) := by
      rintro ⟨hg, hsome⟩
      rw [← hs.cwd, hl (by rw [Grants, hgrants]; exact hg)] at hsome
      cases hsome
    rw [if_neg hno, if_pos ⟨hcopy, hroom⟩] at hw
    rw [Watching, vetted_remove (by rw [hs.asked]; exact hnew), hreq, hremoves, hfs, ← hw, removeRet_eq_zero,
      pathAt_eq_some, hs.cwd, and_assoc]
    -- "removed with a path" and "no path, not removed" say the same
    refine and_congr_right fun _ => and_congr_left fun _ => ?_
    rw [← Bool.not_eq_true, not_imp_comm]

/-- A pass that goes wrong. -/
theorem Watching.stop {path : Option CStr} (hs : Sweeping P D w₀ calls done bad ulNames w)
    (hw : Watching P D w₀ all calls (name :: rest) w)
    (hl : w.heap.Grants → loads P w.os.fs w.os.cwd (D.append name) = none)
    (hno : w.heap.grants (w.heap.requests + 1) = true → w.heap.grants (w.heap.requests + 2) = false) :
    Vetted D (calls ++ [.load name path (.error P.message)]) ↔ all := by
  have hgrants : w.heap.grants = w₀.heap.grants := hs.keeps.grants
  rw [Watching, NeverBlind, if_neg, if_neg] at hw
  · -- `NeverBlind` looks no further than a pass that goes wrong
    rw [vetted_load, ← hw]
    exact (and_iff_left trivial).symm
  · rintro ⟨hcopy, hroom⟩
    rw [← hgrants] at hcopy hroom
    rw [hno hcopy] at hroom
    cases hroom
  · rintro ⟨hg, hsome⟩
    rw [← hs.cwd, hl (by rw [Grants, hgrants]; exact hg)] at hsome
    cases hsome

end Watching

/-! ## §4. The loop without memory. -/

section Loops

variable {D : CStr} {w₀ : World} {nb d : Nat} {ncs : List Nat} {fs : FileSys}

/-- The calls a run of the loop has made, and that it returns an array if it
    returns. -/
def LoopMakes (P : System) (D : CStr) (w₀ : World) (calls : List ModCall) (m : Exec World Listing)
    (w : World) : Prop :=
  (∃ w₁, CallsMade P D w₀ calls w₁ ∧ (m w).state.os = w₁.os) ∧ ∀ r w', m w = .ok r w' → r.array ≠ .null

theorem LoopMakes.stop {calls : List ModCall} {m : Exec World Listing} {w₁ w' : World} {f : Fault}
    (hmade : CallsMade P D w₀ calls w₁) (hos : w'.os = w₁.os) (hrun : m w = .stop f w') :
    LoopMakes P D w₀ calls m w := by
  refine ⟨⟨w₁, hmade, ?_⟩, ?_⟩
  · rw [hrun]
    exact hos
  · intro r w'' hrun'
    rw [hrun] at hrun'
    cases hrun'

/-- The loop, with an array for the names. -/
theorem sweeping_watched (hself : (P.object P.self).name = none)
    (hnames : NamesAt w₀.heap nb ncs (visible (P.order fs d)) []) {cells : List Cell}
    (hul : Owned (fun _ => False) w₀.heap (w₀.heap.alloc cells) w₀.heap.blocks.length [] [] []) :
    ∃ calls, LoopMakes P D w₀ calls
        (loop maxPasses (cleanPass P D (arrayPtr nb) (BitVec.ofNat 64 (visible (P.order fs d)).length))
          (arrayPtr w₀.heap.blocks.length, 0)) { w₀ with heap := w₀.heap.alloc cells } ∧
      (Vetted D calls ↔ NeverBlind P w₀.os.cwd D w₀.heap.grants (visible (P.order fs d))
        (w₀.heap.requests + 1) (w₀.os.calls .remove) w₀.os.fs) := by
  have hfew : (visible (P.order fs d)).length ≤ DIR_MAX + 2 :=
    Nat.le_trans (length_visible _) (order_length P _ _)
  -- the calls are watched along the loop, up to its exit or the wrong pass
  have hends := sweeping_loop (P := P) (D := D) (w := { w₀ with heap := w₀.heap.alloc cells })
    (X := fun calls _ _ rest w => Watching P D w₀ (NeverBlind P w₀.os.cwd D w₀.heap.grants
      (visible (P.order fs d)) (w₀.heap.requests + 1) (w₀.os.calls .remove) w₀.os.fs) calls rest w)
    (E := fun calls w₁ => CallsMade P D w₀ calls w₁ ∧ (Vetted D calls ↔ NeverBlind P w₀.os.cwd D
      w₀.heap.grants (visible (P.order fs d)) (w₀.heap.requests + 1) (w₀.os.calls .remove) w₀.os.fs))
    (.inr hself) hnames hnames.toNat_length (fun n hn => short_visible hn) hfew
    (fun calls done bad name rest new dropped ul w w' hsplit hs hw hpassed => hw.next hs ?_ hpassed)
    (fun calls done bad name rest ul w w₁ path _ hs hw hl hno hmade _ => ⟨hmade, hw.stop hs hl hno⟩)
    ⟨⟨_, _, rfl, hul⟩, .memory _ .none, rfl, rfl, rfl, rfl, rfl, rfl, ⟨_, rfl⟩, rfl⟩
    ⟨fun h => h.2, fun h => ⟨?_, h⟩⟩
  · rcases hends with ⟨r, w', hrun, calls, bad, w₁, ⟨hs, hlen, rfl⟩, hw⟩ | ⟨w', hrun, calls, w₁, ⟨hmade, hiff⟩, hos⟩
    · obtain ⟨b, cs, hr, -⟩ := hs.owned
      refine ⟨calls, ⟨⟨w₁, hs.made, by rw [hrun]; rfl⟩, ?_⟩, ?_⟩
      · intro r' w'' hrun'
        rw [hrun] at hrun'
        cases hrun'
        rw [hr]
        exact arrayPtr_ne_null b
      · exact (and_iff_left trivial).symm.trans hw
    · exact ⟨calls, .stop hmade hos hrun, hiff⟩
  · -- no name is listed twice
    have hnodup := nodup_visible P fs d
    rw [hsplit] at hnodup
    exact fun hmem => (List.nodup_append.mp hnodup).2.2 name hmem name List.mem_cons_self rfl
  · rintro before name path after hsplit
    cases List.append_eq_nil_iff.mp hsplit.symm |>.2

/-- Calls of `load_module` remove nothing. -/
theorem vetted_loads {calls : List ModCall} (hloads : calls.filterMap ModCall.removal = []) :
    Vetted D calls := by
  rintro before name path after rfl
  rw [List.filterMap_append, List.filterMap_cons] at hloads
  cases (List.append_eq_nil_iff.mp hloads).2

/-- Where there is no array, the first entry that is refused goes wrong. -/
theorem cleanRefused_headless {c k : Nat} {name : CStr} (names : Ptr) (hblock : NameBlock w.heap c name)
    (hshort : name.length ≤ NAME_MAX) :
    ∃ h, cleanRefused P D names (arrayPtr c) (Ptr.null.add headerSize, k) w =
      .stop .undefined { w with heap := h } := by
  rw [cleanRefused, bind_ok (onHeap_eq hblock.load)]
  by_cases hg : w.heap.Grants
  · obtain ⟨cells, cells', hnew, hstr, -⟩ := dgaNew_short hg hshort (name.length + 1) 4
      (by omega) (by omega) (by decide) (by decide)
    obtain ⟨h₂, hgrow⟩ := headless_grow (w.heap.alloc cells')
    refine ⟨h₂, ?_⟩
    rw [bind_ok (onHeap_eq hnew), if_neg (arrayPtr_ne_null _), strcpy, bind_ok (onHeap_eq hstr)]
    exact bind_stop (onHeap_stop hgrow) _
  · obtain ⟨h₂, hstore⟩ := headless_store name w.heap.deny
    refine ⟨h₂, ?_⟩
    rw [bind_ok (onHeap_eq (dgaNew_denied hg _ _)), if_neg headless_ne_null]
    exact bind_stop (onHeap_stop hstore) _

/-- The loop without an array: it has made these calls, and none was a removal. -/
structure Headless (P : System) (D : CStr) (w₀ : World) (calls : List ModCall) (w : World) : Prop where
  keeps : Keeps w₀.heap w.heap
  made : CallsMade P D w₀ calls w
  removals : calls.filterMap ModCall.removal = []

section Headless

variable {calls : List ModCall} {name : CStr} {names done rest : List CStr} {len : Size}

theorem Headless.load {answer : Except Ptr Module} {w₁ : World} (hh : Headless P D w₀ calls w)
    (htried : LoadTried P w (modPathArg D name w.heap) w₁)
    (hrun : loadModule P name D w = .ok answer w₁) :
    ∃ path, Headless P D w₀ (calls ++ [.load name path answer]) w₁ := by
  refine ⟨_, hh.keeps.trans htried.keeps, hh.made.load ⟨rfl, htried.os⟩ hrun, ?_⟩
  rw [List.filterMap_append, hh.removals]
  rfl

/-- A pass for an entry that loads goes on, one for another entry goes wrong. -/
theorem Headless.pass (hself : (P.object P.self).name = none)
    (hnames : NamesAt w₀.heap nb ncs (done ++ name :: rest) [])
    (hlen : len.toNat = (done ++ name :: rest).length) (hshort : name.length ≤ NAME_MAX)
    (hh : Headless P D w₀ calls w) :
    Ends (cleanPass P D (arrayPtr nb) len (Ptr.null.add headerSize, done.length)) w
      (fun r w' => r = .inl (Ptr.null.add headerSize, done.length + 1) ∧ ∃ calls', Headless P D w₀ calls' w')
      (fun w' => ∃ calls' w₁, Headless P D w₀ calls' w₁ ∧ w'.os = w₁.os) := by
  obtain ⟨c, hblock, hkeep, hdrop, -⟩ := cleanPass_asks (P := P) (D := D) hnames hlen
    (fun _ => runInit) (Ptr.null.add headerSize) hh.keeps
  by_cases hl : w.heap.Grants → loads P w.os.fs w.os.cwd (D.append name) = none
  · obtain ⟨a, w₁, hrun, ha, -, -, htried⟩ := loadModule_refuses (P := P) name D hl fun _ => hself
    subst ha
    -- there is no array to put the name into
    obtain ⟨h, hstop⟩ := cleanRefused_headless (P := P) (D := D) (k := done.length) (arrayPtr nb)
      (hblock.mono fun cells hat => htried.keeps.at_ c cells hat) hshort
    obtain ⟨path, hh'⟩ := hh.load htried hrun
    exact .inr ⟨_, (hdrop _ _ hrun).trans hstop, _, w₁, hh', rfl⟩
  · obtain ⟨hg, hl⟩ := Classical.not_imp.mp hl
    obtain ⟨l, hl⟩ := Option.ne_none_iff_exists'.mp hl
    obtain ⟨a, w₁, hrun, ha, -, -, htried⟩ := loadModule_ok (P := P) hg name D hl
    subst ha
    -- a name loads only if there was memory for its path
    rw [← show modPathArg D name w.heap = some (D.append name) from if_pos hg] at htried
    obtain ⟨path, hh'⟩ := hh.load htried hrun
    exact .inl (Yields.of_eq (hkeep _ _ hrun) ⟨rfl, _, hh'⟩)

/-- The pass that leaves the loop reads the length where there is no header. -/
theorem Headless.exit (hnames : NamesAt w₀.heap nb ncs names []) (hlen : len.toNat = names.length)
    (hh : Headless P D w₀ calls w) :
    ∃ w', cleanPass P D (arrayPtr nb) len (Ptr.null.add headerSize, names.length) w = .stop .undefined w' ∧
      w'.os = w.os := by
  have hfree : freeModNames (arrayPtr nb) w.heap = .ok () (w.heap.releaseAll (ncs ++ [nb])) :=
    freeDirContent_frees (hnames.keeps hh.keeps)
  refine ⟨{ w with heap := w.heap.releaseAll (ncs ++ [nb]) }, ?_, rfl⟩
  rw [cleanPass, cleanPassWith, if_neg (by rw [hlen]; exact Nat.lt_irrefl _), bind_ok (onHeap_eq hfree)]
  exact bind_stop (onHeap_stop (headless_len _)) _

end Headless

/-- The loop without an array goes wrong. -/
theorem headless_ends (hself : (P.object P.self).name = none)
    (hnames : NamesAt w₀.heap nb ncs (visible (P.order fs d)) []) :
    Ends (loop maxPasses (cleanPass P D (arrayPtr nb)
      (BitVec.ofNat 64 (visible (P.order fs d)).length)) (Ptr.null.add headerSize, 0))
      { w₀ with heap := w₀.heap.deny } (fun _ _ => False)
      (fun w' => ∃ calls w₁, Headless P D w₀ calls w₁ ∧ w'.os = w₁.os) := by
  have hlen := hnames.toNat_length
  have hfuel : (visible (P.order fs d)).length < maxPasses := by
    rw [← hlen]
    exact BitVec.isLt _
  refine Ends.over (I := fun done _ st w => st = (Ptr.null.add headerSize, done.length) ∧
      ∃ calls, Headless P D w₀ calls w)
    ?_ ?_ hfuel ⟨rfl, [], (Keeps.refl _).deny, .memory _ .none, rfl⟩
  · rintro done name rest st w hsplit ⟨rfl, calls, hh⟩
    rw [hsplit] at hlen hnames ⊢
    have hname : name ∈ visible (P.order fs d) := by
      rw [hsplit]
      exact List.mem_append_right _ List.mem_cons_self
    refine (hh.pass hself hnames hlen (short_visible hname)).imp_left fun hyields => hyields.mono ?_
    rintro r w' ⟨rfl, hmore⟩
    exact ⟨by rw [List.length_append, List.length_singleton], hmore⟩
  · -- every entry has loaded: the length is read off no array
    rintro st w ⟨rfl, calls, hh⟩
    obtain ⟨w', hstop, hos⟩ := hh.exit hnames hlen
    exact .inr ⟨w', hstop, calls, w, hh, hos⟩

/-- Nothing is removed by it. -/
theorem sweeping_headless (hself : (P.object P.self).name = none)
    (hnames : NamesAt w₀.heap nb ncs (visible (P.order fs d)) []) :
    ∃ calls, LoopMakes P D w₀ calls
        (loop maxPasses (cleanPass P D (arrayPtr nb) (BitVec.ofNat 64 (visible (P.order fs d)).length))
          (Ptr.null.add headerSize, 0)) { w₀ with heap := w₀.heap.deny } ∧ Vetted D calls := by
  rcases headless_ends (D := D) hself hnames with ⟨r, w', -, hfalse⟩ | ⟨w', hrun, calls, w₁, hh, hos⟩
  · exact hfalse.elim
  · exact ⟨calls, .stop hh.made hos hrun, vetted_loads hh.removals⟩

end Loops

/-! ## §5. The whole cleaning. -/

/-- The directory is opened, and there is memory to list it. -/
def ListsAll (P : System) (D t : CStr) (later : List CStr) (d : Nat) (w : World) : Prop :=
  P.wordexp w.os.fs w.os.cwd D = some (t :: later) ∧ opens P w.os t = .ok d ∧
    w.heap.grants (copyRequest w.heap (t :: later).length) = true ∧ GrantsListing P w (t :: later).length d

section Listing

variable {i : Fin STACK_SIZE} {D : CStr} {r : Listing} {w' : World}

/-- A listing that returns without an error although there was no memory for it
    is no array. -/
theorem dirContent_unlisted (hroom : i.val + 3 < STACK_SIZE) (hrest : Rests i.val w.thread w.thread)
    (hno : ∀ t later d, ¬ListsAll P D t later d w) (hrun : dirContent P D w = .ok r w')
    (hcode : w'.thread.errCode = none) : r = ⟨Ptr.null.add headerSize, some 0⟩ := by
  have hin : InFrame i (w.thread.stack i) w.thread (w.enter i).thread := hrest.enter
  have hroom' : i.val + 1 < STACK_SIZE := by omega
  have hcalled := hin.called hroom'
  -- an error of `open_dir` would be seen
  have herrored : ∀ {dp w₁ c}, openDir P D (w.enter i) = .ok dp w₁ →
      Rests (i.val + 1) (w.enter i).thread w₁.thread → w₁.thread.errCode = some c → False := by
    intro dp w₁ c hopen hthread herr
    obtain ⟨r', w'', hrun', -, hc, -⟩ := dirContent_errored hrest hopen hthread herr
    rw [hrun] at hrun'
    cases hrun'
    rw [hcode] at hc
    cases hc
  cases hwords : P.wordexp w.os.fs w.os.cwd D with
  | none =>
    obtain ⟨dp, w₁, hopen, hfail⟩ := openDir_unparsed (i := ⟨i.val + 1, hroom'⟩) (w := w.enter i)
      (by show i.val + 1 + 1 < STACK_SIZE; omega) hcalled hwords
    exact (herrored hopen hfail.thread hfail.code).elim
  | some words =>
    cases words with
    | nil =>
      have hundef : Undefined (dirContent P D) w := edf_undefined hrest (Undefined.bind
        (edf_undefined hcalled (Undefined.bind (expand_empty (i := ⟨i.val + 2, by omega⟩)
          ((Rests.enter (i := ⟨i.val + 1, hroom'⟩) hcalled).called (by show i.val + 1 + 1 < STACK_SIZE; omega))
          hwords) _)) _)
      exact absurd hrun hundef.not_ok
    | cons t later =>
      obtain ⟨dp, w₁, hopen, htried⟩ := openDir_cases (i := ⟨i.val + 1, hroom'⟩) (w := w.enter i)
        (by show i.val + 1 + 2 < STACK_SIZE; omega) hcalled hwords
      cases hg : w.heap.grants (copyRequest w.heap (t :: later).length) with
      | false => exact (herrored hopen htried.thread (htried.denied hg).2).elim
      | true =>
        cases hopens : opens P w.os t with
        | error e =>
          obtain ⟨rfl, herr⟩ := htried.failed e hg hopens
          cases hc : errorOf e with
          | some c => exact (herrored hopen htried.thread (herr.trans hc)).elim
          | none => exact absurd hrun (dirContent_unreported hrest hopen htried.thread (herr.trans hc)).not_ok
        | ok d =>
          have hstarved : ∃ j, j ≤ 2 * (visible (P.order w.os.fs d)).length ∧
              w.heap.grants (copyRequest w.heap (t :: later).length + 1 + j) = false := by
            by_contra hall
            refine hno t later d ⟨hwords, hopens, hg, fun j hj => ?_⟩
            by_contra hgj
            exact hall ⟨j, hj, Bool.eq_false_iff.mpr hgj⟩
          obtain ⟨j, hj, hnj⟩ := hstarved
          rcases dirContent_starved hroom hrest hwords hg hopens hj hnj with hundef | ⟨r', w'', hrun', hr⟩
          · exact absurd hrun hundef.not_ok
          · rw [hrun] at hrun'
            cases hrun'
            exact hr

/-- A run of `clean_ul_mod_names` made these calls, and left the files alone
    otherwise. -/
def CleanMakes (P : System) (D : CStr) (w : World) (calls : List ModCall) : Prop :=
  ∃ w₁ w₂, SameFiles w w₁ ∧ CallsMade P D w₁ calls w₂ ∧ (cleanUlModNames P D w).state.os = w₂.os

/-- In no pass is the entry asked for without a path and then removed.  The loop
    starts behind the request for its array. -/
def NoBlindRemoval (P : System) (D : CStr) (w : World) : Prop :=
  ∀ t later d, ListsAll P D t later d w →
    w.heap.grants (copyRequest w.heap (t :: later).length + 2 +
      2 * (visible (P.order w.os.fs d)).length) = true →
    NeverBlind P w.os.cwd D w.heap.grants (visible (P.order w.os.fs d))
      (copyRequest w.heap (t :: later).length + 2 + 2 * (visible (P.order w.os.fs d)).length + 1)
      (w.os.calls .remove) w.os.fs

/-- The listing did not return an array: no call is made. -/
theorem clean_unlisted (hroom : i.val + 3 < STACK_SIZE) (hrest : Rests i.val w.thread w.thread)
    (hno : ∀ t later d, ¬ListsAll P D t later d w) :
    CleanMakes P D w [] ∧ ∀ r w', cleanUlModNames P D w = .ok r w' → w'.os.fs = w.os.fs := by
  let w₁ : World := { w with thread := { w.thread with errCode := none } }
  have hclear : onThread errmClear w = .ok () w₁ := onThread_eq (errmClear_eq w.thread)
  have hstill : SameFiles w (dirContent P D w₁).state := still_dirContent P D w₁
  -- wherever it ends, the files are those the listing left
  have hends : ∀ w₂ : World, (dirContent P D w₁).state.os = w₂.os → (cleanUlModNames P D w).state.os = w₂.os →
      CleanMakes P D w [] ∧ ∀ r w', cleanUlModNames P D w = .ok r w' → w'.os.fs = w.os.fs := by
    intro w₂ hos hend
    rw [SameFiles, hos] at hstill
    refine ⟨⟨w₂, w₂, hstill, .none, hend⟩, ?_⟩
    intro r w' hrun
    rw [hrun] at hend
    exact (congrArg Os.fs hend).trans hstill.1
  cases hrun : dirContent P D w₁ with
  | stop f w₂ =>
    refine hends w₂ (by rw [hrun]; rfl) ?_
    rw [cleanUlModNames, cleanUlModNamesWith, bind_ok hclear, modNames, bind_stop hrun]
    rfl
  | ok r w₂ =>
    refine hends w₂ (by rw [hrun]; rfl) ?_
    rw [cleanUlModNames, cleanUlModNamesWith, bind_ok hclear, modNames, bind_ok hrun]
    cases hcode : w₂.thread.errCode with
    | some c =>
      rw [bind_ok (errored_true hcode)]
      rfl
    | none =>
      rw [dirContent_unlisted (w := w₁) hroom (hrest.setErr none) hno hrun hcode, bind_ok (errored_false hcode)]
      -- the listing is no array; it is freed all the same
      have hnew : ∃ p h, dgaNew 0 8 w₂.heap = .ok p h ∧ p ≠ .null := by
        by_cases hg : w₂.heap.Grants
        · obtain ⟨cells, hnew, -⟩ := dgaNew_namesAt hg
          exact ⟨_, _, hnew, arrayPtr_ne_null _⟩
        · exact ⟨_, _, dgaNew_denied hg 0 8, headless_ne_null⟩
      obtain ⟨p, h, hnew, hne⟩ := hnew
      have hpass : cleanPassWith P (fun _ => runInit) D (Ptr.null.add headerSize) 0 (p, 0)
          { w₂ with heap := h } = .stop .undefined { w₂ with heap := h } := by
        rw [cleanPassWith, if_neg (show ¬0 < (0 : Size).toNat by decide)]
        exact bind_stop (onHeap_stop (headless_free h)) _
      have hcut : onHeap (dgaNew 0 8) w₂ = .ok p { w₂ with heap := h } := onHeap_eq hnew
      show World.os (Result.state ((onHeap (dgaNew 0 8) >>= _) w₂)) = _
      rw [bind_ok hcut, if_neg hne]
      show World.os (Result.state (loop maxPasses _ _ _)) = _
      rw [loop_stop maxPasses_pos hpass]
      rfl

/-- **What running out of memory removes**: however the call ends, every entry
    removed was refused before, and a call that returns `NULL` removed nothing;
    unless an entry is asked for without a path and then removed. -/
theorem clean_vetted_iff (hroom : i.val + 3 < STACK_SIZE) (hrest : Rests i.val w.thread w.thread)
    (hself : (P.object P.self).name = none) :
    ∃ calls, CleanMakes P D w calls ∧
      ((Vetted D calls ∧ ∀ r w', cleanUlModNames P D w = .ok r w' → r.array = .null → w'.os.fs = w.os.fs) ↔
        NoBlindRemoval P D w) := by
  by_cases hlist : ∃ t later d, ListsAll P D t later d w
  · obtain ⟨t, later, d, hall⟩ := hlist
    obtain ⟨hwords, hopens, hg, hgrants⟩ := hall
    let w₁ : World := { w with thread := { w.thread with errCode := none } }
    have hclear : onThread errmClear w = .ok () w₁ := onThread_eq (errmClear_eq w.thread)
    obtain ⟨r, w₂, hrun, ⟨nb, ncs, rfl, hnames⟩, hos, hrests, hcode, hinits, hreq⟩ :=
      dirContent_returned (w := w₁) hroom (hrest.setErr none) hwords hg hopens hgrants
    replace hos : w₂.os = w.os.listed := hos
    replace hreq : w₂.heap.requests = copyRequest w.heap (t :: later).length + 2 +
      2 * (visible (P.order w.os.fs d)).length := hreq
    have hgr : w₂.heap.grants = w.heap.grants := hnames.leaves.keeps.grants
    -- there is one directory, and one condition on it
    have hcond : NoBlindRemoval P D w ↔ (w₂.heap.Grants → NeverBlind P w₂.os.cwd D w₂.heap.grants
        (visible (P.order w.os.fs d)) (w₂.heap.requests + 1) (w₂.os.calls .remove) w₂.os.fs) := by
      rw [Grants, hgr, hreq, hos]
      constructor
      · intro h
        exact h t later d ⟨hwords, hopens, hg, hgrants⟩
      · rintro h t' later' d' ⟨hwords', hopens', -, -⟩
        rw [hwords] at hwords'
        cases hwords'
        rw [hopens] at hopens'
        cases hopens'
        exact h
    have hmakes : ∀ calls p W, dgaNew 0 8 w₂.heap = .ok p W → p ≠ .null →
        LoopMakes P D w₂ calls (loop maxPasses (cleanPass P D (arrayPtr nb)
          (BitVec.ofNat 64 (visible (P.order w.os.fs d)).length)) (p, 0)) { w₂ with heap := W } →
        CleanMakes P D w calls ∧ ∀ r w', cleanUlModNames P D w = .ok r w' → r.array = .null →
          w'.os.fs = w.os.fs := by
      rintro calls p W hnew hne ⟨⟨w₃, hmade, hend⟩, hnull⟩
      have hclean : cleanUlModNames P D w = loop maxPasses (cleanPass P D (arrayPtr nb)
          (BitVec.ofNat 64 (visible (P.order w.os.fs d)).length)) (p, 0) { w₂ with heap := W } := by
        have hcut : onHeap (dgaNew 0 8) w₂ = .ok p { w₂ with heap := W } := onHeap_eq hnew
        rw [cleanUlModNames, cleanUlModNamesWith, bind_ok hclear, modNames, bind_ok hrun,
          bind_ok (errored_false hcode)]
        show (onHeap (dgaNew 0 8) >>= _) w₂ = _
        rw [bind_ok hcut, if_neg hne]
        rfl
      refine ⟨⟨w₂, w₃, ?_, hmade, by rw [hclean]; exact hend⟩, ?_⟩
      · rw [SameFiles, hos]
        exact ⟨rfl, rfl⟩
      · intro r w' hret hnul
        rw [hclean] at hret
        exact absurd hnul (hnull r w' hret)
    by_cases hg₂ : w₂.heap.Grants
    · obtain ⟨cells, hnew, hul⟩ := Owned.new hg₂ (Leaves.refl w₂.heap)
      obtain ⟨calls, hloop, hiff⟩ := sweeping_watched (P := P) (D := D) hself hnames.at_ hul
      obtain ⟨hclean, hnull⟩ := hmakes calls _ _ hnew (arrayPtr_ne_null _) hloop
      refine ⟨calls, hclean, ?_⟩
      rw [hcond, hiff]
      exact ⟨fun h _ => h.1, fun h => ⟨h hg₂, hnull⟩⟩
    · obtain ⟨calls, hloop, hvetted⟩ := sweeping_headless (P := P) (D := D) hself hnames.at_
      obtain ⟨hclean, hnull⟩ := hmakes calls _ _ (dgaNew_denied hg₂ 0 8) headless_ne_null hloop
      refine ⟨calls, hclean, ?_⟩
      rw [hcond]
      exact ⟨fun _ hg' => absurd hg' hg₂, fun _ => ⟨hvetted, hnull⟩⟩
  · have hno : ∀ t later d, ¬ListsAll P D t later d w := fun t later d h => hlist ⟨t, later, d, h⟩
    obtain ⟨hclean, hsame⟩ := clean_unlisted (D := D) hroom hrest hno
    refine ⟨[], hclean, ⟨fun _ t later d h => absurd h (hno t later d), fun _ => ⟨?_, ?_⟩⟩⟩
    · exact vetted_loads rfl
    · exact fun r w' hrun _ => hsame r w' hrun

end Listing

/-- A system that loads file 0; the program itself has no symbols. -/
def prudentSystem : System :=
  { tidySystem with
    object := fun o => if o = 0 then tidySystem.object 0 else ⟨none, none, none⟩
    self := 1 }

/-- A module `x` and a file `y`, and all the memory that is asked for. -/
theorem mixed_vetted : ∃ calls, CleanMakes prudentSystem mPath (World.start mixedModules 0) calls ∧
    Vetted mPath calls ∧ ∀ r w', cleanUlModNames prudentSystem mPath (World.start mixedModules 0) = .ok r w' →
      r.array = .null → w'.os.fs = mixedModules := by
  obtain ⟨calls, hmakes, hiff⟩ := clean_vetted_iff (P := prudentSystem) (w := World.start mixedModules 0)
    (i := ⟨0, by decide⟩) (D := mPath) (by decide) (rests_start mixedModules 0) rfl
  exact ⟨calls, hmakes, hiff.mpr fun _ _ _ _ _ => neverBlind_granted (fun _ => rfl) _ _ _ _⟩

/-- The request for the path of `x`, which is the tenth, is refused. -/
def starvedWorld : World :=
  { World.start mixedModules 0 with heap := ⟨[], [], fun n => decide (n ≠ 9), 0⟩ }

/-- **The module `x` loads, and is removed.** -/
theorem healthy_removed : (prudentSystem.object prudentSystem.self).name = none ∧
    (mixedModules.lookup 1 xName.bytes).isSome ∧
    (loads prudentSystem mixedModules 0 (mPath.append xName)).isSome ∧
    ∃ r w', cleanUlModNames prudentSystem mPath starvedWorld = .ok r w' ∧
      w'.os.fs.lookup 1 xName.bytes = none := by
  refine ⟨rfl, by decide, by decide, ?_⟩
  have hgone : (match cleanUlModNames prudentSystem mPath starvedWorld with
      | .ok _ w' => (w'.os.fs.lookup 1 xName.bytes).isNone
      | .stop _ _ => false) = true := by decide +kernel
  cases hrun : cleanUlModNames prudentSystem mPath starvedWorld with
  | ok r w' =>
    rw [hrun] at hgone
    exact ⟨r, w', rfl, Option.isNone_iff_eq_none.mp hgone⟩
  | stop f w' =>
    rw [hrun] at hgone
    cases hgone

end Prom.Modules
