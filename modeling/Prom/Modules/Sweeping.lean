/-
  Prom.Modules.Sweeping — the loop of `clean_ul_mod_names`.

  Each pass asks for one entry.  One that `load_module` refuses is copied into
  the array of the names returned, and `rm_module` is called for it.  `Sweeping`
  is the account the loop keeps: the calls it has made, the array, and the
  memory.  A refused request for the copy or for room in the array ends it in
  undefined behaviour; one for a path does not.

  Main results:
    * `Sweeping.keep`, `Sweeping.drop`, `Sweeping.stop` — what a pass can do.
    * `sweeping_loop` — from the first pass to the last, or to the one that goes
      wrong.
-/
import Prom.Modules.Loading

namespace Prom.Modules

open Prom.C Exec Heap Dga Errm Posix

variable {P : System} {w : World}

/-! ## §1. The calls. -/

/-- The name `load_module` was called for. -/
def ModCall.asked : ModCall → Option CStr
  | .load name _ _ => some name
  | .remove _ _ _ => none

/-- The name `load_module` returned a message for. -/
def ModCall.refused : ModCall → Option CStr
  | .load name _ (.error _) => some name
  | .load _ _ (.ok _) => none
  | .remove _ _ _ => none

/-- The name `rm_module` was called for. -/
def ModCall.removal : ModCall → Option CStr
  | .load _ _ _ => none
  | .remove name _ _ => some name

/-- The call was made with the name behind `D`. -/
def ModCall.Pathed (D : CStr) : ModCall → Prop
  | .load name path _ => path = some (D.append name)
  | .remove name path _ => path = some (D.append name)

/-- The path request number `q` leads to. -/
def pathAt (D : CStr) (grants : Nat → Bool) (q : Nat) (name : CStr) : Option CStr :=
  if grants q then some (D.append name) else none

theorem modPathArg_eq (D name : CStr) (h : Heap) :
    modPathArg D name h = pathAt D h.grants h.requests name := by
  by_cases hg : h.Grants
  · exact (if_pos hg).trans (if_pos hg).symm
  · exact (if_neg hg).trans (if_neg hg).symm

theorem pathAt_generous {h : Heap} (hgen : h.Generous) {q : Nat} (hq : h.requests ≤ q) (D name : CStr) :
    pathAt D h.grants q name = some (D.append name) :=
  if_pos (hgen q hq)

/-- What `rm_module` returns. -/
def removeRet (P : System) (cwd : Nat) (path : Option CStr) (k : Nat) (fs : FileSys) : Int :=
  if (removedAt P cwd path k fs).isSome then 0 else -1

/-- `rm_module` has asked for a path to be removed; its own memory is free. -/
structure RmTried (P : System) (w : World) (path : Option CStr) (w' : World) : Prop where
  asks : ∃ v, remove P path w.os = .ok v w'.os
  os : w'.os = { w.os.count .remove with errno := w'.os.errno, fs := w'.os.fs }
  fs : w'.os.fs = (removedAt P w.os.cwd path (w.os.calls .remove) w.os.fs).getD w.os.fs
  leaves : Leaves (fun _ => False) w.heap w'.heap
  requests : w'.heap.requests = w.heap.requests + 1
  thread : ∃ c, w'.thread = { w.thread with errCode := c } ∧ (w.heap.Grants → c = none)
  inits : w'.inits = w.inits

/-- **`rm_module`** asks with the path there was memory for. -/
theorem rmModule_eq (name D : CStr) (w : World) :
    ∃ w', rmModule P name D w = .ok (removeRet P w.os.cwd (modPathArg D name w.heap)
        (w.os.calls .remove) w.os.fs) w' ∧ RmTried P w (modPathArg D name w.heap) w' := by
  obtain ⟨s, hremove, hrest, hfs⟩ := removeAt_eq P (modPathArg D name w.heap) w.os
  obtain ⟨h, c, hrun, hleaves, hreq, hc⟩ := callOnModPath_eq (remove P) name D hremove
  refine ⟨{ w with heap := h, os := s, thread := { w.thread with errCode := c } }, ?_, ⟨_, hremove⟩, hrest,
    hfs, hleaves, hreq, ⟨c, rfl, hc⟩, rfl⟩
  rw [rmModule_call, hrun, removeRet]
  congr 1
  split <;> rfl

/-- The file system after the entries were asked to be removed, the first by
    the `k`-th call. -/
def afterRemovals (P : System) (cwd : Nat) (D : CStr) : List CStr → Nat → FileSys → FileSys
  | [], _, fs => fs
  | n :: ns, k, fs =>
    afterRemovals P cwd D ns (k + 1) ((removed P cwd (D.append n) k fs).getD fs)

theorem afterRemovals_concat (cwd : Nat) (D : CStr) (ns : List CStr) (n : CStr) (k : Nat)
    (fs : FileSys) :
    afterRemovals P cwd D (ns ++ [n]) k fs =
      (removed P cwd (D.append n) (k + ns.length) (afterRemovals P cwd D ns k fs)).getD
        (afterRemovals P cwd D ns k fs) := by
  induction ns generalizing k fs with
  | nil => rfl
  | cons m ns ih =>
    rw [List.cons_append, afterRemovals, ih, List.length_cons, afterRemovals, Nat.add_assoc,
      Nat.add_comm 1 ns.length]

/-! ## §2. One pass. -/

/-- The loop, started in `w₀`, has asked for the entries `done`; it has made these
    calls, and those of `bad` were refused. -/
structure Sweeping (P : System) (D : CStr) (w₀ : World) (calls : List ModCall) (done bad : List CStr)
    (ulNames : Ptr) (w : World) : Prop where
  owned : ∃ b cs, ulNames = arrayPtr b ∧ Owned (fun _ => False) w₀.heap w.heap b cs bad []
  made : CallsMade P D w₀ calls w
  asked : calls.filterMap ModCall.asked = done
  refused : calls.filterMap ModCall.refused = bad
  removals : calls.filterMap ModCall.removal = bad
  cwd : w.os.cwd = w₀.os.cwd
  opens : w.os.calls .opendir = w₀.os.calls .opendir
  removes : w.os.calls .remove = w₀.os.calls .remove + bad.length
  thread : ∃ c, w.thread = { w₀.thread with errCode := c }
  inits : w.inits + bad.length = w₀.inits + done.length

/-- What a pass does for an entry: it makes these calls, and adds these names to
    the array. -/
inductive Passed (P : System) (D name : CStr) (w : World) : List ModCall → List CStr → World → Prop where
  | keep {l : Loaded} {w' : World} (granted : w.heap.Grants)
      (loaded : loads P w.os.fs w.os.cwd (D.append name) = some l)
      (requests : w'.heap.requests = w.heap.requests + 1) (os : DlOnly w.os w'.os)
      (code : w'.thread.errCode = l.init.leaves w.inits none) :
      Passed P D name w [.load name (some (D.append name)) (.ok l.module)] [] w'
  | drop {w' : World} (refused : w.heap.Grants → loads P w.os.fs w.os.cwd (D.append name) = none)
      (copy : w.heap.grants (w.heap.requests + 1) = true)
      (room : w.heap.grants (w.heap.requests + 2) = true)
      (requests : w'.heap.requests = w.heap.requests + 4) (cwd : w'.os.cwd = w.os.cwd)
      (removes : w'.os.calls .remove = w.os.calls .remove + 1)
      (fs : w'.os.fs = (removedAt P w.os.cwd (pathAt D w.heap.grants (w.heap.requests + 3) name)
        (w.os.calls .remove) w.os.fs).getD w.os.fs)
      (code : w.heap.grants (w.heap.requests + 3) = true → w'.thread.errCode = none) :
      Passed P D name w
        [.load name (pathAt D w.heap.grants w.heap.requests name) (.error P.message),
          .remove name (pathAt D w.heap.grants (w.heap.requests + 3) name)
            (removeRet P w.os.cwd (pathAt D w.heap.grants (w.heap.requests + 3) name)
              (w.os.calls .remove) w.os.fs)] [name] w'

section Passes

variable {D name : CStr} {w₀ : World} {calls : List ModCall} {done bad rest : List CStr} {ulNames : Ptr}
  {len : Size} {nb : Nat} {ncs : List Nat}

theorem Sweeping.keeps (hs : Sweeping P D w₀ calls done bad ulNames w) : Keeps w₀.heap w.heap := by
  obtain ⟨b, cs, -, howned⟩ := hs.owned
  exact howned.leaves.keeps

/-- The loop has found no more bad entries than it has seen. -/
theorem Sweeping.few (hs : Sweeping P D w₀ calls done bad ulNames w) : bad.length ≤ done.length := by
  rw [← hs.refused, ← hs.asked]
  have hle : ∀ l : List ModCall, (l.filterMap ModCall.refused).length ≤ (l.filterMap ModCall.asked).length := by
    intro l
    induction l with
    | nil => exact Nat.le_refl _
    | cons c l ih =>
      match c with
      | .load _ _ (.error _) => exact Nat.succ_le_succ ih
      | .load _ _ (.ok _) => exact Nat.le_succ_of_le ih
      | .remove _ _ _ => exact ih
  exact hle calls

/-- The name of the next entry, where the listing put it. -/
theorem NamesAt.entry {h h' : Heap} (hn : NamesAt h nb ncs (done ++ name :: rest) []) (hk : Keeps h h') :
    ∃ c, NameBlock h' c name ∧
      loadPtr ((arrayPtr nb).add (8 * done.length)) h' = .ok (arrayPtr c) h' := by
  have hname : (done ++ name :: rest)[done.length]? = some name := by
    rw [List.getElem?_append_right (Nat.le_refl _), Nat.sub_self, List.getElem?_cons_zero]
  have hlt : done.length < ncs.length := by
    rw [hn.length, List.length_append, List.length_cons]
    omega
  have hc : ncs[done.length]? = some ncs[done.length] := List.getElem?_eq_getElem hlt
  exact ⟨_, (hn.keeps hk).names _ _ _ hc hname, (hn.keeps hk).elem hc⟩

/-- What a pass does with an entry that was refused. -/
def cleanRefused (P : System) (D : CStr) (names name : Ptr) (st : Ptr × Nat) :
    Exec World ((Ptr × Nat) ⊕ Listing) := do
  let (ulNames, i) := st
  let s ← onHeap (loadStr name)
  let ulModName ← onHeap (dgaNew (BitVec.ofNat 64 (s.length + 1)) 4)
  if ulModName = .null then
    let r ← cleanMemfail ulNames names
    pure (.inr r)
  else
    strcpy ulModName s
    let tmp ← onHeap (dgaGrow ulNames 1)
    if tmp = .null then
      let r ← cleanMemfail ulNames names
      pure (.inr r)
    else
      let len ← onHeap (dgaLen tmp)
      onHeap (storePtr (tmp.add (8 * (len - 1).toNat)) ulModName)
      let _ ← rmModule P s D
      pure (.inl (tmp, i + 1))

variable (hnames : NamesAt w₀.heap nb ncs (done ++ name :: rest) [])
  (hlen : len.toNat = (done ++ name :: rest).length)
include hnames hlen

/-- A pass up to the answer of `load_module`. -/
theorem cleanPass_asks (call : CallInit) (ulNames : Ptr) (hk : Keeps w₀.heap w.heap) :
    ∃ c, NameBlock w.heap c name ∧
      (∀ m w₁, loadModuleWith P call name D w = .ok (.ok m) w₁ →
        cleanPassWith P call D (arrayPtr nb) len (ulNames, done.length) w =
          .ok (.inl (ulNames, done.length + 1)) w₁) ∧
      (∀ e w₁, loadModuleWith P call name D w = .ok (.error e) w₁ →
        cleanPassWith P call D (arrayPtr nb) len (ulNames, done.length) w =
          cleanRefused P D (arrayPtr nb) (arrayPtr c) (ulNames, done.length) w₁) ∧
      ∀ e w₁, loadModuleWith P call name D w = .stop e w₁ →
        cleanPassWith P call D (arrayPtr nb) len (ulNames, done.length) w = .stop e w₁ := by
  obtain ⟨c, hblock, hptr⟩ := hnames.entry hk
  have hmore : done.length < len.toNat := by
    rw [hlen, List.length_append, List.length_cons]
    omega
  refine ⟨c, hblock, fun m w₁ hrun => ?_, fun e w₁ hrun => ?_, fun e w₁ hrun => ?_⟩
  · rw [cleanPassWith, if_pos hmore, bind_ok (onHeap_eq hptr), bind_ok (onHeap_eq hblock.load), bind_ok hrun]
    rfl
  · rw [cleanPassWith, if_pos hmore, bind_ok (onHeap_eq hptr), bind_ok (onHeap_eq hblock.load), bind_ok hrun]
    rfl
  · rw [cleanPassWith, if_pos hmore, bind_ok (onHeap_eq hptr), bind_ok (onHeap_eq hblock.load), bind_stop hrun]

/-- An entry that loads is passed over. -/
theorem Sweeping.keep (hs : Sweeping P D w₀ calls done bad ulNames w) (hg : w.heap.Grants) {l : Loaded}
    (hl : loads P w.os.fs w.os.cwd (D.append name) = some l) :
    ∃ w', cleanPass P D (arrayPtr nb) len (ulNames, done.length) w = .ok (.inl (ulNames, done.length + 1)) w' ∧
      Passed P D name w [.load name (some (D.append name)) (.ok l.module)] [] w' ∧
      Sweeping P D w₀ (calls ++ [.load name (some (D.append name)) (.ok l.module)]) (done ++ [name])
        (bad ++ []) ulNames w' := by
  obtain ⟨c, -, hpass, -⟩ := cleanPass_asks (P := P) (D := D) hnames hlen (fun _ => runInit)
    ulNames hs.keeps
  obtain ⟨r, w₁, hrun, hr, hthread, hinits, htried⟩ := loadModule_ok (P := P) hg name D hl
  subst hr
  obtain ⟨b, cs, hul, howned⟩ := hs.owned
  obtain ⟨-, hcwd, hcalls, -⟩ := htried.dlOnly.fields
  -- nothing is noted and nothing removed
  rw [List.append_nil]
  refine ⟨w₁, hpass _ _ hrun, .keep hg hl htried.requests htried.dlOnly (by rw [hthread]),
    ⟨b, cs, hul, (howned.after htried.leaves).weaken fun c hc => hc.elim id id⟩,
    hs.made.load ⟨(if_pos hg).symm, htried.os⟩ hrun, ?_, ?_, ?_, hcwd.trans hs.cwd,
    by rw [hcalls]; exact hs.opens, by rw [hcalls]; exact hs.removes, ?_, ?_⟩
  · rw [List.filterMap_append, hs.asked]
    rfl
  · rw [List.filterMap_append, hs.refused]
    exact List.append_nil bad
  · rw [List.filterMap_append, hs.removals]
    exact List.append_nil bad
  · obtain ⟨e, he⟩ := hs.thread
    rw [hthread, he]
    exact ⟨_, rfl⟩
  · rw [hinits, List.length_append, List.length_singleton, ← Nat.add_assoc, ← hs.inits]
    omega

omit hnames hlen in
/-- The name is copied and the copy put into the array; then `rm_module` is
    called. -/
theorem cleanRefused_removes {spare : Nat → Prop} {h₀ : Heap} {c b k : Nat} {cs : List Nat} (names : Ptr)
    (hblock : NameBlock w.heap c name)
    (ho : Owned spare h₀ w.heap b cs bad []) (hg : w.heap.Grants)
    (hg' : w.heap.grants (w.heap.requests + 1) = true) (hshort : name.length ≤ NAME_MAX)
    (hfew : bad.length ≤ DIR_MAX + 2) :
    ∃ h b' w', cleanRefused P D names (arrayPtr c) (arrayPtr b, k) w = .ok (.inl (arrayPtr b', k + 1)) w' ∧
      Owned spare h₀ h b' (cs ++ [w.heap.blocks.length]) (bad ++ [name]) [] ∧
      h.requests = w.heap.requests + 2 ∧
      rmModule P name D { w with heap := h } = .ok (removeRet P w.os.cwd (modPathArg D name h)
        (w.os.calls .remove) w.os.fs) w' ∧
      RmTried P { w with heap := h } (modPathArg D name h) w' := by
  obtain ⟨cells, cells', h₂, h₃, hnew, hstr, hgrow, hn, hstore, ho₃, hreq₃⟩ := ho.copy hg hg' hshort hfew
  have hlast : (BitVec.ofNat 64 (bad.length + 1) - 1).toNat = bad.length := by
    have hmax : DIR_MAX + 2 < 2 ^ 50 := by decide
    exact toNat_sub_one (toNat_ofNat_lt (by omega))
  obtain ⟨w₄, hrm, hrmt⟩ := rmModule_eq (P := P) name D { w with heap := h₃ }
  refine ⟨h₃, w.heap.blocks.length + 1, w₄, ?_, ho₃, hreq₃, hrm, hrmt⟩
  rw [cleanRefused, bind_ok (onHeap_eq hblock.load), bind_ok (onHeap_eq hnew),
    if_neg (arrayPtr_ne_null _), strcpy, bind_ok (onHeap_eq hstr), bind_ok (onHeap_eq hgrow),
    if_neg (arrayPtr_ne_null _), bind_ok (onHeap_eq hn), hlast, bind_ok (onHeap_eq hstore), bind_ok hrm]
  rfl

/-- An entry that is refused is noted and asked to be removed. -/
theorem Sweeping.drop (hs : Sweeping P D w₀ calls done bad ulNames w)
    (hl : w.heap.Grants → loads P w.os.fs w.os.cwd (D.append name) = none)
    (hself : ¬w.heap.Grants → (P.object P.self).name = none)
    (hcopy : w.heap.grants (w.heap.requests + 1) = true)
    (hroom : w.heap.grants (w.heap.requests + 2) = true) (hshort : name.length ≤ NAME_MAX)
    (hfew : done.length ≤ DIR_MAX + 2) :
    ∃ p new w', cleanPass P D (arrayPtr nb) len (ulNames, done.length) w = .ok (.inl (p, done.length + 1)) w' ∧
      Passed P D name w new [name] w' ∧
      Sweeping P D w₀ (calls ++ new) (done ++ [name]) (bad ++ [name]) p w' := by
  obtain ⟨c, hblock, -, hpass, -⟩ := cleanPass_asks (P := P) (D := D) hnames hlen (fun _ => runInit)
    ulNames hs.keeps
  obtain ⟨r, w₁, hrun, hr, hthread, hinits, htried⟩ := loadModule_refuses (P := P) name D hl hself
  subst hr
  obtain ⟨b, cs, hul, howned⟩ := hs.owned
  subst hul
  have hk₁ : Keeps w.heap w₁.heap := htried.keeps
  -- what is left of the pass starts behind the request of `load_module`
  have hgrants : ∀ j, w₁.heap.grants (w₁.heap.requests + j) = w.heap.grants (w.heap.requests + (j + 1)) := by
    intro j
    rw [hk₁.grants, htried.requests, Nat.add_assoc, Nat.add_comm 1 j]
  obtain ⟨h₃, b', w₄, hbody, ho₃, hreq₃, hrm, hrmt⟩ := cleanRefused_removes (P := P) (D := D) (k := done.length)
    (arrayPtr nb) (hblock.mono fun cells hat => hk₁.at_ c cells hat)
    ((howned.after htried.leaves).weaken fun c hc => hc.elim id id) ((hgrants 0).trans hcopy)
    ((hgrants 1).trans hroom) hshort (Nat.le_trans hs.few hfew)
  -- the path's request is the fourth of the pass
  have harg : modPathArg D name h₃ = pathAt D w.heap.grants (w.heap.requests + 3) name := by
    rw [modPathArg_eq, hreq₃, htried.requests, ho₃.leaves.keeps.grants, ← hs.keeps.grants]
  have hgrants₃ : h₃.grants h₃.requests = w.heap.grants (w.heap.requests + 3) := by
    rw [hreq₃, htried.requests, ho₃.leaves.keeps.grants, ← hs.keeps.grants]
  obtain ⟨hfs, hcwd, hcalls, -⟩ := htried.dlOnly.fields
  obtain ⟨hasks, hos₄, hfs₄, hleaves₄, hreq₄, ⟨e, hthread₄, hquiet⟩, hinits₄⟩ := hrmt
  rw [harg] at hrm hasks hfs₄
  replace hfs₄ : w₄.os.fs = (removedAt P w₁.os.cwd _ (w₁.os.calls .remove) w₁.os.fs).getD w₁.os.fs := hfs₄
  rw [hfs, hcwd, hcalls] at hrm hfs₄
  have hcwd₄ : w₄.os.cwd = w.os.cwd := by
    rw [hos₄]
    exact hcwd
  have hremoves : w₄.os.calls .remove = w.os.calls .remove + 1 := by
    rw [hos₄, ← hcalls]
    rfl
  refine ⟨_, _, w₄, (hpass _ _ hrun).trans hbody, .drop hl hcopy hroom ?_ hcwd₄ hremoves hfs₄ ?_,
    ⟨_, _, rfl, (ho₃.after hleaves₄).weaken fun c hc => hc.elim id id⟩, ?_, ?_, ?_, ?_, hcwd₄.trans hs.cwd,
    ?_, ?_, ?_, ?_⟩
  · rw [hreq₄]
    show h₃.requests + 1 = _
    rw [hreq₃, htried.requests]
  · intro hg
    rw [hthread₄]
    exact hquiet (hgrants₃.trans hg)
  · rw [List.append_cons]
    refine ((hs.made.load ⟨(modPathArg_eq D name w.heap).symm, ?_⟩ hrun).memory h₃).remove ⟨harg.symm, hasks⟩ hrm
    rw [← modPathArg_eq]
    exact htried.os
  · rw [List.filterMap_append, hs.asked]
    rfl
  · rw [List.filterMap_append, hs.refused]
    rfl
  · rw [List.filterMap_append, hs.removals]
    rfl
  · rw [hos₄]
    show w₁.os.calls .opendir = _
    rw [hcalls]
    exact hs.opens
  · rw [hremoves, hs.removes, List.length_append, List.length_singleton, Nat.add_assoc]
  · obtain ⟨e', he'⟩ := hs.thread
    rw [hthread₄, show World.thread { w₁ with heap := h₃ } = w₁.thread from rfl, hthread, he']
    exact ⟨_, rfl⟩
  · rw [hinits₄, show World.inits { w₁ with heap := h₃ } = w₁.inits from rfl, hinits, List.length_append,
      List.length_append, List.length_singleton, ← Nat.add_assoc, hs.inits, Nat.add_assoc]

omit hnames hlen in
/-- Without memory for the copy, or for room in the array, the pass goes
    wrong. -/
theorem cleanRefused_stops {c b k : Nat} {cs : List Nat} (names : Ptr) (hblock : NameBlock w.heap c name)
    (hn : NamesAt w.heap b cs bad []) (hno : w.heap.Grants → w.heap.grants (w.heap.requests + 1) = false)
    (hshort : name.length ≤ NAME_MAX) (hfew : bad.length ≤ DIR_MAX + 2) :
    ∃ h, cleanRefused P D names (arrayPtr c) (arrayPtr b, k) w = .stop .undefined { w with heap := h } := by
  rw [cleanRefused, bind_ok (onHeap_eq hblock.load)]
  by_cases hg : w.heap.Grants
  · obtain ⟨cells, cells', hnew, hstr, -⟩ := dgaNew_short hg hshort (name.length + 1) 4
      (by omega) (by omega) (by decide) (by decide)
    have hno' : ¬(w.heap.alloc cells').Grants := by
      show ¬w.heap.grants (w.heap.requests + 1) = true
      rw [hno hg]
      decide
    have hmax : DIR_MAX + 2 < 2 ^ 50 := by decide
    obtain ⟨h₂, hgrow, -, h₃, hfree⟩ := (hn.alloc cells').grow_denied hno' (by omega)
    refine ⟨h₃, ?_⟩
    rw [bind_ok (onHeap_eq hnew), if_neg (arrayPtr_ne_null _), strcpy, bind_ok (onHeap_eq hstr),
      bind_ok (onHeap_eq hgrow), if_pos rfl]
    -- `free_ul_mod_names` believes the header of the array that was not grown
    exact bind_stop (bind_stop (onHeap_stop hfree) _) _
  · obtain ⟨h₂, hstore⟩ := headless_store name w.heap.deny
    refine ⟨h₂, ?_⟩
    rw [bind_ok (onHeap_eq (dgaNew_denied hg _ _)), if_neg headless_ne_null]
    exact bind_stop (onHeap_stop hstore) _

/-- Without memory for either, the call of `load_module` is the last that is
    made. -/
theorem Sweeping.stop (hs : Sweeping P D w₀ calls done bad ulNames w)
    (hl : w.heap.Grants → loads P w.os.fs w.os.cwd (D.append name) = none)
    (hself : ¬w.heap.Grants → (P.object P.self).name = none)
    (hno : w.heap.grants (w.heap.requests + 1) = true → w.heap.grants (w.heap.requests + 2) = false)
    (hshort : name.length ≤ NAME_MAX) (hfew : done.length ≤ DIR_MAX + 2) :
    ∃ w' w₁ path, cleanPass P D (arrayPtr nb) len (ulNames, done.length) w = .stop .undefined w' ∧
      CallsMade P D w₀ (calls ++ [.load name path (.error P.message)]) w₁ ∧ DlOnly w.os w₁.os ∧
      w'.os = w₁.os := by
  obtain ⟨c, hblock, -, hpass, -⟩ := cleanPass_asks (P := P) (D := D) hnames hlen (fun _ => runInit)
    ulNames hs.keeps
  obtain ⟨r, w₁, hrun, hr, -, -, htried⟩ := loadModule_refuses (P := P) name D hl hself
  subst hr
  obtain ⟨b, cs, hul, howned⟩ := hs.owned
  subst hul
  have hk₁ : Keeps w.heap w₁.heap := htried.keeps
  obtain ⟨h, hstop⟩ := cleanRefused_stops (P := P) (D := D) (k := done.length) (arrayPtr nb)
    (hblock.mono fun cells hat => hk₁.at_ c cells hat) (howned.at_.keeps hk₁)
    (by rw [Grants, hk₁.grants, htried.requests]; exact hno) hshort (Nat.le_trans hs.few hfew)
  exact ⟨_, w₁, _, (hpass _ _ hrun).trans hstop, hs.made.load ⟨rfl, htried.os⟩ hrun, htried.dlOnly, rfl⟩

end Passes

/-! ## §3. The loop. -/

section Loop

variable {D : CStr} {w₀ : World} {names : List CStr} {len : Size} {nb : Nat} {ncs : List Nat}
  {ulNames : Ptr} {X : List ModCall → List CStr → List CStr → List CStr → World → Prop}
  {E : List ModCall → World → Prop}

/-- The loop has returned: every entry has been asked for, and the names are
    freed. -/
structure Swept (P : System) (D : CStr) (w₀ : World) (names : List CStr) (nb : Nat) (ncs : List Nat)
    (calls : List ModCall) (bad : List CStr) (w₁ : World) (r : Listing) (w' : World) : Prop where
  sweeping : Sweeping P D w₀ calls names bad r.array w₁
  len : r.len = some (BitVec.ofNat 64 bad.length)
  freed : w' = { w₁ with heap := w₁.heap.releaseAll (ncs ++ [nb]) }

/-- The pass that leaves the loop frees the names and returns the array. -/
theorem cleanPass_exits (call : CallInit) {spare : Nat → Prop} {b : Nat} {cs : List Nat} {bad : List CStr}
    (howned : Owned spare w₀.heap w.heap b cs bad []) (hnames : NamesAt w₀.heap nb ncs names [])
    (hlen : len.toNat = names.length) :
    cleanPassWith P call D (arrayPtr nb) len (arrayPtr b, names.length) w =
      .ok (.inr ⟨arrayPtr b, some (BitVec.ofNat 64 bad.length)⟩)
        { w with heap := w.heap.releaseAll (ncs ++ [nb]) } := by
  have hfree : freeModNames (arrayPtr nb) w.heap = .ok () (w.heap.releaseAll (ncs ++ [nb])) :=
    freeDirContent_frees (hnames.keeps howned.leaves.keeps)
  -- the names' blocks are older than the array's
  have hbad : NamesAt (w.heap.releaseAll (ncs ++ [nb])) b cs bad [] := by
    exact howned.at_.mono fun c hc cells => hnames.newer (howned.later c hc)
  have hn := hbad.len
  rw [List.length_nil, Nat.add_zero] at hn
  rw [cleanPassWith, if_neg (by rw [hlen]; exact Nat.lt_irrefl _), bind_ok (onHeap_eq hfree),
    bind_ok (onHeap_eq hn)]
  rfl

/-- All calls have been made by then. -/
theorem Sweeping.exit {calls : List ModCall} {bad : List CStr}
    (hs : Sweeping P D w₀ calls names bad ulNames w) (hnames : NamesAt w₀.heap nb ncs names [])
    (hlen : len.toNat = names.length) :
    Yields (cleanPass P D (arrayPtr nb) len (ulNames, names.length)) w fun r w' =>
      ∃ a, r = .inr a ∧ Swept P D w₀ names nb ncs calls bad w a w' := by
  obtain ⟨b, cs, rfl, howned⟩ := hs.owned
  exact Yields.of_eq (cleanPass_exits (fun _ => runInit) howned hnames hlen) ⟨_, rfl, hs, rfl, rfl⟩

/-- **The loop**, with what `X` says of the calls and the entries still to come:
    it returns, or a pass goes wrong. -/
theorem sweeping_loop (hself : w₀.heap.Generous ∨ (P.object P.self).name = none)
    (hnames : NamesAt w₀.heap nb ncs names []) (hlen : len.toNat = names.length)
    (hshort : ∀ n ∈ names, n.length ≤ NAME_MAX) (hfew : names.length ≤ DIR_MAX + 2)
    (hpass : ∀ calls done bad name rest new dropped ul w w', names = done ++ name :: rest →
      Sweeping P D w₀ calls done bad ul w → X calls done bad (name :: rest) w →
      Passed P D name w new dropped w' → X (calls ++ new) (done ++ [name]) (bad ++ dropped) rest w')
    (hstop : ∀ calls done bad name rest ul w w₁ path, names = done ++ name :: rest →
      Sweeping P D w₀ calls done bad ul w → X calls done bad (name :: rest) w →
      (w.heap.Grants → loads P w.os.fs w.os.cwd (D.append name) = none) →
      (w.heap.grants (w.heap.requests + 1) = true → w.heap.grants (w.heap.requests + 2) = false) →
      CallsMade P D w₀ (calls ++ [.load name path (.error P.message)]) w₁ → DlOnly w.os w₁.os →
      E (calls ++ [.load name path (.error P.message)]) w₁)
    (hs : Sweeping P D w₀ [] [] [] ulNames w) (hX : X [] [] [] names w) :
    Ends (loop maxPasses (cleanPass P D (arrayPtr nb) len) (ulNames, 0)) w
      (fun r w' => ∃ calls bad w₁, Swept P D w₀ names nb ncs calls bad w₁ r w' ∧ X calls names bad [] w₁)
      (fun w' => ∃ calls w₁, E calls w₁ ∧ w'.os = w₁.os) := by
  have hfuel : names.length < maxPasses := by
    have hmax : DIR_MAX + 2 < maxPasses := by decide
    omega
  refine Ends.over (I := fun done rest st w => st.2 = done.length ∧ ∃ calls bad,
      Sweeping P D w₀ calls done bad st.1 w ∧ X calls done bad rest w)
    ?_ ?_ hfuel ⟨rfl, [], [], hs, hX⟩
  · rintro done name rest ⟨ul, k⟩ w rfl ⟨hk, calls, bad, hs, hX⟩
    replace hk : k = done.length := hk
    subst hk
    have hcount : (done ++ [name]).length = done.length + 1 := by
      rw [List.length_append, List.length_singleton]
    have hname : name.length ≤ NAME_MAX := hshort name (List.mem_append_right _ List.mem_cons_self)
    have hdone : done.length ≤ DIR_MAX + 2 := by
      rw [List.length_append] at hfew
      omega
    have hself' : ¬w.heap.Grants → (P.object P.self).name = none := by
      intro hno
      exact hself.resolve_left fun hgen => hno (hs.keeps.generous hgen).grants
    -- an entry that loads, or one that is refused
    by_cases hl : w.heap.Grants → loads P w.os.fs w.os.cwd (D.append name) = none
    · by_cases hroom : w.heap.grants (w.heap.requests + 1) = true ∧ w.heap.grants (w.heap.requests + 2) = true
      · obtain ⟨p, new, w', hrun, hpassed, hs'⟩ := hs.drop hnames hlen hl hself' hroom.1 hroom.2 hname hdone
        exact .inl (Yields.of_eq hrun ⟨hcount.symm, _, _, hs', hpass _ _ _ _ _ _ _ _ _ _ rfl hs hX hpassed⟩)
      · have hno : w.heap.grants (w.heap.requests + 1) = true → w.heap.grants (w.heap.requests + 2) = false :=
          fun hg => Bool.eq_false_iff.mpr fun hg' => hroom ⟨hg, hg'⟩
        obtain ⟨w', w₁, path, hrun, hmade, hdl, hos⟩ := hs.stop hnames hlen hl hself' hno hname hdone
        exact .inr ⟨w', hrun, _, w₁, hstop _ _ _ _ _ _ _ _ _ rfl hs hX hl hno hmade hdl, hos⟩
    · obtain ⟨hg, hl⟩ := Classical.not_imp.mp hl
      obtain ⟨l, hl⟩ := Option.ne_none_iff_exists'.mp hl
      obtain ⟨w', hrun, hpassed, hs'⟩ := hs.keep hnames hlen hg hl
      exact .inl (Yields.of_eq hrun ⟨hcount.symm, _, _, hs', hpass _ _ _ _ _ _ _ _ _ _ rfl hs hX hpassed⟩)
  · rintro ⟨ul, k⟩ w ⟨hk, calls, bad, hs, hX⟩
    replace hk : k = names.length := hk
    subst hk
    refine .inl ((hs.exit hnames hlen).mono ?_)
    rintro r w' ⟨a, rfl, hswept⟩
    exact ⟨a, rfl, calls, bad, w, hswept, hX⟩

end Loop

/-! ## §4. With memory granted. -/

/-- The entries that `load_module` refuses, each of which is removed before the
    next is asked for; the first removal is the `k`-th. -/
def refusedNames (P : System) (cwd : Nat) (D : CStr) : List CStr → Nat → FileSys → List CStr
  | [], _, _ => []
  | n :: ns, k, fs =>
    match loads P fs cwd (D.append n) with
    | some _ => refusedNames P cwd D ns k fs
    | none => n :: refusedNames P cwd D ns (k + 1) ((removed P cwd (D.append n) k fs).getD fs)

/-- Each call was made with the name behind `D`; what was refused is what
    `refusedNames` says. -/
structure Provided (P : System) (D : CStr) (w₀ : World) (names : List CStr) (calls : List ModCall)
    (bad rest : List CStr) (w : World) : Prop where
  paths : ∀ c ∈ calls, c.Pathed D
  fs : w.os.fs = afterRemovals P w₀.os.cwd D bad (w₀.os.calls .remove) w₀.os.fs
  names : refusedNames P w₀.os.cwd D names (w₀.os.calls .remove) w₀.os.fs =
    bad ++ refusedNames P w₀.os.cwd D rest (w.os.calls .remove) w.os.fs
  code : InitsTidy P → w₀.thread.errCode = none → w.thread.errCode = none

section Generous

variable {D name : CStr} {w₀ w' : World} {calls new : List ModCall} {names done bad dropped rest : List CStr}
  {ulNames : Ptr}

theorem Provided.next (hgen : w₀.heap.Generous) (hs : Sweeping P D w₀ calls done bad ulNames w)
    (hp : Provided P D w₀ names calls bad (name :: rest) w) (hpassed : Passed P D name w new dropped w') :
    Provided P D w₀ names (calls ++ new) (bad ++ dropped) rest w' := by
  obtain ⟨hpaths, hfs, hnames, hcode⟩ := hp
  have hgen' := hs.keeps.generous hgen
  cases hpassed with
  | @keep l w' hg hl hreq hos hcode' =>
    obtain ⟨hfs', hcwd', hcalls', -⟩ := hos.fields
    rw [List.append_nil]
    refine ⟨?_, hfs'.trans hfs, ?_, fun htidy _ => ?_⟩
    · intro c hc
      rcases List.mem_append.mp hc with hc | hc
      · exact hpaths c hc
      · rw [List.mem_singleton.mp hc]
        rfl
    · -- `refusedNames` passes over it as well
      rw [hnames, hfs', hcalls', refusedNames, ← hs.cwd, hl]
    · rw [hcode', htidy.loaded hl]
  | @drop w' hl hcopy hroom hreq hcwd hremoves hfs' hcode' =>
    -- with memory both calls are made with the name behind `D`
    have hpath : ∀ q, w.heap.requests ≤ q → pathAt D w.heap.grants q name = some (D.append name) :=
      fun q hq => pathAt_generous hgen' hq D name
    rw [hpath _ (Nat.le_add_right _ 3)] at hfs' ⊢
    rw [hpath _ (Nat.le_refl _)]
    replace hfs' : w'.os.fs = (removed P w.os.cwd (D.append name) (w.os.calls .remove) w.os.fs).getD w.os.fs :=
      hfs'
    refine ⟨?_, ?_, ?_, fun _ _ => hcode' (hgen' _ (Nat.le_add_right _ 3))⟩
    · intro c hc
      rcases List.mem_append.mp hc with hc | hc
      · exact hpaths c hc
      · simp only [List.mem_cons, List.not_mem_nil, or_false] at hc
        rcases hc with rfl | rfl <;> rfl
    · rw [afterRemovals_concat, ← hfs, ← hs.removes, ← hs.cwd]
      exact hfs'
    · rw [hnames, hfs', hremoves, refusedNames, ← hs.cwd, hl hgen'.grants, List.append_assoc]
      rfl

/-- The loop with memory granted. -/
theorem sweeping_granted {d nb : Nat} {ncs : List Nat} {fs : FileSys} (hgen : w₀.heap.Generous)
    (hnames : NamesAt w₀.heap nb ncs (visible (P.order fs d)) []) {cells : List Cell}
    (hul : Owned (fun _ => False) w₀.heap (w₀.heap.alloc cells) w₀.heap.blocks.length [] [] []) :
    Yields (loop maxPasses (cleanPass P D (arrayPtr nb) (BitVec.ofNat 64 (visible (P.order fs d)).length))
        (arrayPtr w₀.heap.blocks.length, 0)) { w₀ with heap := w₀.heap.alloc cells } fun r w' =>
      ∃ calls bad w₁, Swept P D w₀ (visible (P.order fs d)) nb ncs calls bad w₁ r w' ∧
        Provided P D w₀ (visible (P.order fs d)) calls bad [] w₁ := by
  have hfew : (visible (P.order fs d)).length ≤ DIR_MAX + 2 :=
    Nat.le_trans (length_visible _) (order_length P _ _)
  have hends := sweeping_loop (P := P) (D := D) (w := { w₀ with heap := w₀.heap.alloc cells })
    (X := fun calls _ bad rest w => Provided P D w₀ (visible (P.order fs d)) calls bad rest w)
    (E := fun _ _ => False) (.inl hgen) hnames hnames.toNat_length (fun n hn => short_visible hn) hfew
    (fun calls done bad name rest new dropped ul w w' _ hs hp hpassed => hp.next hgen hs hpassed)
    (fun calls done bad name rest ul w w₁ path _ hs _ _ hno _ _ => ?_)
    ⟨⟨_, _, rfl, hul⟩, .memory _ .none, rfl, rfl, rfl, rfl, rfl, rfl, ⟨_, rfl⟩, rfl⟩
    ⟨fun _ hc => absurd hc List.not_mem_nil, rfl, rfl, fun _ h => h⟩
  · rcases hends with hyields | ⟨w', -, calls, w₁, hfalse, -⟩
    · exact hyields
    · exact hfalse.elim
  · -- no request is refused
    have hgen' := hs.keeps.generous hgen
    have hrefused := hno (hgen' _ (Nat.le_add_right _ 1))
    rw [hgen' _ (Nat.le_add_right _ 2)] at hrefused
    cases hrefused

variable {k n : Nat} {r : Listing}

/-- What `clean_ul_mod_names` has done and returns, of a directory with these
    entries whose path has `n` words. -/
structure Selected (P : System) (D : CStr) (k n : Nat) (w : World) (names : List CStr)
    (calls : List ModCall) (bad : List CStr) (r : Listing) (w' : World) : Prop where
  made : ∃ w₁ w₂, w₁.os = w.os.listed ∧ w₁.inits = w.inits ∧ CallsMade P D w₁ calls w₂ ∧ w'.os = w₂.os
  asked : calls.filterMap ModCall.asked = names
  refused : calls.filterMap ModCall.refused = bad
  removals : calls.filterMap ModCall.removal = bad
  paths : ∀ c ∈ calls, c.Pathed D
  removes : w'.os.calls .remove = w.os.calls .remove + bad.length
  names_eq : bad = refusedNames P w.os.cwd D names (w.os.calls .remove) w.os.fs
  result : ∃ b cs, r = ⟨arrayPtr b, some (BitVec.ofNat 64 bad.length)⟩ ∧
    Owned (fun _ => 2 ^ 64 ≤ n) w.heap w'.heap b cs bad []
  fs : w'.os.fs = afterRemovals P w.os.cwd D bad (w.os.calls .remove) w.os.fs
  cwd : w'.os.cwd = w.os.cwd
  opens : w'.os.calls .opendir = w.os.calls .opendir + 1
  inits : w'.inits + bad.length = w.inits + names.length
  noError : InitsTidy P → w'.thread.errCode = none
  thread : Rests k w.thread w'.thread

/-- **`clean_ul_mod_names`** of a directory that is opened, with memory granted. -/
theorem cleanUlModNames_selects {i : Fin STACK_SIZE} (hroom : i.val + 3 < STACK_SIZE)
    (hrest : Rests i.val w.thread w.thread) (hgen : w.heap.Generous) {t : CStr} {later : List CStr} {d : Nat}
    (hwords : P.wordexp w.os.fs w.os.cwd D = some (t :: later)) (hopens : opens P w.os t = .ok d) :
    Yields (cleanUlModNames P D) w fun r w' => ∃ calls bad,
      Selected P D i.val (t :: later).length w (visible (P.order w.os.fs d)) calls bad r w' := by
  let w₁ : World := { w with thread := { w.thread with errCode := none } }
  refine Yields.step (onThread_eq (errmClear_eq w.thread)) ((dirContent_granted (w := w₁) hroom
    (hrest.setErr none) hgen hwords hopens).bind ?_)
  rintro names w₂ ⟨⟨nb, ncs, rfl, hnames⟩, hos₂, hrests₂, herr₂, hinits₂⟩
  replace hos₂ : w₂.os = w.os.listed := hos₂
  replace hinits₂ : w₂.inits = w.inits := hinits₂
  have hgen₂ := hnames.leaves.keeps.generous hgen
  refine Yields.step (errored_false herr₂) ?_
  obtain ⟨cells, hnew, hul⟩ := Owned.new hgen₂.grants (Leaves.refl w₂.heap)
  refine Yields.step (onHeap_eq hnew) ?_
  rw [if_neg (arrayPtr_ne_null _)]
  refine (sweeping_granted hgen₂ hnames.at_ hul).mono ?_
  rintro ⟨p, m⟩ w' ⟨calls, bad, w₃, ⟨hs, hm, hw'⟩, hp⟩
  obtain ⟨b, cs, hpb, howned⟩ := hs.owned
  replace hpb : p = arrayPtr b := hpb
  replace hm : m = some (BitVec.ofNat 64 bad.length) := hm
  subst hpb hm hw'
  -- what the loop says of `w₂`, said of the world before the call
  have hremoves := hs.removes
  have hopens' := hs.opens
  have hinits := hs.inits
  have hcwd := hs.cwd
  have hfs := hp.fs
  have hrefused := hp.names
  rw [hos₂] at hremoves hopens' hfs hrefused hcwd
  rw [hinits₂] at hinits
  refine ⟨calls, bad, ⟨w₂, w₃, hos₂, hinits₂, hs.made, rfl⟩, hs.asked, hs.refused, hs.removals, hp.paths,
    hremoves, ?_, ⟨b, cs, rfl, ?_⟩, hfs, hcwd, hopens', hinits, fun htidy => hp.code htidy herr₂, ?_⟩
  · refine Eq.trans ?_ hrefused.symm
    exact (List.append_nil bad).symm
  · -- the names go, the array stays
    obtain ⟨-, hleaves⟩ := (hnames.after howned.leaves).frees
    refine ⟨howned.at_.mono fun c hc cells => hnames.at_.newer (howned.later c hc), hleaves.weaken ?_,
      fun c hc => Nat.le_trans hnames.leaves.keeps.length (howned.later c hc)⟩
    rintro c (hc | hc | hc)
    · exact .inr hc
    · exact .inl hc
    · exact hc.elim
  · obtain ⟨c, hthread⟩ := hs.thread
    show Rests i.val w.thread w₃.thread
    rw [hthread]
    exact hrests₂.setErr c

end Generous

end Prom.Modules
