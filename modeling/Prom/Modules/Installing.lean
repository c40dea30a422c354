/-
  Prom.Modules.Installing — what `installed_mods` returns.

  The visible entries are loaded one after the other, each into a place of its
  own in an array that grows.  The first that leaves an error code ends it: the
  array is freed and nothing is returned.  `Building` is the state before the
  end, `GaveUp` the state after such an end; `Attempted` is what has been asked
  of the system by then.

  Main results:
    * `installedMods_run` — all modules, or nothing, for any entries and any
      `init`s.
    * `installedMods_yields` — when every visible entry loads.
    * `installedMods_refused` — when the directory is not opened.
-/
import Prom.Modules.Loading

namespace Prom.Modules

open Prom.C Exec Heap Dga Errm Posix

variable {P : System} {w : World}

/-! ## §1. Arrays of modules. -/

/-- `p` is an array of `struct module`, followed by the elements `room`. -/
def HoldsMods (own : Nat → Prop) (h : Heap) (p : Ptr) (mods : List Module) (room : List (List Cell)) :
    Prop :=
  ∃ b a, p = arrayPtr b ∧ own b ∧ Holds h b a ∧ a.szt = moduleSize ∧
    a.elems = mods.map Module.cells ++ room

theorem length_loaded (l : Loaded) : l.module.cells.length = moduleSize.toNat := by
  simp only [Loaded.module, Module.cells, List.length_append, length_encodePtr, l.init.cbs_length]
  rfl

/-- The array is block `b`. -/
def ModsAt (h : Heap) (b : Nat) (mods : List Module) (room : List (List Cell)) : Prop :=
  ∃ a, Holds h b a ∧ a.szt = moduleSize ∧ a.elems = mods.map Module.cells ++ room

section Mods

variable {own own' : Nat → Prop} {h h' : Heap} {p : Ptr} {mods : List Module} {m : Module}
  {room : List (List Cell)} {b : Nat}

theorem ModsAt.holds (hm : ModsAt h b mods room) (hb : own b) :
    HoldsMods own h (arrayPtr b) mods room :=
  hm.elim fun a ha => ⟨b, a, rfl, hb, ha⟩

theorem ModsAt.mono (hm : ModsAt h b mods room) (hat : ∀ cells, h.At b cells → h'.At b cells) :
    ModsAt h' b mods room :=
  hm.elim fun a ha => ⟨a, holds_mono ha.1 hat, ha.2⟩

theorem ModsAt.live (hm : ModsAt h b mods room) : ∃ cells, h.At b cells := by
  obtain ⟨a, ⟨cap, hb⟩, -⟩ := hm
  exact ⟨_, hb.at_⟩

theorem ModsAt.free (hm : ModsAt h b mods room) : dgaFree (arrayPtr b) h = .ok () (h.release b) :=
  hm.elim fun _ ha => dgaFree_holds ha.1

theorem HoldsMods.ne_null (hm : HoldsMods own h p mods room) : p ≠ .null := by
  obtain ⟨b, a, rfl, -⟩ := hm
  exact arrayPtr_ne_null b

theorem HoldsMods.len (hm : HoldsMods own h p mods room) :
    dgaLen p h = .ok (BitVec.ofNat 64 (mods.length + room.length)) h ∧
      (BitVec.ofNat 64 (mods.length + room.length)).toNat = mods.length + room.length := by
  obtain ⟨b, a, rfl, -, hh, -, helems⟩ := hm
  have ha : a.len = mods.length + room.length := by
    rw [Arr.len, helems, List.length_append, List.length_map]
  rw [← ha]
  exact ⟨dgaLen_holds hh, toNat_ofNat_len a⟩

/-- **What the user of an array of modules reads.** -/
theorem HoldsMods.read (hm : HoldsMods own h p mods room) {k : Nat} (hk : mods[k]? = some m) :
    load (p.add (moduleSize.toNat * k)) moduleSize.toNat h = .ok m.cells h := by
  obtain ⟨b, a, rfl, -, hh, hszt, helems⟩ := hm
  have hlt := (List.getElem?_eq_some_iff.mp hk).1
  have helem : a.elems[k]? = some m.cells := by
    rw [helems, List.getElem?_append_left (by rwa [List.length_map]), List.getElem?_map, hk]
    rfl
  have hload := load_holds hh helem
  rwa [hszt] at hload

theorem HoldsMods.free (hm : HoldsMods own h p mods room) :
    ∃ h', dgaFree p h = .ok () h' ∧ Spares own h h' := by
  obtain ⟨b, a, rfl, hb, hat⟩ := hm
  exact ⟨_, ModsAt.free ⟨a, hat⟩, (Spares.refl own h).release hb⟩

end Mods

/-- Of what came after `h₀`, the array is live, and besides it only blocks of
    `spare`. -/
structure OwnedMods (spare : Nat → Prop) (h₀ h : Heap) (b : Nat) (mods : List Module)
    (room : List (List Cell)) : Prop where
  at_ : ModsAt h b mods room
  leaves : Leaves (fun c => c = b ∨ spare c) h₀ h
  later : h₀.blocks.length ≤ b

section OwnedMods

variable {spare own : Nat → Prop} {h₀ h h' : Heap} {b : Nat} {mods : List Module} {m : Module}
  {room : List (List Cell)}

theorem OwnedMods.new (hg : h.Grants) :
    ∃ cells, dgaNew 0 moduleSize h = .ok (arrayPtr h.blocks.length) (h.alloc cells) ∧
      OwnedMods (fun _ => False) h (h.alloc cells) h.blocks.length [] [] := by
  have hnew : Arr.new? moduleSize (0 : Size).toNat = some ⟨moduleSize, [], by simp, by decide⟩ := by
    rw [Arr.new?, dif_pos (by decide)]
    rfl
  obtain ⟨cells, hrun, hh⟩ := dgaNew_holds hg hnew
  exact ⟨cells, hrun, ⟨_, hh, rfl, rfl⟩, ((Leaves.refl h).alloc cells).weaken fun c hc => hc.symm,
    Nat.le_refl _⟩

theorem OwnedMods.holds (ho : OwnedMods spare h₀ h b mods room) :
    HoldsMods (h₀.blocks.length ≤ ·) h (arrayPtr b) mods room := ho.at_.holds ho.later

/-- Work that leaves nothing. -/
theorem OwnedMods.after (ho : OwnedMods spare h₀ h b mods room) (hl : Leaves (fun _ => False) h h') :
    OwnedMods spare h₀ h' b mods room :=
  ⟨ho.at_.mono (hl.keeps.at_ b), (ho.leaves.trans hl).weaken fun _ hc => hc.resolve_right id, ho.later⟩

/-- Room for one more module.  The array moves. -/
theorem OwnedMods.grow (ho : OwnedMods spare h₀ h b mods []) (hg : h.Grants)
    (hfits : Fits moduleSize (mods.length + 1)) :
    ∃ cells, dgaGrow (arrayPtr b) 1 h =
        .ok (arrayPtr h.blocks.length) ((h.release b).alloc cells) ∧
      OwnedMods spare h₀ ((h.release b).alloc cells) h.blocks.length mods [fresh moduleSize.toNat] := by
  obtain ⟨a, hh, hszt, helems⟩ := ho.at_
  rw [List.append_nil] at helems
  have hlen : a.len = mods.length := by rw [Arr.len, helems, List.length_map]
  obtain ⟨cells, a', hrun, hh', hszt', helems'⟩ := dgaGrow_one hh hg (by rw [hszt, hlen]; exact hfits)
  refine ⟨cells, hrun, ⟨a', hh', hszt'.trans hszt, by rw [helems', helems, hszt]⟩, ?_,
    ho.leaves.keeps.length⟩
  refine ((ho.leaves.release ho.later).alloc cells).weaken ?_
  rintro c (⟨hc, hne⟩ | hc)
  · exact .inr (hc.resolve_left hne)
  · rw [length_release] at hc
    exact .inl hc

/-- The room is filled. -/
theorem OwnedMods.store {e : List Cell} (ho : OwnedMods spare h₀ h b mods [e])
    (hcells : m.cells.length = moduleSize.toNat) :
    ∃ cells, store ((arrayPtr b).add (moduleSize.toNat * mods.length)) m.cells h = .ok () (h.put b cells) ∧
      OwnedMods spare h₀ (h.put b cells) b (mods ++ [m]) [] := by
  obtain ⟨a, hh, hszt, helems⟩ := ho.at_
  obtain ⟨cells, a', hrun, hh', hszt', helems'⟩ := store_last hh helems (by rw [hszt]; exact hcells)
  rw [hcells, List.length_map] at hrun
  refine ⟨cells, hrun, ⟨a', hh', hszt'.trans hszt, ?_⟩, ho.leaves.put ho.later (.inl rfl) cells, ho.later⟩
  rw [helems', List.append_nil, List.map_append, List.map_singleton]

theorem OwnedMods.free (ho : OwnedMods spare h₀ h b mods room) :
    dgaFree (arrayPtr b) h = .ok () (h.release b) ∧ Leaves spare h₀ (h.release b) :=
  ⟨ho.at_.free, (ho.leaves.release ho.later).weaken fun _ hc => hc.1.resolve_left hc.2⟩

end OwnedMods

/-! ## §2. `installed_mods`. -/

/-- Run one after the other, with `k` runs before them, none of these modules'
    `init`s leaves an error code. -/
def Quiet (ls : List Loaded) (k : Nat) : Prop :=
  ∀ (j : Nat) (l : Loaded), ls[j]? = some l → l.init.leaves (k + j) none = none

/-- Each of the names loads, and these are the objects. -/
def AllLoad (P : System) (fs : FileSys) (cwd : Nat) (D : CStr) (names : List CStr)
    (ls : List Loaded) : Prop :=
  names.map (fun n => loads P fs cwd (D.append n)) = ls.map some

theorem AllLoad.length {fs : FileSys} {cwd : Nat} {D : CStr} {names : List CStr} {ls : List Loaded}
    (h : AllLoad P fs cwd D names ls) : names.length = ls.length := by
  have hlen := congrArg List.length h
  rwa [List.length_map, List.length_map] at hlen

theorem AllLoad.get {fs : FileSys} {cwd : Nat} {D : CStr} {names : List CStr} {ls : List Loaded}
    (h : AllLoad P fs cwd D names ls) {k : Nat} {n : CStr} (hn : names[k]? = some n) :
    ∃ l, ls[k]? = some l ∧ loads P fs cwd (D.append n) = some l := by
  have hk := congrArg (fun xs => xs[k]?) h
  simp only [List.getElem?_map, hn, Option.map_some] at hk
  cases hl : ls[k]? with
  | none =>
    rw [hl] at hk
    cases hk
  | some l =>
    rw [hl] at hk
    exact ⟨l, rfl, Option.some.inj hk⟩

theorem AllLoad.unique {fs : FileSys} {cwd : Nat} {D : CStr} {names : List CStr} {ls ls' : List Loaded}
    (h : AllLoad P fs cwd D names ls) (h' : AllLoad P fs cwd D names ls') : ls = ls' :=
  List.map_injective_iff.mpr (fun _ _ => Option.some.inj) (h.symm.trans h')

theorem AllLoad.concat {fs : FileSys} {cwd : Nat} {D : CStr} {names : List CStr} {ls : List Loaded}
    {name : CStr} {l : Loaded} (h : AllLoad P fs cwd D names ls)
    (hl : loads P fs cwd (D.append name) = some l) :
    AllLoad P fs cwd D (names ++ [name]) (ls ++ [l]) := by
  rw [AllLoad, List.map_append, List.map_append, h, List.map_singleton, List.map_singleton, hl]

/-- Names that all load have objects. -/
theorem allLoad_of_isSome {fs : FileSys} {cwd : Nat} {D : CStr} {names : List CStr}
    (h : ∀ n ∈ names, (loads P fs cwd (D.append n)).isSome) :
    ∃ ls, AllLoad P fs cwd D names ls := by
  induction names with
  | nil => exact ⟨[], rfl⟩
  | cons n names ih =>
    obtain ⟨l, hl⟩ := Option.isSome_iff_exists.mp (h n List.mem_cons_self)
    obtain ⟨ls, hls⟩ := ih fun m hm => h m (List.mem_cons_of_mem n hm)
    refine ⟨l :: ls, ?_⟩
    rw [AllLoad, List.map_cons, List.map_cons, hl, show List.map _ names = _ from hls]

/-- Listed in order, with `k` runs of `init` functions before them, none of the
    modules of directory `d` leaves an error code. -/
def QuietListing (P : System) (fs : FileSys) (cwd : Nat) (D : CStr) (d k : Nat) : Prop :=
  ∀ (j : Nat) (n : CStr) (l : Loaded), (visible (P.order fs d))[j]? = some n →
    loads P fs cwd (D.append n) = some l → l.init.leaves (k + j) none = none

theorem quietListing_iff {fs : FileSys} {cwd d k : Nat} {D : CStr} {ls : List Loaded}
    (h : AllLoad P fs cwd D (visible (P.order fs d)) ls) :
    QuietListing P fs cwd D d k ↔ Quiet ls k := by
  constructor
  · intro hq j l hl
    have hlt : j < (visible (P.order fs d)).length := by
      rw [h.length]
      exact (List.getElem?_eq_some_iff.mp hl).1
    obtain ⟨l', hl', hload⟩ := h.get (List.getElem?_eq_getElem hlt)
    rw [hl] at hl'
    cases hl'
    exact hq j _ l (List.getElem?_eq_getElem hlt) hload
  · intro hq j n l hn hload
    obtain ⟨l', hl', hload'⟩ := h.get hn
    rw [hload] at hload'
    cases hload'
    exact hq j l hl'

theorem Quiet.concat {ls : List Loaded} {l : Loaded} {k : Nat} (h : Quiet ls k)
    (hl : l.init.leaves (k + ls.length) none = none) : Quiet (ls ++ [l]) k := by
  intro j l' hj
  rcases Nat.lt_trichotomy j ls.length with hlt | heq | hgt
  · rw [List.getElem?_append_left hlt] at hj
    exact h j l' hj
  · subst heq
    rw [List.getElem?_concat_length] at hj
    cases hj
    exact hl
  · rw [List.getElem?_eq_none (by rw [List.length_append, List.length_singleton]; omega)] at hj
    cases hj

/-- The loop of `installed_mods` has loaded the first `k` modules. -/
structure Installing (w₀ : World) (ls : List Loaded) (st : Ptr × Nat) (w : World) : Prop where
  le : st.2 ≤ ls.length
  mods : HoldsMods (w₀.heap.blocks.length ≤ ·) w.heap st.1 ((ls.take st.2).map Loaded.module) []
  heap : Keeps w₀.heap w.heap
  os : DlOnly w₀.os w.os
  thread : ∃ c, w.thread = { w₀.thread with errCode := c }
  inits : w.inits = w₀.inits + st.2

/-- What is left when the loop has been left. -/
structure Installed (w₀ w : World) : Prop where
  heap : Keeps w₀.heap w.heap
  os : DlOnly w₀.os w.os
  thread : ∃ c, w.thread = { w₀.thread with errCode := c }

/-- These names have been asked for since `w₀`, in this order; memory was requested
    for the array, and twice for each name. -/
structure Attempted (P : System) (D : CStr) (w₀ : World) (tried : List CStr) (w : World) : Prop where
  calls : CallsMade P D w₀ (tried.map (loadCall P w₀.os.fs w₀.os.cwd D)) w
  opened : w.os = openAll P D tried w₀.os
  requests : w.heap.requests = w₀.heap.requests + 1 + 2 * tried.length

/-- The names of `done` have been loaded; these are their objects. -/
structure Building (P : System) (D : CStr) (w₀ : World) (done : List CStr) (ls : List Loaded)
    (st : Ptr × Nat) (w : World) : Prop extends Installing w₀ ls st w where
  index : st.2 = done.length
  loaded : AllLoad P w₀.os.fs w₀.os.cwd D done ls
  quiet : Quiet ls w₀.inits
  owned : ∃ b, st.1 = arrayPtr b ∧
    OwnedMods (fun _ => False) w₀.heap w.heap b (ls.map Loaded.module) []
  attempted : Attempted P D w₀ done w
  noError : w.thread.errCode = none

/-- The last of the names left the error code `e`. -/
structure GaveUp (P : System) (D : CStr) (w₀ : World) (tried : List CStr) (e : ErrorCode) (w : World) :
    Prop extends Installed w₀ w where
  attempted : Attempted P D w₀ tried w
  leaves : Leaves (fun _ => False) w₀.heap w.heap
  error : w.thread.errCode = some e

section Passes

variable {w₀ : World} {ls : List Loaded} {names done rest : List CStr} {D name : CStr}
  {own : Nat → Prop} {namesArr : Ptr} {len : Size} {st : Ptr × Nat}

/-- Room is made, the next name is asked for, and what follows is work on the
    memory. -/
theorem Attempted.next {w₁ : World} {h h' : Heap} (ha : Attempted P D w₀ done w) (hg : h.Grants)
    (hreq : h.requests = w.heap.requests + 1)
    (hrun : loadModule P name D { w with heap := h } =
      .ok (answer P (loads P w₀.os.fs w₀.os.cwd (D.append name))) w₁)
    (htried : LoadTried P { w with heap := h } (some (D.append name)) w₁)
    (hreq' : h'.requests = w₁.heap.requests) :
    Attempted P D w₀ (done ++ [name]) { w₁ with heap := h' } := by
  refine ⟨?_, ?_, ?_⟩
  · rw [List.map_append, List.map_singleton]
    exact (CallsMade.load (ha.calls.memory h) ⟨(if_pos hg).symm, htried.os⟩ hrun).memory h'
  · rw [openAll_concat, ← ha.opened]
    exact htried.os
  · show h'.requests = _
    rw [hreq', htried.requests, List.length_append, List.length_singleton]
    show h.requests + 1 = _
    rw [hreq, ha.requests]
    omega

/-- What a pass has when `load_module` has answered: room for the module in block
    `b`, and the answer. -/
structure Answered (P : System) (D : CStr) (w₀ : World) (done : List CStr) (ls : List Loaded) (name : CStr)
    (b : Nat) (w₁ : World) : Prop where
  owned : OwnedMods (fun _ => False) w₀.heap w₁.heap b (ls.map Loaded.module) [fresh moduleSize.toNat]
  os : DlOnly w₀.os w₁.os
  thread : ∃ c, w₁.thread = { w₀.thread with errCode := c }
  code : w₁.thread.errCode = loadCode P w₀.os.fs w₀.os.cwd D (w₀.inits + done.length) name
  inits : w₁.inits = if (loads P w₀.os.fs w₀.os.cwd (D.append name)).isSome then
    w₀.inits + done.length + 1 else w₀.inits + done.length
  attempted : ∀ h', h'.requests = w₁.heap.requests → Attempted P D w₀ (done ++ [name]) { w₁ with heap := h' }

/-- The bytes that are stored: those of the module, or of a struct nobody has
    filled in. -/
def answerCells : Except Ptr Module → List Cell
  | .ok m => m.cells
  | .error _ => fresh moduleSize.toNat

/-- A pass makes room for a module in a new block `c` and asks for the name; what
    it does then goes by the error code. -/
theorem installedModsPass_asks (call : CallInit) {spare : Nat → Prop} {h₀ : Heap} {b k : Nat}
    {mods : List Module} (howned : OwnedMods spare h₀ w.heap b mods []) (hg : w.heap.Grants)
    (hfits : Fits moduleSize (mods.length + 1)) (hnames : HoldsNames own w.heap namesArr names [])
    (hown : ∀ c, own c → c ≠ b) (hname : names[k]? = some name) (hlt : k < len.toNat) :
    ∃ c h₁, OwnedMods spare h₀ h₁ c mods [fresh moduleSize.toNat] ∧
      (c = w.heap.blocks.length ∧ ∃ cells, h₁ = (w.heap.release b).alloc cells) ∧
      (∀ r w₁ n h', loadModuleWith P call name D { w with heap := h₁ } = .ok r w₁ →
        w₁.thread.errCode = none → dgaLen (arrayPtr c) w₁.heap = .ok n w₁.heap →
        store ((arrayPtr c).add (moduleSize.toNat * (n - 1).toNat)) (answerCells r) w₁.heap = .ok () h' →
        installedModsPassWith P call D namesArr len (arrayPtr b, k) w =
          .ok (.inl (arrayPtr c, k + 1)) { w₁ with heap := h' }) ∧
      (∀ r w₁ e h', loadModuleWith P call name D { w with heap := h₁ } = .ok r w₁ →
        w₁.thread.errCode = some e → dgaFree (arrayPtr c) w₁.heap = .ok () h' →
        installedModsPassWith P call D namesArr len (arrayPtr b, k) w =
          .ok (.inr ⟨.null, none⟩) { w₁ with heap := h' }) ∧
      ∀ e w₁, loadModuleWith P call name D { w with heap := h₁ } = .stop e w₁ →
        installedModsPassWith P call D namesArr len (arrayPtr b, k) w = .stop e w₁ := by
  obtain ⟨c, hc, hptr, hblock⟩ := hnames.block hname
  obtain ⟨cells, hgrow, howned₁⟩ := howned.grow hg hfits
  let h₁ : Heap := (w.heap.release b).alloc cells
  -- the array was moved, not the names
  have hstr : loadStr (arrayPtr c) h₁ = .ok name h₁ :=
    (hblock.mono fun cells hat => At_alloc_old ((At_release_ne (hown c hc).symm).mpr hat)).load
  refine ⟨w.heap.blocks.length, h₁, howned₁, ⟨rfl, cells, rfl⟩, ?_, ?_, ?_⟩
  · intro r w₁ n h' hrun hcode hn hstore
    rw [installedModsPassWith, if_pos hlt, bind_ok (onHeap_eq hptr), bind_ok (onHeap_eq hgrow),
      if_neg (arrayPtr_ne_null _), bind_ok (onHeap_eq hstr), bind_ok hrun, bind_ok (errored_false hcode)]
    cases r with
    | ok m => exact (bind_ok (onHeap_eq hn) _).trans (bind_ok (onHeap_eq hstore) _)
    | error e => exact (bind_ok (onHeap_eq hn) _).trans (bind_ok (onHeap_eq hstore) _)
  · intro r w₁ e h' hrun hcode hfree
    have hgiven : installedModsFail (arrayPtr w.heap.blocks.length) w₁ =
        .ok ⟨.null, none⟩ { w₁ with heap := h' } := bind_ok (onHeap_eq hfree) _
    rw [installedModsPassWith, if_pos hlt, bind_ok (onHeap_eq hptr), bind_ok (onHeap_eq hgrow),
      if_neg (arrayPtr_ne_null _), bind_ok (onHeap_eq hstr), bind_ok hrun, bind_ok (errored_true hcode),
      if_pos rfl, bind_ok hgiven]
    rfl
  · intro e w₁ hstop
    rw [installedModsPassWith, if_pos hlt, bind_ok (onHeap_eq hptr), bind_ok (onHeap_eq hgrow),
      if_neg (arrayPtr_ne_null _), bind_ok (onHeap_eq hstr), bind_stop hstop]

/-- A pass up to the answer: the module's name, room for the module, the call. -/
theorem Building.asks (hb : Building P D w₀ done ls st w) (hgen : w₀.heap.Generous)
    (hnames : HoldsNames own w₀.heap namesArr names []) (hlen : len.toNat = names.length)
    (hsplit : names = done ++ name :: rest) (hfew : names.length ≤ DIR_MAX + 2)
    (hown : ∀ c, own c → ¬w₀.heap.blocks.length ≤ c) :
    ∃ b w₁, Answered P D w₀ done ls name b w₁ ∧
      (∀ l h', loads P w₀.os.fs w₀.os.cwd (D.append name) = some l → w₁.thread.errCode = none →
        store ((arrayPtr b).add (moduleSize.toNat * done.length)) l.module.cells w₁.heap = .ok () h' →
        installedModsPass P D namesArr len st w = .ok (.inl (arrayPtr b, st.2 + 1)) { w₁ with heap := h' }) ∧
      ∀ e h', w₁.thread.errCode = some e → dgaFree (arrayPtr b) w₁.heap = .ok () h' →
        installedModsPass P D namesArr len st w = .ok (.inr ⟨.null, none⟩) { w₁ with heap := h' } := by
  obtain ⟨p, k⟩ := st
  obtain ⟨b, hp, howned⟩ := hb.owned
  replace hp : p = arrayPtr b := hp
  subst hp
  have hk : k = done.length := hb.index
  subst hk
  have hcount : (ls.map Loaded.module).length = done.length := by
    rw [List.length_map]
    exact hb.loaded.length.symm
  have hmax : DIR_MAX + 2 < 2 ^ 50 := by decide
  have hlt : done.length < names.length := by
    rw [hsplit, List.length_append, List.length_cons]
    omega
  have hname : names[done.length]? = some name := by
    rw [hsplit, List.getElem?_append_right (Nat.le_refl _), Nat.sub_self, List.getElem?_cons_zero]
  have hfits : Fits moduleSize ((ls.map Loaded.module).length + 1) := by
    rw [hcount, Fits, headerSize, show moduleSize.toNat = 56 from rfl]
    omega
  -- the names are where they were before the loop
  have hnames' := hnames.spared (spares_of_keeps hb.heap fun _ => False) fun _ _ hf => hf
  have hapart : ∀ c, own c → c ≠ b := by
    rintro c hc rfl
    exact hown c hc howned.later
  obtain ⟨c, h₁, howned₁, ⟨-, hmoved⟩, hadded, hfailed, -⟩ := installedModsPass_asks (P := P) (D := D)
    (fun _ => runInit) howned (hb.heap.generous hgen).grants hfits hnames' hapart hname (hlen ▸ hlt)
  have hk₁ := howned₁.leaves.keeps
  have hreq₁ : h₁.requests = w.heap.requests + 1 := by
    obtain ⟨cells, rfl⟩ := hmoved
    rfl
  have hg₁ : h₁.Grants := (hk₁.generous hgen).grants
  obtain ⟨r, w₁, hrun, hr, hthread, hinits, htried⟩ := loadModule_answers (P := P)
    (w := { w with heap := h₁ }) hg₁ name D
  -- the files are those from before the loop
  obtain ⟨hfs, hcwd, -, -⟩ := hb.os.fields
  have hinits₀ : w.inits = w₀.inits + done.length := hb.inits
  replace hr : r = answer P (loads P w.os.fs w.os.cwd (D.append name)) := hr
  replace hthread : w₁.thread =
      { w.thread with errCode := loadCode P w.os.fs w.os.cwd D w.inits name } := hthread
  replace hinits : w₁.inits = if (loads P w.os.fs w.os.cwd (D.append name)).isSome then w.inits + 1
    else w.inits := hinits
  rw [hfs, hcwd] at hr hthread hinits
  rw [hinits₀] at hthread hinits
  subst hr
  have howned₂ := howned₁.after htried.leaves
  have hlast := howned₂.holds.len
  rw [hcount, List.length_singleton] at hlast
  have hsub : (BitVec.ofNat 64 (done.length + 1) - 1).toNat = done.length := toNat_sub_one hlast.2
  refine ⟨_, w₁, ⟨howned₂, hb.os.trans htried.dlOnly, ?_, by rw [hthread], hinits,
    fun h' hreq => hb.attempted.next hg₁ hreq₁ hrun htried hreq⟩, ?_, ?_⟩
  · obtain ⟨c', hc'⟩ := hb.thread
    rw [hthread, hc']
    exact ⟨_, rfl⟩
  · intro l h' hl hcode hstore
    refine hadded _ _ _ _ hrun hcode hlast.1 ?_
    rw [hsub, hl]
    exact hstore
  · exact fun e h' hcode hfree => hfailed _ _ _ _ hrun hcode hfree

/-- The module is in the array. -/
theorem Building.added {b : Nat} {w₁ : World} {h' : Heap} {l : Loaded} (hb : Building P D w₀ done ls st w)
    (ha : Answered P D w₀ done ls name b w₁)
    (hl : loads P w₀.os.fs w₀.os.cwd (D.append name) = some l)
    (hleaves : l.init.leaves (w₀.inits + done.length) none = none) (hcode : w₁.thread.errCode = none)
    (howned : OwnedMods (fun _ => False) w₀.heap h' b ((ls ++ [l]).map Loaded.module) [])
    (hreq : h'.requests = w₁.heap.requests) :
    Building P D w₀ (done ++ [name]) (ls ++ [l]) (arrayPtr b, st.2 + 1) { w₁ with heap := h' } := by
  have hcount : (ls ++ [l]).length = st.2 + 1 := by
    rw [List.length_append, List.length_singleton, ← hb.loaded.length, hb.index]
  refine ⟨⟨Nat.le_of_eq hcount.symm, ?_, howned.leaves.keeps, ha.os, ha.thread, ?_⟩, ?_, hb.loaded.concat hl,
    hb.quiet.concat ?_, ⟨b, rfl, howned⟩, ha.attempted h' hreq, hcode⟩
  · show HoldsMods _ _ _ (((ls ++ [l]).take (st.2 + 1)).map Loaded.module) []
    rw [← hcount, List.take_length]
    exact howned.holds
  · show w₁.inits = w₀.inits + (st.2 + 1)
    rw [ha.inits, hl, hb.index]
    rfl
  · rw [List.length_append, List.length_singleton, ← hb.index]
  · rw [← hb.loaded.length]
    exact hleaves

/-- One pass: a module that left no error is added, the first that left one is the
    last that is asked for. -/
theorem Building.pass (hb : Building P D w₀ done ls st w) (hgen : w₀.heap.Generous)
    (hnames : HoldsNames own w₀.heap namesArr names []) (hlen : len.toNat = names.length)
    (hsplit : names = done ++ name :: rest) (hfew : names.length ≤ DIR_MAX + 2)
    (hown : ∀ c, own c → ¬w₀.heap.blocks.length ≤ c) :
    Yields (installedModsPass P D namesArr len st) w fun r w' =>
      match loadCode P w₀.os.fs w₀.os.cwd D (w₀.inits + done.length) name with
      | none => ∃ l p, r = .inl (p, st.2 + 1) ∧ Building P D w₀ (done ++ [name]) (ls ++ [l]) (p, st.2 + 1) w'
      | some e => r = .inr ⟨.null, none⟩ ∧ GaveUp P D w₀ (done ++ [name]) e w' := by
  obtain ⟨b, w₁, ha, hok, hfail⟩ := hb.asks hgen hnames hlen hsplit hfew hown
  cases hcode : loadCode P w₀.os.fs w₀.os.cwd D (w₀.inits + done.length) name with
  | none =>
    have hnone : w₁.thread.errCode = none := ha.code.trans hcode
    -- no error was left, so the name has loaded
    obtain ⟨l, hl, hleaves⟩ := loadCode_none hcode
    obtain ⟨cells, hstore, howned⟩ := ha.owned.store (length_loaded l)
    rw [List.length_map, ← hb.loaded.length] at hstore
    rw [← List.map_singleton, ← List.map_append] at howned
    exact Yields.of_eq (hok l _ hl hnone hstore) ⟨l, _, rfl, hb.added ha hl hleaves hnone howned rfl⟩
  | some e =>
    have hsome : w₁.thread.errCode = some e := ha.code.trans hcode
    obtain ⟨hfree, hleft⟩ := ha.owned.free
    exact Yields.of_eq (hfail e _ hsome hfree) ⟨rfl, ⟨hleft.keeps, ha.os, ha.thread⟩, ha.attempted _ rfl,
      hleft, hsome⟩

/-- The last pass returns the array. -/
theorem Building.exit (hb : Building P D w₀ names ls st w) (arr : Ptr) (hlen : len.toNat = names.length) :
    ∃ n, installedModsPass P D arr len st w = .ok (.inr ⟨st.1, some n⟩) w ∧ n = BitVec.ofNat 64 ls.length ∧
      n.toNat = ls.length := by
  obtain ⟨b, hp, howned⟩ := hb.owned
  obtain ⟨hrun, hn⟩ := howned.holds.len
  rw [List.length_map, List.length_nil, Nat.add_zero] at hrun hn
  rw [← hp] at hrun
  refine ⟨_, ?_, rfl, hn⟩
  rw [installedModsPass, installedModsPassWith]
  simp only
  rw [if_neg (by rw [hlen, hb.index]; exact Nat.lt_irrefl _), bind_ok (onHeap_eq hrun)]
  rfl

/-- How the loop ends: all names are loaded, or one is the first to leave an
    error code. -/
inductive LoopEnds (P : System) (D : CStr) (w₀ : World) (names : List CStr) (r : Listing) (w : World) :
    Prop where
  | all (ls : List Loaded) (p : Ptr) (k : Nat) (built : Building P D w₀ names ls (p, k) w)
      (result : r = ⟨p, some (BitVec.ofNat 64 ls.length)⟩) (len : (BitVec.ofNat 64 ls.length).toNat = ls.length)
  | first (done : List CStr) (name : CStr) (rest : List CStr) (ls : List Loaded) (e : ErrorCode)
      (split : names = done ++ name :: rest) (loaded : AllLoad P w₀.os.fs w₀.os.cwd D done ls)
      (quiet : Quiet ls w₀.inits)
      (code : loadCode P w₀.os.fs w₀.os.cwd D (w₀.inits + done.length) name = some e)
      (result : r = ⟨.null, none⟩) (gaveUp : GaveUp P D w₀ (done ++ [name]) e w)

theorem installedMods_loop (hb : Building P D w₀ [] [] st w) (hgen : w₀.heap.Generous)
    (hnames : HoldsNames own w₀.heap namesArr names []) (hlen : len.toNat = names.length)
    (hfew : names.length ≤ DIR_MAX + 2) (hown : ∀ c, own c → ¬w₀.heap.blocks.length ≤ c) :
    Yields (loop maxPasses (installedModsPass P D namesArr len) st) w (LoopEnds P D w₀ names) := by
  have hfuel : names.length < maxPasses := by
    have hmax : DIR_MAX + 2 < maxPasses := by decide
    omega
  refine Yields.over (I := fun done _ st w => ∃ ls, Building P D w₀ done ls st w) ?_ ?_ hfuel ⟨[], hb⟩
  · rintro done name rest st w hsplit ⟨ls, hb⟩
    refine (hb.pass hgen hnames hlen hsplit hfew hown).mono ?_
    intro r w' hpass
    cases hcode : loadCode P w₀.os.fs w₀.os.cwd D (w₀.inits + done.length) name with
    | none =>
      rw [hcode] at hpass
      obtain ⟨l, p, rfl, hb'⟩ := hpass
      exact ⟨ls ++ [l], hb'⟩
    | some e =>
      rw [hcode] at hpass
      obtain ⟨rfl, hgave⟩ := hpass
      exact .first done name rest ls e hsplit hb.loaded hb.quiet hcode rfl hgave
  · rintro st w ⟨ls, hb⟩
    obtain ⟨m, hexit, rfl, hm⟩ := hb.exit namesArr hlen
    exact Yields.of_eq hexit ⟨_, rfl, .all ls st.1 st.2 hb rfl hm⟩

end Passes

/-! ## §3. The whole call. -/

/-- `mod_names`, and then `load_module` for these names; the rest is work on the
    memory. -/
structure Asked (P : System) (D : CStr) (w : World) (tried : List CStr) (w' : World) : Prop where
  calls : ∃ w₁ w₂, CallsMade P D w₁ (tried.map (loadCall P w.os.fs w.os.cwd D)) w₂ ∧
    w₁.os = w.os.listed ∧ w₁.inits = w.inits ∧
    w₂.heap.requests = w₁.heap.requests + 1 + 2 * tried.length ∧
    w'.os = w₂.os ∧ w'.inits = w₂.inits ∧ w'.heap.requests = w₂.heap.requests
  opened : w'.os = openAll P D tried w.os.listed

/-- How `installed_mods` ends, of a path with `n` words to a directory with these
    entries. -/
inductive InstallEnds (P : System) (D : CStr) (n : Nat) (w : World) (names : List CStr) (r : Listing)
    (w' : World) : Prop where
  | all (ls : List Loaded) (b : Nat) (loaded : AllLoad P w.os.fs w.os.cwd D names ls)
      (quiet : Quiet ls w.inits) (result : r = ⟨arrayPtr b, some (BitVec.ofNat 64 ls.length)⟩)
      (owned : OwnedMods (fun _ => 2 ^ 64 ≤ n) w.heap w'.heap b (ls.map Loaded.module) [])
      (noError : w'.thread.errCode = none) (asked : Asked P D w names w')
  | first (done : List CStr) (name : CStr) (rest : List CStr) (ls : List Loaded) (e : ErrorCode)
      (split : names = done ++ name :: rest) (loaded : AllLoad P w.os.fs w.os.cwd D done ls)
      (quiet : Quiet ls w.inits)
      (code : loadCode P w.os.fs w.os.cwd D (w.inits + done.length) name = some e)
      (result : r = ⟨.null, none⟩) (leaves : Leaves (fun _ => 2 ^ 64 ≤ n) w.heap w'.heap)
      (error : w'.thread.errCode = some e) (asked : Asked P D w (done ++ [name]) w')

/-- The names are freed last; the array is newer. -/
theorem Owned.given_back {spare own : Nat → Prop} {h h₁ h₃ : Heap} {b : Nat} {cs : List Nat}
    {names : List CStr} (ho : Owned spare h h₁ b cs names []) (hl : Leaves own h₁ h₃) :
    ∃ h₄, freeModNames (arrayPtr b) h₃ = .ok () h₄ ∧ Leaves (fun c => spare c ∨ own c) h h₄ ∧
      (∀ c cells, h₁.blocks.length ≤ c → h₃.At c cells → h₄.At c cells) ∧ h₄.requests = h₃.requests := by
  obtain ⟨⟨hfree, -⟩, hleft⟩ := (ho.after hl).frees
  exact ⟨_, hfree, hleft, fun _ _ hc => ho.at_.newer hc, requests_releaseAll _ _⟩

theorem Attempted.asked {D : CStr} {tried : List CStr} {w₂ w₃ : World} {h : Heap}
    (ha : Attempted P D w₂ tried w₃) (hos : w₂.os = w.os.listed) (hinits : w₂.inits = w.inits)
    (hreq : h.requests = w₃.heap.requests) (t : Thread Handler) :
    Asked P D w tried { w₃ with heap := h, thread := t } := by
  obtain ⟨hcalls, hopened, hreqs⟩ := ha
  rw [hos] at hcalls hopened
  exact ⟨⟨w₂, w₃, hcalls, hos, hinits, hreqs, rfl, rfl, hreq⟩, hopened⟩

/-- **`installed_mods`** of a directory that is opened, with memory granted. -/
theorem installedMods_run {i : Fin STACK_SIZE} (hroom : i.val + 4 < STACK_SIZE)
    (hrest : Rests i.val w.thread w.thread) (hgen : w.heap.Generous) {D t : CStr} {rest : List CStr}
    {d : Nat} (hwords : P.wordexp w.os.fs w.os.cwd D = some (t :: rest)) (hopens : opens P w.os t = .ok d) :
    Yields (installedMods P D) w fun r w' => Rests i.val w.thread w'.thread ∧
      InstallEnds P D (t :: rest).length w (visible (P.order w.os.fs d)) r w' := by
  have hin : InFrame i (w.thread.stack i) w.thread (w.enter i).thread := hrest.enter
  have hroom' : i.val + 1 < STACK_SIZE := by omega
  refine edf_dyn hrest ((dirContent_granted (i := ⟨i.val + 1, hroom'⟩) (w := w.enter i) hroom
    (hin.called hroom') hgen hwords hopens).bind ?_)
  intro names w₁ hret
  obtain ⟨b₁, cs₁, rfl, howned₁⟩ := hret.owned
  have hin₁ := hin.back hret.thread
  have hos₁ : w₁.os = w.os.listed := hret.os
  have hgen₁ : w₁.heap.Generous := howned₁.leaves.keeps.generous hgen
  refine Yields.step (errored_false hret.noError) ?_
  refine Yields.step (InFrame.defer (w := w₁) hin₁ (hrest.2.2 i (Nat.le_refl _)) .freeModNames _) ?_
  let w₂ : World := w₁.withFrame i { w.thread.stack i with dyns := [(.freeModNames, arrayPtr b₁)] }
  have hin₂ : InFrame i { w.thread.stack i with dyns := [(.freeModNames, arrayPtr b₁)] } w.thread
      w₂.thread := hin₁.setFrame _
  obtain ⟨cells, hnew, hmods⟩ := OwnedMods.new hgen₁.grants
  refine Yields.step (onHeap_eq hnew) ?_
  rw [if_neg (arrayPtr_ne_null _)]
  have hstart : Building P D w₂ [] [] (arrayPtr w₁.heap.blocks.length, 0)
      { w₂ with heap := w₁.heap.alloc cells } :=
    ⟨⟨Nat.zero_le _, hmods.holds, hmods.leaves.keeps, DlOnly.refl _, ⟨_, rfl⟩, rfl⟩, rfl, rfl,
      (by rintro j l ⟨⟩), ⟨_, rfl, hmods⟩, ⟨CallsMade.none.memory _, rfl, rfl⟩, hret.noError⟩
  have hfew : (visible (P.order w.os.fs d)).length ≤ DIR_MAX + 2 :=
    Nat.le_trans (length_visible _) (order_length P _ _)
  -- the names are older than the array of modules
  have hbelow : HoldsNames (fun c => w.heap.blocks.length ≤ c ∧ c < w₁.heap.blocks.length) w₁.heap
      (arrayPtr b₁) (visible (P.order w.os.fs d)) [] := howned₁.holds.below
  refine (installedMods_loop hstart hgen₁ hbelow howned₁.at_.toNat_length hfew
    fun c hc => Nat.not_le.mpr hc.2).mono ?_
  intro r w₃ hends
  have hfs₂ : w₂.os.fs = w.os.fs ∧ w₂.os.cwd = w.os.cwd ∧ w₂.inits = w.inits := by
    refine ⟨?_, ?_, hret.inits⟩
    · show w₁.os.fs = _
      rw [hos₁]
      rfl
    · show w₁.os.cwd = _
      rw [hos₁]
      rfl
  -- the loop leaves the frame alone, which holds `free_mod_names`
  have hthread : ∃ c, w₃.thread = { w₂.thread with errCode := c } := by
    cases hends with
    | all ls p k hb => exact hb.thread
    | first done name rest ls e hsplit hload hquiet hcode hr hgave => exact hgave.thread
  obtain ⟨c, hc⟩ := hthread
  refine ⟨.freeModNames, arrayPtr b₁, by rw [hc]; exact hin₂.setErr c, ?_⟩
  intro t' ht'
  cases hends with
  | all ls p k hb hr hlen =>
    obtain ⟨b, hp, howned⟩ := hb.owned
    replace hp : p = arrayPtr b := hp
    subst hp
    subst hr
    obtain ⟨h₄, hfree, hleft, hkept, hreq⟩ := howned₁.given_back howned.leaves
    refine Yields.of_eq (onHeap_eq hfree) ⟨rfl, ?_⟩
    intro t'' ht'' herr
    -- the names go, the modules stay
    refine ⟨ht'', .all ls b ?_ ?_ rfl ⟨?_, ?_, ?_⟩ ?_ (hb.attempted.asked hos₁ hret.inits hreq t'')⟩
    · have hload := hb.loaded
      rwa [hfs₂.1, hfs₂.2.1] at hload
    · have hquiet := hb.quiet
      rwa [hfs₂.2.2] at hquiet
    · exact howned.at_.mono fun cells => hkept b cells howned.later
    · exact hleft.weaken fun x hx => hx.symm.imp (fun h => h.resolve_right id) id
    · exact Nat.le_trans howned₁.leaves.keeps.length howned.later
    · exact herr.trans (ht'.trans hb.noError)
  | first done name rest ls e hsplit hload hquiet hcode hr hgave =>
    subst hr
    obtain ⟨h₄, hfree, hleft, -, hreq⟩ := howned₁.given_back hgave.leaves
    refine Yields.of_eq (onHeap_eq hfree) ⟨rfl, ?_⟩
    intro t'' ht'' herr
    rw [hfs₂.1, hfs₂.2.1] at hload hcode
    rw [hfs₂.2.2] at hquiet hcode
    exact ⟨ht'', .first done name rest ls e hsplit hload hquiet hcode rfl
      (hleft.weaken fun x hx => hx.resolve_right id) (herr.trans (ht'.trans hgave.error))
      (hgave.attempted.asked hos₁ hret.inits hreq t'')⟩

/-- **`installed_mods`** of a directory all of whose visible entries load: a
    module for each, unless an `init` leaves an error code; then nothing. -/
theorem installedMods_yields {i : Fin STACK_SIZE} (hroom : i.val + 4 < STACK_SIZE)
    (hrest : Rests i.val w.thread w.thread) (hgen : w.heap.Generous) {D : CStr} {d : Nat}
    (hpath : LeadsTo P w.os D d) (hr : P.refuse .opendir (w.os.calls .opendir) = none)
    {ls : List Loaded} (hload : AllLoad P w.os.fs w.os.cwd D (visible (P.order w.os.fs d)) ls) :
    Yields (installedMods P D) w fun r w' =>
      (Quiet ls w.inits → (∃ n, r.len = some n ∧ n.toNat = ls.length) ∧
        HoldsMods (w.heap.blocks.length ≤ ·) w'.heap r.array (ls.map Loaded.module) []) ∧
      (¬Quiet ls w.inits → r = ⟨.null, none⟩) ∧
      DlOnly w.os.listed w'.os ∧ Keeps w.heap w'.heap ∧ Rests i.val w.thread w'.thread := by
  have hwords : P.wordexp w.os.fs w.os.cwd D = some [D] := hpath.plain
  refine (installedMods_run hroom hrest hgen hwords (opens_ok hr hpath.dir)).mono ?_
  rintro r w' ⟨hrests, hends⟩
  have hopened : ∀ {tried}, Asked P D w tried w' → DlOnly w.os.listed w'.os := by
    intro tried hasked
    rw [hasked.opened]
    exact dlOnly_openAll P D tried _
  cases hends with
  | all ls' b hload' hquiet hr howned hcode hasked =>
    -- the objects are those of the entries
    cases hload.unique hload'
    subst hr
    refine ⟨fun _ => ⟨⟨_, rfl, ?_⟩, howned.holds⟩, fun hloud => absurd hquiet hloud, hopened hasked,
      howned.leaves.keeps, hrests⟩
    have hlen := howned.holds.len.2
    rwa [List.length_map, List.length_nil, Nat.add_zero] at hlen
  | first done name rest ls' e hsplit hload' hquiet' hcode hr hleaves herr hasked =>
    refine ⟨fun hquiet => ?_, fun _ => hr, hopened hasked, hleaves.keeps, hrests⟩
    -- a name that loads leaves the code of its `init`
    obtain ⟨l, hl, hloads⟩ := hload.get (k := done.length) (n := name) (by
      rw [hsplit, List.getElem?_append_right (Nat.le_refl _), Nat.sub_self, List.getElem?_cons_zero])
    rw [loadCode, hloads] at hcode
    cases hcode.symm.trans (hquiet done.length l hl)

/-- **`installed_mods`** of a directory the system does not open returns
    nothing. -/
theorem installedMods_refused (call : CallInit) {i : Fin STACK_SIZE} (hroom : i.val + 4 < STACK_SIZE)
    (hrest : Rests i.val w.thread w.thread) (hgen : w.heap.Generous) {D : CStr} {d : Nat}
    (hpath : LeadsTo P w.os D d) {e : Errno} (hr : P.refuse .opendir (w.os.calls .opendir) = some e)
    {r : Listing} {w' : World} (hrun : installedModsWith P call D w = .ok r w') : r.array = .null := by
  have hin : InFrame i (w.thread.stack i) w.thread (w.enter i).thread := hrest.enter
  have hroom' : i.val + 1 < STACK_SIZE := by omega
  rcases dirContent_refused (i := ⟨i.val + 1, hroom'⟩) (w := w.enter i) hroom (hin.called hroom') hgen
    hpath hr with ⟨w₁, hstop⟩ | hnull
  · have hbody : installedModsWith P call D w = .stop .undefined w₁ := edf_stop hrest (bind_stop hstop _)
    rw [hrun] at hbody
    cases hbody
  · have hyields : Yields (installedModsWith P call D) w fun r _ => r.array = .null := by
      refine edf_plain hrest (hnull.bind ?_)
      intro names w₁ ⟨_, herr, hrests⟩
      obtain ⟨c, hc⟩ := Option.isSome_iff_exists.mp herr
      exact Yields.step (errored_true hc) (Yields.pure ⟨hin.back hrests, fun _ _ _ => rfl⟩)
    obtain ⟨r', w'', hrun', hnull'⟩ := hyields
    rw [hrun] at hrun'
    cases hrun'
    exact hnull'

end Prom.Modules
