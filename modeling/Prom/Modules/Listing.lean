/-
  Prom.Modules.Listing — what `dir_content` returns.

  `visible` is the part of a listing `dir_content` keeps: the names that do
  not start with a dot.  After the directory has been opened it makes one
  request for the array and two for each visible name.

  Main results:
    * `openDir_cases` — `open_dir`, whatever `malloc` and `opendir` answer.
    * `dirContent_returned` — with memory granted and the directory opened, the
      visible names in the order of the listing.
    * `dirContent_errored`, `dirContent_unreported`, `dirContent_refused` —
      when the directory cannot be opened.
-/
import Prom.Modules.Names

namespace Prom.Modules

open Prom.C Exec Heap Dga Errm Posix

variable {P : System} {i : Fin STACK_SIZE} {w : World}

/-! ## §1. Opening. -/

/-- A path that `wordexp` leaves as it is and that leads to directory `d`. -/
structure LeadsTo (P : System) (s : Os) (path : CStr) (d : Nat) : Prop where
  plain : P.wordexp s.fs s.cwd path = some [path]
  dir : s.fs.resolve s.cwd path.bytes = .ok (.dir d)

/-- The error `errm_error_from_errno` sets, if it knows the value. -/
def errorOf : Errno → Option ErrorCode
  | .EACCES => some .NO_PERMISSIONS
  | .ENFILE => some .LIMIT_EXCEEDED
  | .ENOENT => some .DOES_NOT_EXIST
  | .ENOTDIR => some .NOT_THE_EXPECTED
  | .ENOMEM => some .NOT_ENOUGH_MEMORY
  | _ => none

/-- An unknown value leaves the error there is. -/
theorem errmErrorFromErrno_eq (w : World) : errmErrorFromErrno w =
    .ok () { w with thread := { w.thread with errCode := (errorOf w.os.errno).or w.thread.errCode } } := by
  have hget : onOs get w = .ok w.os w := onOs_eq (get_apply _)
  rw [errmErrorFromErrno, bind_ok hget]
  cases w.os.errno <;> rfl

/-- `open_dir` at depth `d` of a string with `n` words, the first being `t`. -/
structure OpenTried (P : System) (d : Nat) (w : World) (t : CStr) (n : Nat) (dp : Ptr) (w' : World) :
    Prop where
  requests : w'.heap.requests = copyRequest w.heap n + 1
  leaves : Leaves (fun _ => 2 ^ 64 ≤ n) w.heap w'.heap
  thread : Rests d w.thread w'.thread
  inits : w'.inits = w.inits
  denied : w.heap.grants (copyRequest w.heap n) = false →
    dp = .null ∧ w'.thread.errCode = some .NOT_ENOUGH_MEMORY
  failed : ∀ e, w.heap.grants (copyRequest w.heap n) = true → opens P w.os t = .error e →
    dp = .null ∧ w'.thread.errCode = errorOf e
  opened : ∀ dir, w.heap.grants (copyRequest w.heap n) = true → opens P w.os t = .ok dir →
    dp = streamPtr w.os.streams.length ∧ w'.thread.errCode = none ∧
      w'.os = w.os.reading (P.order w.os.fs dir)

/-- **`open_dir`** of a string with a word; the expanded path is freed. -/
theorem openDir_cases (hroom : i.val + 2 < STACK_SIZE) (hrest : Rests i.val w.thread w.thread)
    {path t : CStr} {rest : List CStr} (hwords : P.wordexp w.os.fs w.os.cwd path = some (t :: rest)) :
    Yields (openDir P path) w (OpenTried P i.val w t (t :: rest).length) := by
  have hin : InFrame i (w.thread.stack i) w.thread (w.enter i).thread := hrest.enter
  have hroom' : i.val + 1 < STACK_SIZE := by omega
  obtain ⟨p, w₁, hrun, hreq, hcases⟩ := expand_cases (i := ⟨i.val + 1, hroom'⟩) (w := w.enter i) hroom
    (hin.called hroom') hwords
  rcases hcases with ⟨hg, hmade⟩ | ⟨hno, hfail⟩
  · have hgranted : w.heap.grants (copyRequest w.heap (t :: rest).length) = true := hg
    have hin₁ := hin.back hmade.calm.thread
    obtain ⟨b, back, rfl, hlo, hat, hl⟩ := hmade.block
    refine edf_dyn hrest (Yields.step hrun ?_)
    refine Yields.step (errored_false hmade.calm.noError) ?_
    refine Yields.step (InFrame.defer (w := w₁) hin₁ (hrest.2.2 i (Nat.le_refl _)) .free _) ?_
    refine Yields.step (onHeap_eq (loadStr_at hat)) ?_
    have hos₁ : w₁.os = w.os := hmade.calm.os
    -- what is common to both outcomes: the path is freed
    have hleaves : Leaves (fun _ => 2 ^ 64 ≤ (t :: rest).length) w.heap (w₁.heap.release b) :=
      (hl.release hlo).weaken fun c hc => hc.1.resolve_left hc.2
    cases hopens : opens P w.os t with
    | error e =>
      have hopen : opendir P t w₁.os = .ok .null { w.os.count .opendir with errno := e } := by
        rw [hos₁]
        exact opendir_error hopens
      refine Yields.step (onOs_eq hopen) ?_
      rw [if_pos rfl]
      refine Yields.step (errmErrorFromErrno_eq _)
        (Yields.pure ⟨.free, _, (hin₁.setFrame _).setErr _, ?_⟩)
      intro t' herr
      refine Yields.of_eq (onHeap_eq (free_eq hat)) ⟨rfl, ?_⟩
      intro t'' ht'' herr'
      refine ⟨hreq, hleaves, ht'', hmade.calm.inits, ?_, ?_, ?_⟩
      · intro hno
        rw [hgranted] at hno
        cases hno
      · intro e' _ he'
        cases hopens.symm.trans he'
        refine ⟨rfl, herr'.trans (herr.trans ?_)⟩
        show (errorOf e).or w₁.thread.errCode = errorOf e
        rw [hmade.calm.noError, Option.or_none]
      · intro dir _ hdir
        cases hopens.symm.trans hdir
    | ok dir =>
      have hopen : opendir P t w₁.os =
          .ok (streamPtr w.os.streams.length) (w.os.reading (P.order w.os.fs dir)) := by
        rw [hos₁]
        exact opendir_ok hopens
      refine Yields.step (onOs_eq hopen) ?_
      rw [if_neg (show streamPtr _ ≠ .null from by rintro ⟨⟩)]
      refine Yields.pure ⟨.free, _, hin₁.setFrame _, ?_⟩
      intro t' herr
      refine Yields.of_eq (onHeap_eq (free_eq hat)) ⟨rfl, ?_⟩
      intro t'' ht'' herr'
      refine ⟨hreq, hleaves, ht'', hmade.calm.inits, ?_, ?_, ?_⟩
      · intro hno
        rw [hgranted] at hno
        cases hno
      · intro e _ he
        cases hopens.symm.trans he
      · intro dir' _ hdir'
        cases hopens.symm.trans hdir'
        exact ⟨rfl, herr'.trans (herr.trans hmade.calm.noError), rfl⟩
  · have hdenied : w.heap.grants (copyRequest w.heap (t :: rest).length) = false := hno
    refine edf_plain hrest (Yields.step hrun (Yields.step (errored_true hfail.code) ?_))
    refine Yields.pure ⟨hin.back hfail.thread, fun t' ht' herr => ?_⟩
    refine ⟨hreq, hfail.leaves, ht', hfail.inits, fun _ => ⟨rfl, herr.trans hfail.code⟩, ?_, ?_⟩
    · intro e hg
      rw [hdenied] at hg
      cases hg
    · intro dir hg
      rw [hdenied] at hg
      cases hg

/-- `open_dir` of what `wordexp` refuses. -/
theorem openDir_unparsed (hroom : i.val + 1 < STACK_SIZE) (hrest : Rests i.val w.thread w.thread)
    {path : CStr} (hwords : P.wordexp w.os.fs w.os.cwd path = none) :
    Yields (openDir P path) w (Failed i.val False .PARSING_ERROR w) :=
  edf_expand_refused hroom hrest hwords _

/-! ## §2. Reading the names. -/

/-- The names `dir_content` keeps. -/
def visible (names : List CStr) : List CStr := names.filter (·.bytes.head? ≠ some dot)

theorem visible_append (l l' : List CStr) : visible (l ++ l') = visible l ++ visible l' :=
  List.filter_append ..

theorem length_visible (l : List CStr) : (visible l).length ≤ l.length := List.length_filter_le ..

theorem short_visible {fs : FileSys} {d : Nat} {n : CStr} (hn : n ∈ visible (P.order fs d)) :
    n.length ≤ NAME_MAX := order_short P (List.mem_of_mem_filter hn)

/-- The visible names of a directory are its entries that do not start with a
    dot. -/
theorem mem_visible_order (P : System) (fs : FileSys) (d : Nat) (n : CStr) :
    n ∈ visible (P.order fs d) ↔ n.bytes.head? ≠ some dot ∧ (fs.lookup d n.bytes).isSome := by
  have hmem : n ∈ P.order fs d ↔ n.bytes ∈ (P.order fs d).map CStr.bytes := by
    constructor
    · exact List.mem_map_of_mem
    · intro h
      obtain ⟨m, hm, heq⟩ := List.mem_map.mp h
      rwa [← CStr.ext heq]
  rw [visible, List.mem_filter, hmem, (P.order_perm fs d).mem_iff, FileSys.mem_entries_iff_lookup,
    List.mem_cons, List.mem_cons, decide_eq_true_eq]
  constructor
  · rintro ⟨hdot | hdd | hent, hhead⟩
    · rw [hdot] at hhead
      exact absurd rfl hhead
    · rw [hdd] at hhead
      exact absurd rfl hhead
    · exact ⟨hhead, hent⟩
  · rintro ⟨hhead, hent⟩
    exact ⟨.inr (.inr hent), hhead⟩

/-- No name is listed twice. -/
theorem nodup_order (P : System) (fs : FileSys) (d : Nat) : (P.order fs d).Nodup := by
  apply List.Nodup.of_map CStr.bytes
  rw [(P.order_perm fs d).nodup_iff]
  have hvalid : ∀ n ∈ (fs.entries d).map Prod.fst, ValidName n := by
    intro n hn
    obtain ⟨e, he, rfl⟩ := List.mem_map.mp hn
    exact valid_entry he
  refine List.nodup_cons.mpr ⟨?_, List.nodup_cons.mpr ⟨?_, ?_⟩⟩
  · intro hmem
    rcases List.mem_cons.mp hmem with heq | hmem
    · exact absurd heq (by decide)
    · exact (hvalid _ hmem).2.2.2.1 rfl
  · intro hmem
    exact (hvalid _ hmem).2.2.2.2.1 rfl
  · rw [FileSys.entries]
    cases fs.dirs[d]? with
    | none => exact List.nodup_nil
    | some D => exact D.nodup

theorem nodup_visible (P : System) (fs : FileSys) (d : Nat) : (visible (P.order fs d)).Nodup :=
  (nodup_order P fs d).filter _

/-- The loop of `dir_content` has read `done`; `rest` is to come. -/
structure Collecting (w₀ : World) (s : Os) (done rest : List CStr) (st : Ptr × Size) (w : World) :
    Prop where
  len : st.2 = BitVec.ofNat 64 (visible done).length
  names : HoldsNames (w₀.heap.blocks.length ≤ ·) w.heap st.1 (visible done) []
  heap : Keeps w₀.heap w.heap
  os : w.os = s.reading rest
  thread : w.thread = w₀.thread
  inits : w.inits = w₀.inits

/-- And nothing it has allocated is lost. -/
structure Gathering (w₀ : World) (s : Os) (done rest : List CStr) (st : Ptr × Size) (w : World) : Prop
    extends Collecting w₀ s done rest st w where
  owned : ∃ b cs, st.1 = arrayPtr b ∧ Owned (fun _ => False) w₀.heap w.heap b cs (visible done) []
  requests : w.heap.requests = w₀.heap.requests + 1 + 2 * (visible done).length

section Passes

variable {w₀ : World} {s : Os} {done rest : List CStr} {st : Ptr × Size} {name : CStr}

theorem readdir_next (hos : w.os = s.reading (name :: rest)) :
    onOs (readdir (streamPtr s.streams.length)) w = .ok (some name) { w with os := s.reading rest } :=
  onOs_eq (hos ▸ Posix.readdir_cons s name rest)

/-- At the end of the listing the array is returned. -/
theorem dirContentPass_end (hos : w.os = s.reading []) :
    dirContentPass (streamPtr s.streams.length) st w = .ok (.inr ⟨st.1, some st.2⟩) w := by
  have hread : onOs (readdir (streamPtr s.streams.length)) w = .ok none w := by
    refine onOs_eq (s := w.os) ?_
    rw [hos]
    exact Posix.readdir_nil s
  rw [dirContentPass, bind_ok hread]
  rfl

/-- A hidden name is passed over. -/
theorem dirContentPass_hidden (hos : w.os = s.reading (name :: rest))
    (hdot : name.bytes.head? = some dot) :
    dirContentPass (streamPtr s.streams.length) st w = .ok (.inl st) { w with os := s.reading rest } := by
  rw [dirContentPass, bind_ok (readdir_next hos)]
  simp only [if_pos hdot]
  rfl

theorem visible_hidden (hdot : name.bytes.head? = some dot) :
    visible (name :: rest) = visible rest := by
  rw [visible, List.filter_cons_of_neg (by simpa using hdot), ← visible]

theorem visible_shown (hdot : name.bytes.head? ≠ some dot) :
    visible (name :: rest) = name :: visible rest := by
  rw [visible, List.filter_cons_of_pos (by simpa using hdot), ← visible]

theorem Gathering.skip (hc : Gathering w₀ s done (name :: rest) st w)
    (hdot : name.bytes.head? = some dot) :
    Gathering w₀ s (done ++ [name]) rest st { w with os := s.reading rest } := by
  have hvis : visible (done ++ [name]) = visible done := by
    rw [visible_append, visible_hidden hdot]
    exact List.append_nil _
  obtain ⟨b, cs, hst, howned⟩ := hc.owned
  refine ⟨⟨by rw [hvis]; exact hc.len, by rw [hvis]; exact hc.names, hc.heap, rfl, hc.thread, hc.inits⟩,
    ⟨b, cs, hst, ?_⟩, by rw [hvis]; exact hc.requests⟩
  rw [hvis]
  exact howned

/-- The array and one more name are not too much for the memory. -/
theorem visible_fits (hdone : done.length ≤ DIR_MAX + 2) :
    (visible done).length + 1 < 2 ^ 64 ∧ Fits 8 ((visible done).length + 1) := by
  have hfew : (visible done).length ≤ DIR_MAX + 2 := Nat.le_trans (length_visible done) hdone
  have hmax : DIR_MAX + 2 < 2 ^ 50 := by decide
  exact ⟨by omega, by omega, by rw [headerSize, show (8 : Size).toNat = 8 from rfl]; omega⟩

/-- A visible name is copied and added. -/
theorem Gathering.add (hc : Gathering w₀ s done (name :: rest) st w) (hg : w.heap.Grants)
    (hg' : w.heap.grants (w.heap.requests + 1) = true) (hdot : name.bytes.head? ≠ some dot)
    (hname : name.length ≤ NAME_MAX) (hdone : done.length ≤ DIR_MAX + 2) :
    ∃ st' w', dirContentPass (streamPtr s.streams.length) st w = .ok (.inl st') w' ∧
      w'.heap.requests = w.heap.requests + 2 ∧ Gathering w₀ s (done ++ [name]) rest st' w' := by
  have hvis : visible (done ++ [name]) = visible done ++ [name] := by
    rw [visible_append, visible_shown hdot]
    rfl
  obtain ⟨p, len⟩ := st
  obtain ⟨hsmall, hfits⟩ := visible_fits hdone
  obtain ⟨b, cs, hp, howned⟩ := hc.owned
  replace hp : p = arrayPtr b := hp
  subst hp
  -- room for the pointer, then the name itself
  obtain ⟨cells₁, hgrow, howned₁⟩ := howned.grow hg hfits
  let h₁ : Heap := (w.heap.release b).alloc cells₁
  have hg₁ : h₁.Grants := hg'
  obtain ⟨cells, cells', hnew, hcopy, hblock⟩ := dgaNew_short hg₁ hname (name.length + 4) 1
    (by omega) (by omega) (by decide) (by decide)
  have howned₂ : Owned (fun x => False ∨ x = h₁.blocks.length) w₀.heap (h₁.alloc cells')
      w.heap.blocks.length cs (visible done) [fresh 8] :=
    (howned₁.after ((Leaves.refl h₁).alloc cells')).weaken fun c hc => hc.imp id fun h => h.resolve_left id
  obtain ⟨cells₃, hstore, howned₃⟩ := howned₂.store hblock
    (fun hmem => Nat.lt_irrefl _ (howned₁.at_.lt hmem)) howned₁.leaves.keeps.length
  have hlen : len.toNat = (visible done).length := by
    rw [show len = _ from hc.len]
    exact toNat_ofNat_lt (by omega)
  rw [← hlen] at hstore
  let w₁ : World := { w with os := s.reading rest }
  have hgrow' : onHeap (dgaGrow (arrayPtr b) 1) w₁ = .ok _ { w₁ with heap := h₁ } := onHeap_eq hgrow
  have hnew' : onHeap (dgaNew (BitVec.ofNat 64 (name.length + 4)) 1) { w₁ with heap := h₁ } = .ok _ _ :=
    onHeap_eq hnew
  have hcopy' : strcpy (arrayPtr h₁.blocks.length) name { w₁ with heap := h₁.alloc cells } = .ok () _ :=
    onHeap_eq hcopy
  have hstore' : onHeap (storePtr ((arrayPtr w.heap.blocks.length).add (8 * len.toNat))
      (arrayPtr h₁.blocks.length)) { w₁ with heap := h₁.alloc cells' } = .ok () _ := onHeap_eq hstore
  rw [← hvis] at howned₃
  refine ⟨(arrayPtr w.heap.blocks.length, len + 1),
    { w₁ with heap := (h₁.alloc cells').put w.heap.blocks.length cells₃ }, ?_, rfl,
    ⟨?_, howned₃.holds, howned₃.leaves.keeps, rfl, hc.thread, hc.inits⟩, ⟨_, _, rfl, howned₃⟩, ?_⟩
  · rw [dirContentPass, bind_ok (readdir_next hc.os)]
    simp only [if_neg hdot]
    rw [bind_ok hgrow', if_neg (arrayPtr_ne_null _), bind_ok hnew', if_neg (arrayPtr_ne_null _),
      bind_ok hcopy', bind_ok hstore']
    rfl
  · show len + 1 = _
    rw [hvis, List.length_append, List.length_singleton, BitVec.ofNat_add, show len = _ from hc.len]
    rfl
  · show w.heap.requests + 2 = _
    rw [hc.requests, hvis, List.length_append, List.length_singleton, Nat.mul_succ, Nat.add_assoc]

end Passes

/-- The next name of a listing, and what was read before it. -/
theorem listing_split {names done rest : List CStr} {name : CStr}
    (hshort : ∀ n ∈ names, n.length ≤ NAME_MAX) (hfew : names.length ≤ DIR_MAX + 2)
    (hsplit : names = done ++ name :: rest) :
    name.length ≤ NAME_MAX ∧ done.length ≤ DIR_MAX + 2 ∧ names = (done ++ [name]) ++ rest := by
  subst hsplit
  refine ⟨hshort name (List.mem_append_right _ List.mem_cons_self), ?_, ?_⟩
  · rw [List.length_append] at hfew
    omega
  · rw [List.append_assoc, List.singleton_append]

/-- The loop from its start to its exit: two requests for each visible name. -/
theorem dirContent_loop {w₀ w : World} {s : Os} {names : List CStr} {st : Ptr × Size}
    (hshort : ∀ n ∈ names, n.length ≤ NAME_MAX) (hfew : names.length ≤ DIR_MAX + 2)
    (hgrants : ∀ j, j < 2 * (visible names).length → w.heap.grants (w.heap.requests + j) = true)
    (hc : Gathering w₀ s [] names st w) :
    Yields (loop maxPasses (dirContentPass (streamPtr s.streams.length)) st) w fun r w' =>
      ∃ st', r = ⟨st'.1, some st'.2⟩ ∧ Gathering w₀ s names [] st' w' := by
  have hfuel : names.length < maxPasses := by
    have : DIR_MAX + 2 < maxPasses := by decide
    omega
  -- a visible name takes two requests, a hidden one none
  refine Yields.over
    (I := fun done rest st w => Gathering w₀ s done rest st w ∧
      ∀ j, j < 2 * (visible rest).length → w.heap.grants (w.heap.requests + j) = true)
    ?_ ?_ hfuel ⟨hc, hgrants⟩
  · rintro done name rest st w hsplit ⟨hc, hgrants⟩
    obtain ⟨hname, hdone, -⟩ := listing_split hshort hfew hsplit
    by_cases hdot : name.bytes.head? = some dot
    · rw [visible_hidden hdot] at hgrants
      exact Yields.of_eq (dirContentPass_hidden hc.os hdot) ⟨hc.skip hdot, hgrants⟩
    · rw [visible_shown hdot, List.length_cons] at hgrants
      obtain ⟨st', w', hrun, hreq, hc'⟩ := hc.add (hgrants 0 (by omega)) (hgrants 1 (by omega)) hdot
        hname hdone
      refine Yields.of_eq hrun ⟨hc', ?_⟩
      intro j hj
      rw [hreq, hc'.heap.grants, ← hc.heap.grants, Nat.add_assoc, Nat.add_comm 2 j]
      exact hgrants (j + 2) (by omega)
  · rintro st w ⟨hc, -⟩
    exact Yields.of_eq (dirContentPass_end hc.os) ⟨_, rfl, st, rfl, hc⟩

/-! ## §3. The whole listing. -/

/-- A listing that was returned: the array in the caller's own memory. -/
structure Listed (w : World) (names : List CStr) (r : Listing) (w' : World) : Prop where
  len : r.len = some (BitVec.ofNat 64 names.length)
  names : HoldsNames (w.heap.blocks.length ≤ ·) w'.heap r.array names []

/-- What the caller reads from a listing. -/
def Reads (h : Heap) (r : Listing) (names : List CStr) : Prop :=
  (∃ n, r.len = some n ∧ n.toNat = names.length) ∧
    ∀ (k : Nat) (s : CStr), names[k]? = some s →
      ∃ q, loadPtr (r.array.add (8 * k)) h = .ok q h ∧ loadStr q h = .ok s h

theorem Listed.reads {w w' : World} {names : List CStr} {r : Listing} (hl : Listed w names r w') :
    Reads w'.heap r names :=
  ⟨⟨_, hl.len, hl.names.toNat_length⟩, fun _ _ hk => hl.names.read hk⟩

/-- `dir_content` from the first `dga_new` on. -/
def listNames (dp : Ptr) : Exec World Listing := do
  let names ← onHeap (dgaNew 0 8)
  loop maxPasses (dirContentPass dp) (names, 0)

/-- A call of `dir_content` in frame `i` has opened a directory with the listing
    `names` and deferred its closing; there were `n` words. -/
structure Started (i : Fin STACK_SIZE) (w : World) (n : Nat) (names : List CStr) (w₀ : World) :
    Prop where
  frame : InFrame i { w.thread.stack i with dyns := [(.closeDir, streamPtr w.os.streams.length)] }
    w.thread w₀.thread
  noError : w₀.thread.errCode = none
  os : w₀.os = w.os.reading names
  requests : w₀.heap.requests = copyRequest w.heap n + 1
  leaves : Leaves (fun _ => 2 ^ 64 ≤ n) w.heap w₀.heap
  inits : w₀.inits = w.inits

/-- **`dir_content`** of a directory that is opened: what is left to do, and the
    closing. -/
theorem dirContent_start (hroom : i.val + 3 < STACK_SIZE) (hrest : Rests i.val w.thread w.thread)
    {path t : CStr} {rest : List CStr} {d : Nat}
    (hwords : P.wordexp w.os.fs w.os.cwd path = some (t :: rest))
    (hg : w.heap.grants (copyRequest w.heap (t :: rest).length) = true)
    (hopens : opens P w.os t = .ok d) :
    ∃ w₀, Started i w (t :: rest).length (P.order w.os.fs d) w₀ ∧
      (Undefined (listNames (streamPtr w.os.streams.length)) w₀ → Undefined (dirContent P path) w) ∧
      ∀ Q, Yields (listNames (streamPtr w.os.streams.length)) w₀ (fun r w' =>
          w'.thread = w₀.thread ∧ w'.os = w.os.reading [] ∧
            ∀ t, Rests i.val w.thread t → t.errCode = none →
              Q r { w' with thread := t, os := w.os.listed }) →
        Yields (dirContent P path) w Q := by
  have hin : InFrame i (w.thread.stack i) w.thread (w.enter i).thread := hrest.enter
  have hroom' : i.val + 1 < STACK_SIZE := by omega
  obtain ⟨dp, w₁, hrun, htried⟩ := openDir_cases (i := ⟨i.val + 1, hroom'⟩) (w := w.enter i) hroom
    (hin.called hroom') hwords
  obtain ⟨rfl, herr, hos⟩ := htried.opened d hg hopens
  have hin₁ := hin.back htried.thread
  have hdefer := InFrame.defer (w := w₁) hin₁ (hrest.2.2 i (Nat.le_refl _)) .closeDir
    (streamPtr w.os.streams.length)
  have hin₂ := hin₁.setFrame { w.thread.stack i with
    dyns := [(.closeDir, streamPtr w.os.streams.length)] }
  let w₀ : World := w₁.withFrame i { w.thread.stack i with
    dyns := [(.closeDir, streamPtr w.os.streams.length)] }
  refine ⟨w₀, ⟨hin₂, herr, hos, htried.requests, htried.leaves, htried.inits⟩, ?_, ?_⟩
  · intro hundef
    exact edf_undefined hrest (Undefined.step hrun (Undefined.step (errored_false herr)
      (Undefined.step hdefer hundef)))
  · intro Q hyields
    refine edf_dyn hrest (Yields.step hrun (Yields.step (errored_false herr) (Yields.step hdefer ?_)))
    refine hyields.mono ?_
    intro r w₂ ⟨hthread, hos₂, hQ⟩
    refine ⟨.closeDir, streamPtr w.os.streams.length, by rw [hthread]; exact hin₂, ?_⟩
    intro t' herr'
    -- the stream is closed when the listing returns, whatever it returns
    have hclose : onOs (closedir (streamPtr w.os.streams.length)) { w₂ with thread := t' } =
        .ok () { w₂ with thread := t', os := w.os.listed } := by
      refine onOs_eq ?_
      show closedir _ w₂.os = _
      rw [hos₂]
      exact closedir_reading w.os []
    refine Yields.of_eq hclose ⟨rfl, ?_⟩
    intro t'' ht'' herr''
    refine hQ t'' ht'' (herr''.trans (herr'.trans ?_))
    rw [hthread]
    exact herr

/-- The requests after the directory has been opened are granted: one for the
    array and two for each visible name. -/
def GrantsListing (P : System) (w : World) (n d : Nat) : Prop :=
  ∀ j, j ≤ 2 * (visible (P.order w.os.fs d)).length →
    w.heap.grants (copyRequest w.heap n + 1 + j) = true

theorem grantsListing (hgen : w.heap.Generous) (n d : Nat) : GrantsListing P w n d := by
  intro j _
  rw [Nat.add_assoc]
  exact grants_copyRequest hgen n (1 + j)

theorem Started.grants {n : Nat} {names : List CStr} {w₀ : World} (hs : Started i w n names w₀)
    (j : Nat) : w₀.heap.grants (w₀.heap.requests + j) = w.heap.grants (copyRequest w.heap n + 1 + j) := by
  rw [hs.leaves.keeps.grants, hs.requests]

/-- The empty array is there. -/
theorem Started.gathering {n : Nat} {names : List CStr} {w₀ : World} (hs : Started i w n names w₀)
    (hg : w₀.heap.Grants) :
    ∃ cells, onHeap (dgaNew 0 8) w₀ =
        .ok (arrayPtr w₀.heap.blocks.length) { w₀ with heap := w₀.heap.alloc cells } ∧
      Gathering w₀ w.os [] names (arrayPtr w₀.heap.blocks.length, 0)
        { w₀ with heap := w₀.heap.alloc cells } := by
  obtain ⟨cells, hnew, howned⟩ := Owned.new hg (Leaves.refl _)
  exact ⟨cells, onHeap_eq hnew, ⟨rfl, howned.holds, howned.leaves.keeps, hs.os, rfl, rfl⟩,
    ⟨_, _, rfl, howned⟩, rfl⟩

/-- What `dir_content` returns of an opened directory, whose path had `n` words:
    an array of the visible names in blocks of its own. -/
structure Returned (k n : Nat) (w : World) (names : List CStr) (r : Listing) (w' : World) : Prop where
  owned : ∃ b cs, r = ⟨arrayPtr b, some (BitVec.ofNat 64 names.length)⟩ ∧
    Owned (fun _ => 2 ^ 64 ≤ n) w.heap w'.heap b cs names []
  os : w'.os = w.os.listed
  thread : Rests k w.thread w'.thread
  noError : w'.thread.errCode = none
  inits : w'.inits = w.inits
  requests : w'.heap.requests = copyRequest w.heap n + 2 + 2 * names.length

/-- **`dir_content`** of a directory that is opened returns the visible names,
    in the order of the system's listing. -/
theorem dirContent_returned (hroom : i.val + 3 < STACK_SIZE) (hrest : Rests i.val w.thread w.thread)
    {path t : CStr} {rest : List CStr} {d : Nat}
    (hwords : P.wordexp w.os.fs w.os.cwd path = some (t :: rest))
    (hg : w.heap.grants (copyRequest w.heap (t :: rest).length) = true)
    (hopens : opens P w.os t = .ok d) (hgrants : GrantsListing P w (t :: rest).length d) :
    Yields (dirContent P path) w
      (Returned i.val (t :: rest).length w (visible (P.order w.os.fs d))) := by
  obtain ⟨w₀, hs, -, hyields⟩ := dirContent_start hroom hrest hwords hg hopens
  have hgrants₀ : ∀ j, j ≤ 2 * (visible (P.order w.os.fs d)).length →
      w₀.heap.grants (w₀.heap.requests + j) = true :=
    fun j hj => (hs.grants j).trans (hgrants j hj)
  -- the first request after the opening is the array's
  obtain ⟨cells, hnew, hstart⟩ := hs.gathering (hgrants₀ 0 (Nat.zero_le _))
  refine hyields _ (Yields.step hnew ?_)
  refine (dirContent_loop (fun n hn => order_short P hn) (order_length P _ _) ?_ hstart).mono ?_
  · intro j hj
    have hnext := hgrants₀ (j + 1) (by omega)
    rw [Nat.add_comm j 1, ← Nat.add_assoc] at hnext
    exact hnext
  · rintro r w₂ ⟨⟨p, len⟩, rfl, hc⟩
    obtain ⟨b, cs, hp, howned⟩ := hc.owned
    refine ⟨hc.thread, hc.os, fun t' ht' herr' => ⟨⟨b, cs, ?_, howned.base hs.leaves⟩, rfl, ht', herr',
      hc.inits.trans hs.inits, hc.requests.trans (by rw [hs.requests])⟩⟩
    rw [← show len = _ from hc.len, ← show p = _ from hp]

/-- With memory granted. -/
theorem dirContent_granted (hroom : i.val + 3 < STACK_SIZE) (hrest : Rests i.val w.thread w.thread)
    (hgen : w.heap.Generous) {path t : CStr} {rest : List CStr} {d : Nat}
    (hwords : P.wordexp w.os.fs w.os.cwd path = some (t :: rest)) (hopens : opens P w.os t = .ok d) :
    Yields (dirContent P path) w
      (Returned i.val (t :: rest).length w (visible (P.order w.os.fs d))) :=
  dirContent_returned hroom hrest hwords (grants_copyRequest hgen _ 0) hopens (grantsListing hgen _ d)

theorem Returned.listed {k n : Nat} {names : List CStr} {r : Listing} {w' : World}
    (hr : Returned k n w names r w') : Listed w names r w' ∧ Keeps w.heap w'.heap := by
  obtain ⟨b, cs, rfl, howned⟩ := hr.owned
  exact ⟨⟨rfl, howned.holds⟩, howned.leaves.keeps⟩

section Unopened

variable {path : CStr} {dp : Ptr} {w₁ : World}

/-- An error of `open_dir` is passed on. -/
theorem dirContent_errored (hrest : Rests i.val w.thread w.thread)
    (hopen : openDir P path (w.enter i) = .ok dp w₁)
    (hthread : Rests (i.val + 1) (w.enter i).thread w₁.thread) {c : ErrorCode}
    (herr : w₁.thread.errCode = some c) :
    Yields (dirContent P path) w fun r w' => r = ⟨.null, none⟩ ∧ w'.thread.errCode = some c ∧
      w'.heap = w₁.heap ∧ Rests i.val w.thread w'.thread := by
  refine edf_plain hrest (Yields.step hopen (Yields.step (errored_true herr) ?_))
  exact Yields.pure ⟨hrest.enter.back hthread, fun t ht herr' => ⟨rfl, herr'.trans herr, rfl, ht⟩⟩

/-- Where `open_dir` returns `NULL` without an error, `readdir` is given a null
    pointer. -/
theorem dirContent_unreported (hrest : Rests i.val w.thread w.thread)
    (hopen : openDir P path (w.enter i) = .ok .null w₁)
    (hthread : Rests (i.val + 1) (w.enter i).thread w₁.thread) (herr : w₁.thread.errCode = none) :
    Undefined (dirContent P path) w := by
  have hdefer := InFrame.defer (w := w₁) (hrest.enter.back hthread) (hrest.2.2 i (Nat.le_refl _))
    .closeDir .null
  have hnew : ∃ p h, dgaNew 0 8 w₁.heap = .ok p h := by
    by_cases hg : w₁.heap.Grants
    · obtain ⟨cells, hnew, -⟩ := dgaNew_names hg (fun _ => True) trivial
      exact ⟨_, _, hnew⟩
    · exact ⟨_, _, dgaNew_denied hg 0 8⟩
  obtain ⟨p, h, hnew⟩ := hnew
  refine edf_undefined hrest (Undefined.step hopen (Undefined.step (errored_false herr) ?_))
  refine Undefined.step hdefer (Undefined.step (onHeap_eq hnew) ?_)
  exact Undefined.of_eq (loop_stop maxPasses_pos (bind_stop (zoom_stop rfl) _))

/-- **`dir_content`** of a directory the system does not open returns no
    array, if it returns at all. -/
theorem dirContent_refused (hroom : i.val + 3 < STACK_SIZE) (hrest : Rests i.val w.thread w.thread)
    (hgen : w.heap.Generous) {d : Nat} (hpath : LeadsTo P w.os path d) {e : Errno}
    (hr : P.refuse .opendir (w.os.calls .opendir) = some e) :
    (∃ w', dirContent P path w = .stop .undefined w') ∨
      Yields (dirContent P path) w fun r w' => r = ⟨.null, none⟩ ∧ w'.thread.errCode.isSome ∧
        Rests i.val w.thread w'.thread := by
  have hin : InFrame i (w.thread.stack i) w.thread (w.enter i).thread := hrest.enter
  have hroom' : i.val + 1 < STACK_SIZE := by omega
  obtain ⟨dp, w₁, hopen, htried⟩ := openDir_cases (i := ⟨i.val + 1, hroom'⟩) (w := w.enter i) hroom
    (hin.called hroom') hpath.plain
  obtain ⟨rfl, -⟩ := htried.failed e (grants_copyRequest hgen _ 0) (opens_refused hr)
  cases herr : w₁.thread.errCode with
  | none => exact .inl (dirContent_unreported hrest hopen htried.thread herr)
  | some c =>
    right
    refine (dirContent_errored hrest hopen htried.thread herr).mono ?_
    rintro r w' ⟨hnull, herr', -, hrests⟩
    exact ⟨hnull, by rw [herr']; rfl, hrests⟩

end Unopened

end Prom.Modules
