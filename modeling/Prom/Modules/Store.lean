/-
  Prom.Modules.Store — the module directory as a set of names.

  A history is a list of add_module and rm_module calls with what they
  returned.  `present` is the set it stands for: the names whose last
  successful operation was an add.  The directory refines it: `Agrees` relates
  a history to the state it led to, one operation keeps the relation, and so
  does a run.

  The names are those that are not empty and have no slash: any other string
  may lead out of the directory.

  Main results:
    * `runOp_agrees`, `runOps_agrees` — one operation, and a run of them.
    * `store_is_name_set` — what a run returns and leaves, and what `mod_names`
      lists after it.
    * `names_lead_astray` — a name that starts with a dot and a name with a
      slash.
-/
import Prom.Modules.Listing

namespace Prom.Modules

open Prom.C Exec Heap Dga Errm Posix

variable {P : System} {w : World}

/-! ## §1. A call on the path of a module. -/

/-- What add_module and rm_module have in common. -/
def callOnModPath (call : Option CStr → Exec Os Int) (name modulesPath : CStr) : Exec World Int := do
  let modPath ← getModPath modulesPath name
  let ret ← onOs (call (← pathArg modPath))
  onHeap (free modPath)
  pure (if ret = -1 then -1 else 0)

theorem addModule_call (P : System) (path name modulesPath : CStr) :
    addModule P path name modulesPath = callOnModPath (symlink P path) name modulesPath := rfl

theorem rmModule_call (P : System) (name modulesPath : CStr) :
    rmModule P name modulesPath = callOnModPath (remove P) name modulesPath := rfl

/-- A function that is not an edf function returned. -/
structure Light (w w' : World) : Prop where
  heap : Keeps w.heap w'.heap
  thread : ∃ c, w'.thread = { w.thread with errCode := c }
  inits : w'.inits = w.inits

theorem Light.rests {d : Nat} {t : Thread Handler} {w w' : World} (hl : Light w w')
    (hr : Rests d t w.thread) : Rests d t w'.thread := by
  obtain ⟨c, hc⟩ := hl.thread
  rw [hc]
  exact hr.setErr c

theorem pathArg_own {lo : Nat} {p : Ptr} {s : CStr} (ho : OwnStr lo w.heap p s) :
    pathArg p w = .ok (some s) w := by
  rw [pathArg, if_neg ho.ne_null, bind_ok (onHeap_eq ho.load)]
  rfl

/-- The path get_mod_path makes: a null pointer if there is no memory for it. -/
def modPathArg (D name : CStr) (h : Heap) : Option CStr := if h.Grants then some (D.append name) else none

/-- What get_mod_path leaves: the path in a block of its own, or `NULL`; it is
    freed again. -/
theorem getModPath_arg (D name : CStr) (w : World) :
    ∃ p w₁ h₂ c, getModPath D name w = .ok p w₁ ∧
      pathArg p w₁ = .ok (modPathArg D name w.heap) w₁ ∧ (∀ s, onHeap (free p) { w₁ with os := s } =
        .ok () { w₁ with heap := h₂, os := s }) ∧
      w₁.os = w.os ∧ w₁.inits = w.inits ∧ w₁.thread = { w.thread with errCode := c } ∧
      (w.heap.Grants → c = none) ∧ Leaves (fun _ => False) w.heap h₂ ∧
      h₂.requests = w.heap.requests + 1 := by
  by_cases hg : w.heap.Grants
  · obtain ⟨rest, hpath⟩ := getModPath_eq hg D name
    let w₁ : World := { w with
      heap := w.heap.alloc (strCells (D.append name) ++ rest)
      thread := { w.thread with errCode := none } }
    have hat : w₁.heap.At w.heap.blocks.length (strCells (D.append name) ++ rest) := At_alloc_new w.heap _
    refine ⟨_, w₁, w₁.heap.release w.heap.blocks.length, none, hpath, ?_, fun s => onHeap_eq (free_eq hat),
      rfl, rfl, rfl, fun _ => rfl, (((Leaves.refl _).alloc _).release (Nat.le_refl _)).weaken ?_, rfl⟩
    · rw [modPathArg, if_pos hg]
      exact pathArg_own ⟨_, rest, rfl, Nat.le_refl _, hat⟩
    · rintro c ⟨hc, hne⟩
      exact hne (hc.resolve_left id)
  · refine ⟨_, _, w.heap.deny, some .NOT_ENOUGH_MEMORY, getModPath_denied hg D name, ?_,
      fun s => onHeap_eq (free_null _), rfl, rfl, rfl, fun hg' => absurd hg' hg, (Leaves.refl _).deny, rfl⟩
    rw [modPathArg, if_neg hg]
    rfl

/-- **The call is made with that path**, and the path freed. -/
theorem callOnModPath_eq (call : Option CStr → Exec Os Int) (name D : CStr) {r : Int} {s : Os}
    (hcall : call (modPathArg D name w.heap) w.os = .ok r s) :
    ∃ h c, callOnModPath call name D w =
        .ok (if r = -1 then -1 else 0)
          { w with heap := h, os := s, thread := { w.thread with errCode := c } } ∧
      Leaves (fun _ => False) w.heap h ∧ h.requests = w.heap.requests + 1 ∧ (w.heap.Grants → c = none) := by
  obtain ⟨p, w₁, h, c, hpath, harg, hfree, hos, hinits, hthread, hc, hleaves, hreq⟩ := getModPath_arg D name w
  have hcall' : onOs (call (modPathArg D name w.heap)) w₁ = .ok r { w₁ with os := s } :=
    onOs_eq (by rw [hos]; exact hcall)
  refine ⟨h, c, ?_, hleaves, hreq, hc⟩
  rw [callOnModPath, bind_ok hpath, bind_ok harg, bind_ok hcall', bind_ok (hfree s), hinits, hthread]
  rfl

/-- **With memory granted** the call is made with the name behind the path. -/
theorem callOnModPath_granted (call : Option CStr → Exec Os Int) {name modulesPath : CStr} {r : Int}
    {s : Os} (hg : w.heap.Grants) (hcall : call (some (modulesPath.append name)) w.os = .ok r s) :
    Yields (callOnModPath call name modulesPath) w fun r' w' =>
      r' = (if r = -1 then -1 else 0) ∧ w'.os = s ∧ w'.thread.errCode = none ∧ Light w w' := by
  obtain ⟨h, c, hrun, hl, -, hc⟩ := callOnModPath_eq (w := w) call name modulesPath
    (by rw [modPathArg, if_pos hg]; exact hcall)
  exact Yields.of_eq hrun ⟨rfl, rfl, hc hg, hl.keeps, ⟨c, rfl⟩, rfl⟩

/-- Either way, an update of the file system by that path, or none. -/
theorem callOnModPath_updates (P : System) (c : Call)
    (update : FileSys → Nat → List Byte → Except Errno FileSys) (w : World) (name modulesPath : CStr) :
    ∃ r w', callOnModPath (fun path => attempt P c (onPath path update)) name modulesPath w = .ok r w' ∧
      (r = -1 ∧ w'.os.fs = w.os.fs ∨
        r = 0 ∧ update w.os.fs w.os.cwd (modulesPath.append name).bytes = .ok w'.os.fs) ∧
      w'.os.cwd = w.os.cwd ∧ Light w w' := by
  obtain ⟨r, s, hcall, hup⟩ := attempt_updates P c update (modPathArg modulesPath name w.heap) w.os
  obtain ⟨h, c', hrun, hl, -, -⟩ :=
    callOnModPath_eq (fun path => attempt P c (onPath path update)) name modulesPath hcall
  refine ⟨_, _, hrun, ?_, by rw [hup.rest]; rfl, hl.keeps, ⟨c', rfl⟩, rfl⟩
  rcases hup.value with ⟨hr, hfs⟩ | ⟨hr, p, hp, hfs⟩
  · exact .inl ⟨if_pos hr, hfs⟩
  · -- a null pointer updates nothing, so there was memory for the path
    have hpath : p = modulesPath.append name := by
      rw [modPathArg] at hp
      split at hp
      · exact (Option.some.inj hp).symm
      · cases hp
    subst hpath
    exact .inr ⟨if_neg (by rw [hr]; decide), hfs⟩

/-! ## §2. Histories. -/

/-- An operation on the module directory. -/
inductive Op where
  | add (path name : CStr)
  | rm (name : CStr)
  deriving DecidableEq

/-- The name an operation is about. -/
def Op.name : Op → CStr
  | .add _ name => name
  | .rm name => name

def Op.isAdd : Op → Bool
  | .add _ _ => true
  | .rm _ => false

/-- A successful operation on `n`. -/
def succeededOn (n : CStr) (e : Op × Int) : Bool := e.1.name = n ∧ e.2 = 0

/-- The last successful operation on `n` was an add. -/
def present (hist : List (Op × Int)) (n : CStr) : Bool :=
  match (hist.filter (succeededOn n)).getLast? with
  | some e => e.1.isAdd
  | none => false

theorem present_concat (hist : List (Op × Int)) (op : Op) (r : Int) (n : CStr) :
    present (hist ++ [(op, r)]) n = if op.name = n ∧ r = 0 then op.isAdd else present hist n := by
  rw [present, List.filter_append]
  by_cases h : op.name = n ∧ r = 0
  · have hs : succeededOn n (op, r) = true := decide_eq_true h
    rw [List.filter_cons_of_pos hs, List.filter_nil, List.getLast?_concat, if_pos h]
  · have hs : ¬succeededOn n (op, r) = true := fun hs => h (of_decide_eq_true hs)
    rw [List.filter_cons_of_neg hs, List.filter_nil, List.append_nil, if_neg h, present]

/-- A name that stays in the directory: not empty, without a slash. -/
def PlainName (n : CStr) : Prop := n.bytes ≠ [] ∧ slash ∉ n.bytes

instance (n : CStr) : Decidable (PlainName n) := inferInstanceAs (Decidable (_ ∧ _))

/-- Carry out an operation on directory path `D`. -/
def runOp (P : System) (D : CStr) : Op → Exec World Int
  | .add path name => addModule P path name D
  | .rm name => rmModule P name D

/-- Carry out operations one after the other; what they return. -/
def runOps (P : System) (D : CStr) : List Op → Exec World (List Int)
  | [] => pure []
  | op :: ops => do
    let r ← runOp P D op
    let rs ← runOps P D ops
    pure (r :: rs)

/-! ## §3. The directory refines the set. -/

/-- `fs` came from `fs₀` by operations on the directory `D` leads to, with
    history `hist`. -/
structure Agrees (fs₀ : FileSys) (cwd : Nat) (D : CStr) (d : Nat) (hist : List (Op × Int))
    (s : Os) : Prop where
  only : FileSys.SameBut d fs₀ s.fs
  cwd_eq : s.cwd = cwd
  path : FileSys.IsDirPath s.fs cwd D.bytes d
  names : ∀ n : CStr, (s.fs.lookup d n.bytes).isSome = present hist n

variable {fs₀ : FileSys} {cwd d : Nat} {D : CStr} {hist : List (Op × Int)}

/-- Wherever nothing but an empty directory differs, its path leads to it. -/
theorem isDirPath_sameBut {fs : FileSys} (hempty : fs₀.entries d = [])
    (hdir : FileSys.IsDirPath fs₀ cwd D.bytes d) (hsame : FileSys.SameBut d fs₀ fs) :
    FileSys.IsDirPath fs cwd D.bytes d := by
  refine hdir.extends (hsame.extends ?_ ?_)
  · intro n e hl
    rw [FileSys.lookup, hempty] at hl
    cases hl
  · rw [hempty]
    exact Nat.zero_le _

/-- An operation that succeeds changes its own name and no other. -/
theorem names_after {fs fs' : FileSys} {op : Op} {e : Option Entry} (he : e.isSome = op.isAdd)
    (hlookup : ∀ i m, fs'.lookup i m = if i = d ∧ m = op.name.bytes then e else fs.lookup i m)
    (hnames : ∀ n : CStr, (fs.lookup d n.bytes).isSome = present hist n) (n : CStr) :
    (fs'.lookup d n.bytes).isSome = present (hist ++ [(op, 0)]) n := by
  rw [hlookup, present_concat]
  by_cases hn : op.name = n
  · subst hn
    rw [if_pos ⟨rfl, rfl⟩, if_pos ⟨rfl, rfl⟩]
    exact he
  · rw [if_neg (fun h => hn (CStr.ext h.2).symm), if_neg (fun h => hn h.1)]
    exact hnames n

/-- **One operation**: it succeeds only on a name it can change, and keeps the
    relation. -/
theorem runOp_agrees (hempty : fs₀.entries d = []) (hdir : FileSys.IsDirPath fs₀ cwd D.bytes d)
    (hagr : Agrees fs₀ cwd D d hist w.os) (op : Op) (hop : PlainName op.name) :
    ∃ r w', runOp P D op w = .ok r w' ∧ Light w w' ∧ (r = 0 ∨ r = -1) ∧
      (r = -1 → w'.os.fs = w.os.fs) ∧ (r = 0 → present hist op.name = !op.isAdd) ∧
      Agrees fs₀ cwd D d (hist ++ [(op, r)]) w'.os := by
  obtain ⟨hne, hslash⟩ := hop
  -- a failed operation leaves everything
  have hfail : ∀ w' : World, w'.os.fs = w.os.fs → w'.os.cwd = w.os.cwd →
      Agrees fs₀ cwd D d (hist ++ [(op, -1)]) w'.os := by
    intro w' hfs hcwd
    refine ⟨by rw [hfs]; exact hagr.only, hcwd.trans hagr.cwd_eq, by rw [hfs]; exact hagr.path, ?_⟩
    intro n
    rw [hfs, present_concat, if_neg (by rintro ⟨-, h⟩; exact absurd h (by decide))]
    exact hagr.names n
  cases op with
  | add path name =>
    obtain ⟨r, w', hrun, hval, hcwd, hlight⟩ := callOnModPath_updates P .symlink
      (fun fs cwd p => fs.symlink cwd path p) w name D
    refine ⟨r, w', hrun, hlight, ?_⟩
    rcases hval with ⟨rfl, hfs⟩ | ⟨rfl, hfs⟩
    · exact ⟨.inr rfl, fun _ => hfs, fun h => absurd h (by decide), hfail w' hfs hcwd⟩
    · rw [hagr.cwd_eq] at hfs
      have hins := FileSys.symlink_append_ok hagr.path hslash hne hfs
      obtain ⟨-, hnone, hsame, -⟩ := FileSys.insert_eq_ok hins
      have hsame' := hagr.only.trans hsame
      refine ⟨.inl rfl, fun h => absurd h (by decide), fun _ => ?_, hsame', hcwd.trans hagr.cwd_eq,
        isDirPath_sameBut hempty hdir hsame', ?_⟩
      · rw [← hagr.names, hnone]
        rfl
      · exact names_after rfl (FileSys.lookup_insert hins) hagr.names
  | rm name =>
    obtain ⟨r, w', hrun, hval, hcwd, hlight⟩ := callOnModPath_updates P .remove
      FileSys.remove w name D
    refine ⟨r, w', hrun, hlight, ?_⟩
    rcases hval with ⟨rfl, hfs⟩ | ⟨rfl, hfs⟩
    · exact ⟨.inr rfl, fun _ => hfs, fun h => absurd h (by decide), hfail w' hfs hcwd⟩
    · rw [hagr.cwd_eq] at hfs
      obtain ⟨hsome, herase⟩ := FileSys.remove_append_ok hagr.path hslash hne hfs
      replace herase : w'.os.fs = w.os.fs.erase d name.bytes := herase
      obtain ⟨hsame, -⟩ := FileSys.erase_spec w.os.fs d name.bytes
      rw [← herase] at hsame
      have hsame' := hagr.only.trans hsame
      refine ⟨.inl rfl, fun h => absurd h (by decide), fun _ => ?_, hsame', hcwd.trans hagr.cwd_eq,
        isDirPath_sameBut hempty hdir hsame', ?_⟩
      · rw [← hagr.names]
        exact hsome
      · rw [herase]
        exact names_after rfl (FileSys.lookup_erase w.os.fs d name.bytes) hagr.names

/-- **A run of operations** keeps the relation. -/
theorem runOps_agrees (hempty : fs₀.entries d = []) (hdir : FileSys.IsDirPath fs₀ cwd D.bytes d)
    {t : Thread Handler} {k : Nat} (ops : List Op) (hops : ∀ op ∈ ops, PlainName op.name)
    (hrest : Rests k t w.thread) (hagr : Agrees fs₀ cwd D d hist w.os) :
    ∃ rs w', runOps P D ops w = .ok rs w' ∧ rs.length = ops.length ∧ Rests k t w'.thread ∧
      Agrees fs₀ cwd D d (hist ++ ops.zip rs) w'.os := by
  induction ops generalizing w hist with
  | nil =>
    refine ⟨[], w, rfl, rfl, hrest, ?_⟩
    rw [List.zip_nil_left, List.append_nil]
    exact hagr
  | cons op ops ih =>
    obtain ⟨r, w₁, hrun, hlight, -, -, -, hagr₁⟩ :=
      runOp_agrees (P := P) hempty hdir hagr op (hops op List.mem_cons_self)
    obtain ⟨rs, w', hruns, hlen, hrest', hagr'⟩ :=
      ih (fun o ho => hops o (List.mem_cons_of_mem op ho)) (hlight.rests hrest) hagr₁
    refine ⟨r :: rs, w', ?_, by rw [List.length_cons, List.length_cons, hlen], hrest', ?_⟩
    · rw [runOps, bind_ok hrun, bind_ok hruns]
      rfl
    · rw [List.append_assoc, List.singleton_append] at hagr'
      exact hagr'

/-! ## §4. The store. -/

/-- **The module directory is a set of names.**  `D` leads to a directory that
    is empty at first; no word of it is special to `wordexp`. -/
theorem store_is_name_set {P : System} {w : World} {D : CStr} {d : Nat} {i : Fin STACK_SIZE}
    (hroom : i.val + 3 < STACK_SIZE) (hrest : Rests i.val w.thread w.thread)
    (hplain : ∀ fs, P.wordexp fs w.os.cwd D = some [D])
    (hdir : FileSys.IsDirPath w.os.fs w.os.cwd D.bytes d) (hempty : w.os.fs.entries d = [])
    (ops : List Op) (hops : ∀ op ∈ ops, PlainName op.name) :
    ∃ rs w', runOps P D ops w = .ok rs w' ∧ rs.length = ops.length ∧
      FileSys.SameBut d w.os.fs w'.os.fs ∧
      (∀ op, PlainName op.name → ∃ r w'', runOp P D op w' = .ok r w'' ∧ (r = 0 ∨ r = -1) ∧
        (r = -1 → w''.os.fs = w'.os.fs) ∧
        (present (ops.zip rs) op.name = op.isAdd → r = -1 ∧ w''.os.fs = w'.os.fs)) ∧
      (w'.heap.Generous → P.refuse .opendir (w'.os.calls .opendir) = none →
        ∃ r w'' names, modNames P D w' = .ok r w'' ∧ w''.os.fs = w'.os.fs ∧
          Reads w''.heap r names ∧ names.Nodup ∧
          ∀ n, n ∈ names ↔ n.bytes.head? ≠ some dot ∧ present (ops.zip rs) n = true) := by
  have hagr : Agrees w.os.fs w.os.cwd D d [] w.os := by
    refine ⟨FileSys.SameBut.refl d _, rfl, hdir, ?_⟩
    intro n
    rw [FileSys.lookup, hempty]
    rfl
  obtain ⟨rs, w', hrun, hlen, hrest', hagr'⟩ := runOps_agrees (P := P) hempty hdir ops hops hrest hagr
  rw [List.nil_append] at hagr'
  refine ⟨rs, w', hrun, hlen, hagr'.only, ?_, ?_⟩
  · intro op hop
    obtain ⟨r, w'', hop', -, hval, hsame, hchange, -⟩ := runOp_agrees (P := P) hempty hdir hagr' op hop
    refine ⟨r, w'', hop', hval, hsame, ?_⟩
    intro hp
    rcases hval with hr | hr
    · -- success would have needed the opposite
      rw [hchange hr] at hp
      exact absurd hp (by cases op.isAdd <;> decide)
    · exact ⟨hr, hsame hr⟩
  · intro hgen hopen
    -- the directory is where it was, with what the operations left in it
    have hleads : LeadsTo P w'.os D d := by
      refine ⟨?_, ?_⟩
      · rw [hagr'.cwd_eq]
        exact hplain _
      · rw [hagr'.cwd_eq]
        exact hagr'.path.leads
    obtain ⟨r, w'', hlist, hr⟩ :=
      dirContent_granted hroom (hrest'.refl_of) hgen hleads.plain (opens_ok hopen hleads.dir)
    refine ⟨r, w'', _, hlist, by rw [hr.os]; rfl, hr.listed.1.reads, nodup_visible P _ d, ?_⟩
    intro n
    rw [mem_visible_order, ← hagr'.names n]

/-- A process that has not run anything, with all the memory it asks for. -/
def World.start (fs : FileSys) (cwd : Nat) : World where
  heap := ⟨[], [], fun _ => true, 0⟩
  thread := Thread.start Handler
  os := ⟨.other 0, fs, cwd, [], fun _ => 0, false, fun _ => 0, [], []⟩
  inits := 0

theorem rests_start (fs : FileSys) (cwd : Nat) :
    Rests 0 (World.start fs cwd).thread (World.start fs cwd).thread :=
  ⟨rfl, fun _ _ => rfl, fun _ _ => ⟨rfl, rfl, rfl, rfl⟩⟩

theorem generous_start (fs : FileSys) (cwd : Nat) : (World.start fs cwd).heap.Generous :=
  fun _ _ => rfl

/-- A system without shared objects that refuses nothing. -/
def bareSystem : System where
  wordexp _ _ s := some [s]
  getcwd _ _ := none
  refuse _ _ := none
  order := storedOrder
  order_perm := storedOrder_perm
  object _ := ⟨none, none, none⟩
  inFile _ := none
  soname _ := none
  self := 0
  message := ⟨.static 0, 0⟩
  message_ne_null := by rintro ⟨⟩
  strerror _ := []

/-- The root, which holds `/m`, number 1. -/
def rootOfModules : Dir := ⟨0, [(ascii "m", .dir 1)], by decide, by decide, by decide⟩

/-- A directory without entries. -/
def emptyDir (parent : Nat) : Dir := ⟨parent, [], by decide, by decide, by decide⟩

/-- The root and an empty directory `/m`. -/
def emptyModules : FileSys where
  dirs := [rootOfModules, emptyDir 0]

/-- A process whose request for memory number `k` is refused. -/
def World.refusing (k : Nat) : World :=
  { World.start emptyModules 0 with heap := ⟨[], [], fun n => decide (n ≠ k), 0⟩ }

/-- `"/m/"`. -/
def mPath : CStr := ⟨ascii "/m/", by decide⟩

/-- `"/t"`. -/
def tPath : CStr := ⟨ascii "/t", by decide⟩

theorem mPath_isDirPath : FileSys.IsDirPath emptyModules 0 mPath.bytes 1 := ⟨by rfl, by rfl⟩

/-- `"x"`. -/
def xName : CStr := ⟨ascii "x", by decide⟩

/-- `".x"`. -/
def dotXName : CStr := ⟨ascii ".x", by decide⟩

/-- `"../x"`. -/
def upXName : CStr := ⟨ascii "../x", by decide⟩

/-- Adding `x`, adding it again, removing it and adding `.x`. -/
theorem small_store : ∃ rs w', runOps bareSystem mPath
    [.add tPath xName, .add tPath xName, .rm xName, .add tPath dotXName] (World.start emptyModules 0) =
        .ok rs w' ∧ FileSys.SameBut 1 emptyModules w'.os.fs := by
  obtain ⟨rs, w', hrun, -, hsame, -⟩ := store_is_name_set (i := ⟨0, by decide⟩) (by decide)
    (rests_start emptyModules 0) (P := bareSystem) (fun _ => rfl) mPath_isDirPath (by rfl)
    [.add tPath xName, .add tPath xName, .rm xName, .add tPath dotXName] (by decide)
  exact ⟨rs, w', hrun, hsame⟩

/-- **Other names**: `.x` is added and not listed; `../x` is added outside. -/
theorem names_lead_astray :
    (∃ w', runOps bareSystem mPath [.add tPath dotXName] (World.start emptyModules 0) = .ok [0] w' ∧
      present [(.add tPath dotXName, 0)] dotXName = true ∧
      ∃ r w'' names, modNames bareSystem mPath w' = .ok r w'' ∧ Reads w''.heap r names ∧
        dotXName ∉ names) ∧
    ∃ w', runOps bareSystem mPath [.add tPath upXName] (World.start emptyModules 0) = .ok [0] w' ∧
      emptyModules.lookup 0 (ascii "x") = none ∧
      w'.os.fs.lookup 0 (ascii "x") = some (.symlink tPath) := by
  have hlisting : ∀ w' : World, Rests 0 w'.thread w'.thread → w'.heap.Generous →
      LeadsTo bareSystem w'.os mPath 1 → visible (bareSystem.order w'.os.fs 1) = [] →
      ∃ r w'' names, modNames bareSystem mPath w' = .ok r w'' ∧ Reads w''.heap r names ∧
        dotXName ∉ names := by
    intro w' hrest hgen hleads hvis
    obtain ⟨r, w'', hlist, hr⟩ := dirContent_granted (P := bareSystem) (i := ⟨0, by decide⟩)
      (by decide) hrest hgen hleads.plain (opens_ok rfl hleads.dir)
    rw [hvis] at hr
    exact ⟨r, w'', [], hlist, hr.listed.1.reads, List.not_mem_nil⟩
  constructor
  · refine ⟨_, rfl, rfl, hlisting _ ?_ ?_ ⟨rfl, rfl⟩ rfl⟩
    · exact ⟨rfl, fun _ _ => rfl, fun _ _ => ⟨rfl, rfl, rfl, rfl⟩⟩
    · exact fun _ _ => rfl
  · exact ⟨_, rfl, rfl, rfl⟩

end Prom.Modules
