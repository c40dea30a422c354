/-
  Prom.Modules.Catalogue — what the store of modules is for.

  Seen from outside, prom keeps a catalogue: items go in under their names, are
  listed, and come out again.  `catalogue` says so without a file system, a
  loader or memory.  The store does the same where every `add` is run in the
  modules directory: its entries are then links, in the order in which the
  catalogue has the items, and each leads to its object without going through
  the store.

  Main results:
    * `Shelved.loads` — an entry loads the object that was added.
    * `step_catalogue` — one invocation does what it asks of the catalogue.
    * `prom_is_catalogue` — so does a session.
-/
import Prom.Modules.CleanCommand

namespace Prom.Modules

open Prom.C Exec Heap Dga Errm Posix

/-! ## §1. A catalogue. -/

/-- What is asked of a catalogue of items that have names. -/
inductive Request (α κ : Type) where
  /-- What is offered, if it is an item. -/
  | add (item : Option α)
  | remove (name : κ)
  | list
  | clean

/-- What is answered: how it went, what there is, what was thrown out. -/
inductive Answer (α : Type) where
  | done (ok : Bool)
  | items (all : List α)
  | cleaned (gone : List α)

/-- A catalogue that takes names that fit, up to a number of items. -/
def catalogue {α κ : Type} [DecidableEq κ] (name : α → κ) (fits : κ → Prop) [DecidablePred fits]
    (room : Nat) : Machine (List α) (Request α κ) (Answer α) where
  step items
    | .add none => (items, [.done false])
    | .add (some a) =>
      if fits (name a) ∧ name a ∉ items.map name ∧ items.length < room then (a :: items, [.done true])
      else (items, [.done false])
    | .remove n =>
      if n ∈ items.map name then (items.filter (name · ≠ n), [.done true]) else (items, [.done false])
    | .list => (items, [.items items])
    -- all items are sound
    | .clean => (items, [.cleaned []])

/-! ## §2. The entries of the store. -/

/-- The name and the description of each object. -/
abbrev Texts := Nat → CStr × CStr

/-- The name in a directory. -/
def Texts.key (text : Texts) (o : Nat) : Name := (text o).1.bytes

/-- The listing shows it: its name does not start with a dot. -/
def Texts.shows (text : Texts) (o : Nat) : Bool := (text.key o).head? ≠ some dot

/-- A shared object with the symbols of a module. -/
def IsModule (P : System) (o : Nat) : Prop :=
  ∃ name desc init, P.object o = ⟨some name, some desc, some init⟩

/-- The surroundings of the store: `base` is the file system with directory `d`
    empty. -/
structure Site (P : System) (d : Nat) (text : Texts) (base : FileSys) : Prop where
  empty : base.entries d = []
  bound : d < base.dirs.length
  path : FileSys.IsDirPath base 0 globalModulesPath.bytes d
  plain : ∀ fs cwd, FileSys.SameBut d base fs → P.wordexp fs cwd globalModulesPath = some [globalModulesPath]
  tidy : InitsTidy P
  names : ∀ o, PlainName (text o).1

/-- A path to the file of object `o` that does without the store. -/
structure PathTo (P : System) (base : FileSys) (q : CStr) (o : Nat) : Prop where
  absolute : q.bytes.head? = some slash
  file : ∃ f, base.resolve 0 q.bytes = .ok (.file f) ∧ P.inFile f = some o
  module : IsModule P o

/-- The entry links to the file of object `o`, by the object's name. -/
def LinkOf (P : System) (text : Texts) (base : FileSys) (e : Name × Entry) (o : Nat) : Prop :=
  e.1 = text.key o ∧ ∃ q, e.2 = .symlink q ∧ PathTo P base q o

/-- The store holds the links of these objects, and all else is as it was. -/
structure Shelved (P : System) (d : Nat) (text : Texts) (base fs : FileSys) (objects : List Nat) :
    Prop where
  same : FileSys.SameBut d base fs
  links : List.Forall₂ (LinkOf P text base) (fs.entries d) objects

section Entries

variable {P : System} {d o : Nat} {text : Texts} {base fs fs' : FileSys} {objects : List Nat}
  {q : CStr} {n : Name}

theorem Shelved.keys (h : Shelved P d text base fs objects) :
    (fs.entries d).map Prod.fst = objects.map text.key := by
  have hnames : List.Forall₂ (· = ·) ((fs.entries d).map Prod.fst) (objects.map text.key) := by
    rw [List.forall₂_map_left_iff, List.forall₂_map_right_iff]
    exact h.links.imp fun _ _ hlink => hlink.1
  rwa [List.forall₂_eq_eq_eq] at hnames

theorem Shelved.length (h : Shelved P d text base fs objects) :
    (fs.entries d).length = objects.length := h.links.length_eq

theorem Shelved.nodup (h : Shelved P d text base fs objects) : (objects.map text.key).Nodup := by
  rw [← h.keys]
  exact FileSys.nodup_names fs d

/-- A name is taken iff an item has it. -/
theorem Shelved.isSome_iff (h : Shelved P d text base fs objects) :
    (fs.lookup d n).isSome ↔ n ∈ objects.map text.key := by
  rw [FileSys.mem_entries_iff_lookup, h.keys]

/-- What is found under the name of an item. -/
theorem Shelved.lookup (h : Shelved P d text base fs objects) (ho : o ∈ objects) :
    ∃ q, fs.lookup d (text.key o) = some (.symlink q) ∧ PathTo P base q o := by
  obtain ⟨k, hlt, rfl⟩ := List.getElem_of_mem ho
  have hlt' : k < (fs.entries d).length := h.length ▸ hlt
  obtain ⟨hname, q, hlink, hpath⟩ := h.links.get hlt' hlt
  refine ⟨q, ?_, hpath⟩
  refine FileSys.lookup_of_mem ?_
  have hmem := List.get_mem (fs.entries d) ⟨k, hlt'⟩
  rwa [show (fs.entries d).get ⟨k, hlt'⟩ = (text.key objects[k], .symlink q) from Prod.ext hname hlink] at hmem

variable (hsite : Site P d text base)
include hsite

theorem Site.extends (h : FileSys.SameBut d base fs) : FileSys.Extends base fs :=
  h.extends_empty hsite.empty

/-- The store, from any directory. -/
theorem Site.store (cwd : Nat) (h : FileSys.SameBut d base fs) :
    FileSys.IsDirPath fs cwd globalModulesPath.bytes d :=
  store_anywhere (hsite.path.extends (hsite.extends h))

/-- Of an item there is one more link than in `base`. -/
theorem Shelved.links_lt (h : Shelved P d text base fs objects) (ho : o ∈ objects) :
    base.links < fs.links := by
  obtain ⟨q, hlook, -⟩ := h.lookup ho
  refine h.same.links_lt ?_
  rw [hsite.empty, List.countP_nil, List.countP_pos_iff]
  obtain ⟨l₁, l₂, heq, -⟩ := List.lookup_eq_some_iff.mp (show (fs.entries d).lookup _ = _ from hlook)
  exact ⟨(text.key o, .symlink q), by rw [heq]; exact List.mem_append_right _ List.mem_cons_self, rfl⟩

omit hsite in
/-- An item has a name that an entry can have. -/
theorem Shelved.valid (h : Shelved P d text base fs objects) (ho : o ∈ objects) : ValidName (text.key o) := by
  obtain ⟨e, he, hname⟩ := List.mem_map.mp (FileSys.mem_entries_iff_lookup.mp (h.isSome_iff.mpr
    (List.mem_map_of_mem ho)))
  rw [← hname]
  exact valid_entry he

/-- **An entry loads the object that was added**, whatever else is in the store. -/
theorem Shelved.loads (h : Shelved P d text base fs objects) (cwd : Nat) (ho : o ∈ objects) :
    ∃ l, loads P fs cwd (globalModulesPath.append (text o).1) = some l ∧ l.object = o := by
  obtain ⟨q, hlook, habs, ⟨f, hfile, hobject⟩, name, desc, init, hsymbols⟩ := h.lookup ho
  have hres : fs.resolve cwd (globalModulesPath.append (text o).1).bytes = .ok (.file f) :=
    FileSys.resolve_through (hsite.store cwd h.same) (h.valid ho) habs hlook (hsite.extends h.same)
      (h.links_lt hsite ho) ((FileSys.resolve_absolute habs cwd).trans hfile)
  have hat : objectAt P fs cwd (some (globalModulesPath.append (text o).1)) = some o := by
    rw [objectAt, if_pos (slash_mem_global _), hres]
    exact hobject
  refine ⟨⟨o, name, desc, init⟩, ?_, rfl⟩
  rw [Modules.loads, hat]
  simp only [hsymbols]

omit hsite in
/-- A new link is a new item. -/
theorem Shelved.insert (h : Shelved P d text base fs objects) (hq : PathTo P base q o)
    (hins : fs.insert d (text.key o) (.symlink q) = .ok fs') : Shelved P d text base fs' (o :: objects) := by
  obtain ⟨-, -, hsame, hentries⟩ := FileSys.insert_eq_ok hins
  refine ⟨h.same.trans hsame, ?_⟩
  rw [hentries]
  exact .cons ⟨rfl, q, rfl, hq⟩ h.links

omit hsite in
/-- An entry less is an item less. -/
theorem Shelved.erase (h : Shelved P d text base fs objects) (n : Name) :
    Shelved P d text base (fs.erase d n) (objects.filter (text.key · ≠ n)) := by
  obtain ⟨hsame, hentries⟩ := FileSys.erase_spec fs d n
  refine ⟨h.same.trans hsame, ?_⟩
  rw [hentries]
  refine List.rel_filter ?_ h.links
  rintro e o ⟨hname, -⟩
  show decide (e.1 ≠ n) = true ↔ decide (text.key o ≠ n) = true
  rw [hname]

/-- The items that a listing shows. -/
theorem Shelved.listed {Q : System} (h : Shelved P d text base fs objects) (cwd : Nat) (halike : Alike P Q) :
    ∃ ls, AllLoad Q fs cwd globalModulesPath (visible (Q.order fs d)) ls ∧
      (ls.map Loaded.object).Perm (objects.filter text.shows) := by
  -- each name listed is that of an item, which it loads
  have hitem : ∀ n ∈ visible (Q.order fs d), ∃ o, (o ∈ objects ∧ (text o).1 = n) ∧
      (Modules.loads Q fs cwd (globalModulesPath.append n)).map Loaded.object = some o := by
    intro n hn
    obtain ⟨-, hthere⟩ := (mem_visible_order Q fs d n).mp hn
    obtain ⟨o, ho, hname⟩ := List.mem_map.mp (h.isSome_iff.mp hthere)
    have hn' : (text o).1 = n := CStr.ext hname
    obtain ⟨l, hl, hobject⟩ := h.loads hsite cwd ho
    refine ⟨o, ⟨ho, hn'⟩, ?_⟩
    rw [halike.loads, ← hn', hl, Option.map_some, hobject]
  choose! item hmem hloads using hitem
  obtain ⟨ls, hls⟩ : ∃ ls, AllLoad Q fs cwd globalModulesPath (visible (Q.order fs d)) ls := by
    refine allLoad_of_isSome fun n hn => ?_
    rw [← Option.isSome_map (f := Loaded.object), hloads n hn]
    rfl
  have hobjects : ls.map Loaded.object = (visible (Q.order fs d)).map item := by
    have hsome := congrArg (List.map (Option.map Loaded.object)) hls
    rw [List.map_map, List.map_map] at hsome
    refine List.map_injective_iff.mpr (fun _ _ => Option.some.inj) ?_
    rw [List.map_map, List.map_map]
    exact hsome.symm.trans (List.map_congr_left hloads)
  refine ⟨ls, hls, ?_⟩
  rw [hobjects]
  have hnodup := h.nodup
  refine (List.perm_ext_iff_of_nodup ?_ (hnodup.of_map.filter _)).mpr fun o => ?_
  · refine (nodup_visible Q fs d).map_on fun n hn m hm heq => ?_
    rw [← (hmem n hn).2, ← (hmem m hm).2, heq]
  · rw [List.mem_map, List.mem_filter]
    constructor
    · rintro ⟨n, hn, rfl⟩
      refine ⟨(hmem n hn).1, decide_eq_true ?_⟩
      rw [Texts.key, (hmem n hn).2]
      exact ((mem_visible_order Q fs d n).mp hn).1
    · rintro ⟨ho, hshows⟩
      have hn : (text o).1 ∈ visible (Q.order fs d) :=
        (mem_visible_order Q fs d _).mpr ⟨of_decide_eq_true hshows, h.isSome_iff.mpr (List.mem_map_of_mem ho)⟩
      exact ⟨_, hn, List.inj_on_of_nodup_map hnodup (hmem _ hn).1 ho (congrArg CStr.bytes (hmem _ hn).2)⟩

end Entries

/-! ## §3. What is asked, and what is answered. -/

/-- An invocation that finds these objects and is refused nothing; `text` is what
    it reads at their symbols. -/
structure Served (P : System) (text : Texts) (inv : Invocation) : Prop where
  alike : Alike P inv.system
  memory : inv.heap.Generous
  granted : ∀ c k, inv.system.refuse c k = none
  names : ∀ o p, (P.object o).name = some p → loadStr p inv.heap = .ok (text o).1 inv.heap
  descs : ∀ o p, (P.object o).desc = some p → loadStr p inv.heap = .ok (text o).2 inv.heap
  message : ∃ s, loadStr inv.system.message inv.heap = .ok s inv.heap

/-- What a command line asks of the catalogue.  A path that is added must not go
    through the store, and a module is added in the modules directory. -/
inductive Asks (P : System) (d : Nat) (text : Texts) (base : FileSys) (inv : Invocation) :
    Request Nat Name → Prop where
  | add {path q : CStr} {o : Nat} (line : command inv.argv = .add path) (cwd : inv.cwd = d)
      (expands : ∀ fs, FileSys.SameBut d base fs → absPathOf inv.system fs inv.cwd path = some q)
      (leads : PathTo P base q o) : Asks P d text base inv (.add (some o))
  | addOther {path q : CStr} (line : command inv.argv = .add path)
      (expands : ∀ fs, FileSys.SameBut d base fs → absPathOf inv.system fs inv.cwd path = some q)
      (other : ∀ fs, FileSys.SameBut d base fs → loads P fs inv.cwd q = none) :
      Asks P d text base inv (.add none)
  | remove {n : CStr} (line : command inv.argv = .remove n) (plain : PlainName n) :
      Asks P d text base inv (.remove n.bytes)
  | list (line : command inv.argv = .list false) : Asks P d text base inv .list
  | clean (line : command inv.argv = .list true) : Asks P d text base inv .clean

/-- The status, and what is printed. -/
inductive Answers (text : Texts) : Int × List (List Byte) → Answer Nat → Prop where
  | done (out : List (List Byte)) : Answers text (0, out) (.done true)
  | failed (out : List (List Byte)) : Answers text (1, out) (.done false)
  | items {all shown : List Nat} (order : shown.Perm (all.filter text.shows)) :
      Answers text (0, shown.flatMap (fun o => moduleLines (text o)) ++ [ruleLine]) (.items all)
  | cleaned (gone : List Nat) :
      Answers text (0, gone.map fun o => removedLine (text o).1) (.cleaned gone)

/-- The catalogue that the store is. -/
def storeCatalogue (text : Texts) : Machine (List Nat) (Request Nat Name) (Answer Nat) :=
  catalogue text.key ValidName DIR_MAX

/-- `cmd_arg_add` of what is no module. -/
theorem cmdArgAdd_refuses {P : System} {w : World} {i : Fin STACK_SIZE} {p q message : CStr} (a : CStr)
    (rest : List CStr) (hroom : i.val + 2 < STACK_SIZE) (hrest : Rests i.val w.thread w.thread)
    (hgen : w.heap.Generous) (hq : absPathOf P w.os.fs w.os.cwd p = some q)
    (hl : loads P w.os.fs w.os.cwd q = none) (hm : loadStr P.message w.heap = .ok message w.heap) :
    Yields (cmdArgAdd P (a :: p :: rest)) w fun r w' => r = 1 ∧ w'.os.fs = w.os.fs := by
  obtain ⟨abs, w₁, habs, hown, hk₁, hcalm⟩ := absPath_yields hroom hrest hgen hq
  have hgen₁ := hk₁.generous hgen
  obtain ⟨_, w₂, hload, rfl, -, -, htried⟩ := loadModule_refuses (P := P) (w := w₁) q ⟨[], by decide⟩
    (by rw [empty_append, hcalm.os]; exact fun _ => hl) fun hno => absurd hgen₁.grants hno
  have hk₂ := hk₁.trans htried.keeps
  have hown₂ := hown.keeps htried.keeps
  obtain ⟨h', hfree, -⟩ := hown₂.free hk₂
  refine Yields.step habs ?_
  rw [if_neg hown.ne_null]
  refine Yields.step (onHeap_eq hown.load) (Yields.step hload
    (Yields.step (onHeap_eq (loadStr_keeps hk₂ hm)) (Yields.step rfl ?_)))
  refine Yields.step (onHeap_eq hfree) (Yields.pure ⟨rfl, ?_⟩)
  exact htried.dlOnly.fields.1.trans (congrArg Os.fs hcalm.os)

/-- The invocation does what it asks of the catalogue. -/
def Does (P : System) (d : Nat) (text : Texts) (base : FileSys) (shellMain : List CStr → Exec World Int)
    (fs : FileSys) (objects : List Nat) (inv : Invocation) (req : Request Nat Name) : Prop :=
  Shelved P d text base ((promPrints shellMain).step fs inv).1 ((storeCatalogue text).step objects req).1 ∧
    List.Forall₂ (Answers text) ((promPrints shellMain).step fs inv).2
      ((storeCatalogue text).step objects req).2

section Steps

variable {P : System} {d o : Nat} {text : Texts} {base fs : FileSys} {objects : List Nat}
  {q path n : CStr} {inv : Invocation} {shellMain : List CStr → Exec World Int}

/-- What an invocation that returns leaves and answers. -/
theorem promPrints_step (shellMain : List CStr → Exec World Int) {Q : Int → World → Prop}
    (h : Yields (cmdMain inv.system shellMain inv.argv) (inv.world fs) Q) :
    ∃ r w, (promPrints shellMain).step fs inv = (w.os.fs, [(r, w.os.out)]) ∧ Q r w := by
  obtain ⟨r, w, hrun, hQ⟩ := h
  refine ⟨r, w, ?_, hQ⟩
  simp only [promPrints, hrun]

/-- A path that does without the store loads its object. -/
theorem PathTo.loads (cwd : Nat) (hq : PathTo P base q o) (hext : FileSys.Extends base fs) :
    ∃ l, loads P fs cwd q = some l ∧ l.object = o := by
  obtain ⟨habs, ⟨f, hfile, hobject⟩, name, desc, init, hsymbols⟩ := hq
  have hres : fs.resolve cwd q.bytes = .ok (.file f) :=
    FileSys.resolve_mono hext ((FileSys.resolve_absolute habs cwd).trans hfile)
  have hat : objectAt P fs cwd (some q) = some o := by
    rw [objectAt, if_pos (List.mem_of_mem_head? habs), hres]
    exact hobject
  refine ⟨⟨o, name, desc, init⟩, ?_, rfl⟩
  rw [Modules.loads, hat]
  simp only [hsymbols]

variable (hsite : Site P d text base) (hserved : Served P text inv) (h : Shelved P d text base fs objects)
include hsite hserved h

/-- `add` of a module. -/
theorem step_add (line : command inv.argv = .add path) (hcwd : inv.cwd = d)
    (hpath : absPathOf inv.system fs inv.cwd path = some q) (hq : PathTo P base q o) :
    Does P d text base shellMain fs objects inv (.add (some o)) := by
  subst hcwd
  have hcases := cmdMain_cases inv.system shellMain inv.argv
  rw [line] at hcases
  obtain ⟨c, rest, hmain⟩ := hcases
  obtain ⟨l, hl, hobject⟩ := hq.loads inv.cwd (hsite.extends h.same)
  have hname : loadStr l.name inv.heap = .ok (text o).1 inv.heap := by
    refine hserved.names o l.name ?_
    rw [← hobject]
    exact loads_exported hl
  rw [← hserved.alike.loads] at hl
  obtain ⟨r, w, hstep, -, hcase, hzero⟩ := promPrints_step shellMain (by
    rw [hmain]
    exact cmdArgAdd_yields (P := inv.system) (w := inv.world fs) (i := ⟨0, by decide⟩) c rest (by decide)
      (rests_start fs inv.cwd) hserved.memory hpath hl hname)
  have hplain := hsite.names o
  have hnil : q.bytes ≠ [] := by
    intro hnil
    have habs := hq.absolute
    rw [hnil] at habs
    cases habs
  -- the link can be made iff the catalogue takes the item
  have hiff : (∃ fs', fs.symlink inv.cwd q (text o).1.bytes = .ok fs') ↔
      ValidName (text.key o) ∧ text.key o ∉ objects.map text.key ∧ objects.length < DIR_MAX := by
    rw [FileSys.symlink_name_ok_iff hplain.2 hplain.1 hnil, ← Option.not_isSome_iff_eq_none, ← h.length]
    refine ⟨fun ⟨_, hv, hno, hroom⟩ => ⟨hv, fun hin => hno (h.isSome_iff.mpr hin), hroom⟩,
      fun ⟨hv, hno, hroom⟩ => ⟨?_, hv, fun hin => hno (h.isSome_iff.mp hin), hroom⟩⟩
    rw [h.same.length]
    exact hsite.bound
  rw [Does, hstep]
  simp only [storeCatalogue, catalogue]
  rcases hcase with ⟨rfl, hlink⟩ | ⟨rfl, hsame⟩
  · rw [if_pos (hiff.mp ⟨_, hlink⟩)]
    exact ⟨h.insert hq (FileSys.symlink_name_ok hplain.2 hplain.1 hlink), .cons (.done _) .nil⟩
  · have hno : ¬(ValidName (text.key o) ∧ text.key o ∉ objects.map text.key ∧ objects.length < DIR_MAX) := by
      intro htakes
      obtain ⟨fs', hok⟩ := hiff.mpr htakes
      cases hzero (hserved.granted _ _) fs' hok
    rw [if_neg hno, hsame]
    exact ⟨h, .cons (.failed _) .nil⟩

omit hsite in
/-- `add` of anything else. -/
theorem step_addOther (line : command inv.argv = .add path)
    (hpath : absPathOf inv.system fs inv.cwd path = some q) (hother : loads P fs inv.cwd q = none) :
    Does P d text base shellMain fs objects inv (.add none) := by
  have hcases := cmdMain_cases inv.system shellMain inv.argv
  rw [line] at hcases
  obtain ⟨c, rest, hmain⟩ := hcases
  obtain ⟨message, hmessage⟩ := hserved.message
  rw [← hserved.alike.loads] at hother
  obtain ⟨r, w, hstep, rfl, hsame⟩ := promPrints_step shellMain (by
    rw [hmain]
    exact cmdArgAdd_refuses (P := inv.system) (w := inv.world fs) (i := ⟨0, by decide⟩) c rest (by decide)
      (rests_start fs inv.cwd) hserved.memory hpath hother hmessage)
  rw [Does, hstep, hsame]
  exact ⟨h, .cons (.failed _) .nil⟩

/-- `remove`. -/
theorem step_remove (line : command inv.argv = .remove n) (hplain : PlainName n) :
    Does P d text base shellMain fs objects inv (.remove n.bytes) := by
  have hcases := cmdMain_cases inv.system shellMain inv.argv
  rw [line] at hcases
  obtain ⟨c, rest, hmain⟩ := hcases
  obtain ⟨r, w, hrun, hcase⟩ := cmdArgRemove_yields (P := inv.system) (w := inv.world fs)
    hserved.memory.grants c n rest
  have hstep : (promPrints shellMain).step fs inv = (w.os.fs, [(r, w.os.out)]) := by
    simp only [promPrints, hmain, hrun]
  have hremoved : removed inv.system inv.cwd (globalModulesPath.append n) 0 fs =
      if n.bytes ∈ objects.map text.key then some (fs.erase d n.bytes) else none := by
    have happend := FileSys.remove_append (hsite.store inv.cwd h.same) hplain.2 hplain.1
    rw [removed, hserved.granted]
    show (fs.remove inv.cwd (globalModulesPath.bytes ++ n.bytes)).toOption = _
    rw [happend]
    by_cases hin : n.bytes ∈ objects.map text.key
    · -- a link is removed
      obtain ⟨o, ho, hname⟩ := List.mem_map.mp hin
      obtain ⟨q, hlook, -⟩ := h.lookup ho
      have hvalid := h.valid ho
      rw [hname] at hlook hvalid
      rw [if_pos hin, if_neg hvalid.2.2.2.1, if_neg hvalid.2.2.2.2.1, hlook]
      rfl
    · have hnone : fs.lookup d n.bytes = none :=
        Option.not_isSome_iff_eq_none.mp fun hsome => hin (h.isSome_iff.mp hsome)
      rw [if_neg hin, hnone]
      split
      · rfl
      · split <;> rfl
  rw [Does, hstep]
  simp only [storeCatalogue, catalogue]
  rcases hcase with ⟨rfl, hsome⟩ | ⟨rfl, hnone⟩
  · have hsome' := hremoved.symm.trans hsome
    split at hsome'
    · rename_i hin
      rw [if_pos hin, ← Option.some.inj hsome']
      exact ⟨h.erase n.bytes, .cons (.done _) .nil⟩
    · cases hsome'
  · have hnone' := hremoved.symm.trans hnone
    have hno : n.bytes ∉ objects.map text.key := by
      intro hin
      rw [if_pos hin] at hnone'
      cases hnone'
    have hsame : w.os.fs = fs := by
      rcases cmdArgRemove_removes _ _ hrun with ⟨hzero, -⟩ | ⟨-, hsame⟩
      · cases hzero
      · exact hsame
    rw [if_neg hno, hsame]
    exact ⟨h, .cons (.failed _) .nil⟩

omit hsite h in
/-- What a module is listed as. -/
theorem named_text {cwd : Nat} {path : CStr} {l : Loaded} {t : CStr × CStr}
    (hl : loads inv.system fs cwd path = some l) (hn : Named inv.heap l t) : t = text l.object := by
  rw [hserved.alike.loads] at hl
  rcases loads_cases P fs cwd path with ⟨-, hnone⟩ |
    ⟨o, -, ⟨name, desc, init, hname, hdesc, -, hsome⟩ | ⟨-, hnone⟩⟩
  · cases hl.symm.trans hnone
  · cases hl.symm.trans hsome
    have h₁ := hn.1.symm.trans (hserved.names o name hname)
    have h₂ := hn.2.symm.trans (hserved.descs o desc hdesc)
    injection h₁ with h₁
    injection h₂ with h₂
    exact Prod.ext h₁ h₂
  · cases hl.symm.trans hnone

/-- `list`. -/
theorem step_list (line : command inv.argv = .list false) :
    Does P d text base shellMain fs objects inv .list := by
  have hcases := cmdMain_cases inv.system shellMain inv.argv
  rw [line] at hcases
  obtain ⟨args, hmain, hargs⟩ := hcases
  obtain ⟨ls, hload, hperm⟩ := h.listed hsite inv.cwd hserved.alike
  -- each module of the array was loaded from an entry
  have hfrom : ∀ (k : Nat) (l : Loaded), ls[k]? = some l → ∃ n,
      loads inv.system fs inv.cwd (globalModulesPath.append n) = some l := by
    intro k l hl
    have hlt : k < (visible (inv.system.order fs d)).length := by
      rw [hload.length]
      exact (List.getElem?_eq_some_iff.mp hl).1
    obtain ⟨l', hl', hloads⟩ := hload.get (List.getElem?_eq_getElem hlt)
    cases hl.symm.trans hl'
    exact ⟨_, hloads⟩
  have hpath : LeadsTo inv.system (inv.world fs).os globalModulesPath d := by
    refine ⟨?_, (hsite.store inv.cwd h.same).leads⟩
    rw [hserved.alike.wordexp]
    exact hsite.plain fs inv.cwd h.same
  have hexports : Exports inv.system inv.heap := by
    intro o p hp
    rw [hserved.alike.object] at hp
    exact hp.elim (fun hp => ⟨_, hserved.names o p hp⟩) fun hp => ⟨_, hserved.descs o p hp⟩
  have hquiet : Quiet ls (inv.world fs).inits := by
    intro j l hl
    obtain ⟨n, hloads⟩ := hfrom j l hl
    rw [hserved.alike.loads] at hloads
    exact hsite.tidy.loaded hloads _ none
  obtain ⟨r, w, hstep, hshown, -, hleaves⟩ := promPrints_step shellMain (by
    rw [hmain]
    exact cmdArgList_yields (P := inv.system) (w := inv.world fs) (i := ⟨0, by decide⟩) (by decide)
      (rests_start fs inv.cwd) hserved.memory hargs hpath (hserved.granted _ _) hload hexports)
  obtain ⟨rfl, texts, htexts, hout⟩ := hshown hquiet
  have heq : texts = ls.map fun l => text l.object := by
    apply List.ext_getElem
    · rw [List.length_map, htexts.length_eq]
    · intro k hk hk'
      rw [List.length_map] at hk'
      obtain ⟨n, hloads⟩ := hfrom k _ (List.getElem?_eq_getElem hk')
      rw [List.getElem_map]
      exact named_text hserved hloads (htexts.get hk' hk)
  have hprinted : w.os.out = (ls.map Loaded.object).flatMap (fun o => moduleLines (text o)) ++ [ruleLine] := by
    rw [hout, heq, List.flatMap_map, List.flatMap_map]
    rfl
  rw [Does, hstep, hleaves.fs, hprinted]
  exact ⟨h, .cons (.items hperm) .nil⟩

/-- `list --clean`: every item is sound. -/
theorem step_clean (line : command inv.argv = .list true) :
    Does P d text base shellMain fs objects inv .clean := by
  obtain ⟨args, hmain, hargs⟩ := cmdMain_clean inv.system shellMain line
  have hpath := hsite.store inv.cwd h.same
  obtain ⟨ls, hload, -⟩ := h.listed hsite inv.cwd hserved.alike
  have hwords : inv.system.wordexp fs inv.cwd globalModulesPath = some [globalModulesPath] := by
    rw [hserved.alike.wordexp]
    exact hsite.plain fs inv.cwd h.same
  have hopens : opens inv.system (inv.world fs).os globalModulesPath = .ok d :=
    opens_ok (hserved.granted _ _) hpath.leads
  obtain ⟨r, w, hstep, rfl, hleaves⟩ := promPrints_step shellMain (by
    rw [hmain]
    exact cmdArgList_leaves (P := inv.system) (w := inv.world fs) (i := ⟨0, by decide⟩) (by decide)
      (rests_start fs inv.cwd) hserved.memory hargs hwords hopens)
  have hnone : refusedNames inv.system (inv.world fs).os.cwd globalModulesPath
      (visible (inv.system.order (inv.world fs).os.fs d)) ((inv.world fs).os.calls .remove)
      (inv.world fs).os.fs = [] := refusedNames_nil hload
  rw [hnone] at hleaves
  rw [Does, hstep, hleaves.out, hleaves.fs]
  exact ⟨h, .cons (.cleaned []) .nil⟩

/-- **One invocation does what it asks of the catalogue.** -/
theorem step_catalogue {req : Request Nat Name} (hasks : Asks P d text base inv req) :
    Does P d text base shellMain fs objects inv req := by
  cases hasks with
  | add line cwd expands leads => exact step_add hsite hserved h line cwd (expands fs h.same) leads
  | addOther line expands other =>
    exact step_addOther hserved h line (expands fs h.same) (other fs h.same)
  | remove line plain => exact step_remove hsite hserved h line plain
  | list line => exact step_list hsite hserved h line
  | clean line => exact step_clean hsite hserved h line

end Steps

/-- **THE STORE IS A CATALOGUE.**  For every session of `prom module` commands
that are refused nothing, each with memory and from any directory but that `add`
of a module runs in the modules directory, prom answers as the catalogue does: a
name is taken until it is removed, a second module of it is turned down and so is
what is no module, `list` prints the name and the description of every item
whose name does not start with a dot, in an order of its own, and `list --clean`
finds nothing to remove.  At the end the store holds what the catalogue does. -/
theorem prom_is_catalogue {P : System} {d : Nat} {text : Texts} {base fs : FileSys} {objects : List Nat}
    (shellMain : List CStr → Exec World Int) (hsite : Site P d text base)
    (hstart : Shelved P d text base fs objects) {session : List Invocation}
    {requests : List (Request Nat Name)}
    (hasks : List.Forall₂ (fun inv req => Served P text inv ∧ Asks P d text base inv req) session requests) :
    Shelved P d text base ((promPrints shellMain).after fs session)
        ((storeCatalogue text).after objects requests) ∧
      List.Forall₂ (Answers text) ((promPrints shellMain).out fs session)
        ((storeCatalogue text).out objects requests) := by
  have hstep : ∀ fs objects inv req, Shelved P d text base fs objects →
      Served P text inv ∧ Asks P d text base inv req → Does P d text base shellMain fs objects inv req :=
    fun fs objects inv req h hin => step_catalogue hsite hin.1 h hin.2
  exact Machine.refines hstep hasks hstart

/-! ### A module added twice, listed and removed. -/

/-- Each object calls itself `x`, and describes itself so. -/
def xTexts : Texts := fun _ => (xName, xName)

/-- Run in directory `cwd`. -/
def homeInvocation (cwd : Nat) (argv : List CStr) : Invocation := { pInvocation argv with cwd }

theorem home_site : Site prudentSystem 4 xTexts homeModules where
  empty := rfl
  bound := by decide
  path := homeModules_path 0
  plain _ _ _ := rfl
  tidy o init hinit k c := by
    by_cases ho : o = 0
    · subst ho
      cases hinit
      rfl
    · rw [show prudentSystem.object o = ⟨none, none, none⟩ from if_neg ho] at hinit
      cases hinit
  names _ := show PlainName xName from ⟨by decide, by decide⟩

theorem home_served (cwd : Nat) (argv : List CStr) :
    Served prudentSystem xTexts (homeInvocation cwd argv) := by
  have hread : ∀ o p, (prudentSystem.object o).name = some p ∨ (prudentSystem.object o).desc = some p →
      loadStr p (homeWorld 0).heap = .ok xName (homeWorld 0).heap := by
    intro o p hp
    by_cases ho : o = 0
    · subst ho
      rcases hp with hp | hp <;> (cases hp; rfl)
    · rw [show prudentSystem.object o = ⟨none, none, none⟩ from if_neg ho] at hp
      rcases hp with hp | hp <;> cases hp
  exact ⟨⟨rfl, rfl, rfl, rfl⟩, generous_start homeModules 0, fun _ _ => rfl, fun o p hp => hread o p (.inl hp),
    fun o p hp => hread o p (.inr hp), xName, rfl⟩

theorem addLine_asks : Asks prudentSystem 4 xTexts homeModules (homeInvocation 4 addLine) (.add (some 0)) :=
  .add (show command addLine = .add pPath by decide) rfl (fun _ _ => rfl)
    ⟨rfl, ⟨0, rfl, rfl⟩, _, _, _, rfl⟩

/-- The second `add` is turned down. -/
theorem home_session : List.Forall₂ (Answers xTexts)
    ((promPrints fun _ => pure 0).out homeModules [homeInvocation 4 addLine, homeInvocation 4 addLine,
      homeInvocation 0 listLine, homeInvocation 0 removeLine])
    [.done true, .done false, .items [0], .done true] := by
  have hasks : List.Forall₂ (fun inv req => Served prudentSystem xTexts inv ∧
        Asks prudentSystem 4 xTexts homeModules inv req)
      [homeInvocation 4 addLine, homeInvocation 4 addLine, homeInvocation 0 listLine,
        homeInvocation 0 removeLine]
      [.add (some 0), .add (some 0), .list, .remove xName.bytes] :=
    .cons ⟨home_served 4 addLine, addLine_asks⟩ (.cons ⟨home_served 4 addLine, addLine_asks⟩
      (.cons ⟨home_served 0 listLine, .list (show command listLine = .list false by decide)⟩
        (.cons ⟨home_served 0 removeLine, .remove (show command removeLine = .remove xName by decide)
          ⟨by decide, by decide⟩⟩ .nil)))
  exact (prom_is_catalogue (fun _ => pure 0) home_site ⟨FileSys.SameBut.refl 4 homeModules, .nil⟩ hasks).2

end Prom.Modules
