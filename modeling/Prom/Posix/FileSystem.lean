/-
  Prom.Posix.FileSystem — directories, symbolic links and path resolution.

  A file system is a list of directories, directory 0 being the root; a
  directory has a parent and named entries, each a directory, a file or a
  symbolic link.  A directory carries the proof that its names are names and
  differ from each other.

  A path is walked component by component.  A link met on the way is walked
  from the directory it lies in; links nested deeper than there are links in
  the file system are a loop.  A trailing slash asks for a directory, as if a
  dot followed.

  Main results:
    * `components_append_name` — a name behind a directory path that ends in a
      slash is the last component.
    * `walk_mono`, `resolve_mono` — adding entries does not change where a path
      leads that led somewhere.
    * `lookup_insert`, `lookup_erase` — what an update of a directory does to
      lookups anywhere.
    * `symlink_append`, `remove_append` — linking and removing a name in a
      directory known by its path.
    * `IsDirPath.of_emptied`, `insert_emptied` — a path that does without the
      entries of a directory keeps leading where it does.
-/
import Mathlib.Data.List.Nodup
import Prom.C.Cell

namespace Prom.Posix

open Prom.C

/-! ## §1. File systems. -/

/-- `errno`. -/
inductive Errno where
  | EACCES | EBUSY | EEXIST | EFAULT | EINVAL | ELOOP | ENAMETOOLONG | ENFILE | ENOENT | ENOMEM
  | ENOSPC | ENOTDIR | ENOTEMPTY
  | other (n : Nat)
  deriving Repr, DecidableEq

/-- A component of a path. -/
abbrev Name := List Byte

/-- The byte `'/'`. -/
def slash : Byte := 47

/-- The byte `'.'`. -/
def dot : Byte := 46

def NAME_MAX : Nat := 255

/-- What the entries of one directory take fits in memory. -/
def DIR_MAX : Nat := 2 ^ 48

/-- A name an entry can have. -/
def ValidName (n : Name) : Prop :=
  n ≠ [] ∧ slash ∉ n ∧ 0 ∉ n ∧ n ≠ [dot] ∧ n ≠ [dot, dot] ∧ n.length ≤ NAME_MAX

instance (n : Name) : Decidable (ValidName n) := inferInstanceAs (Decidable (_ ∧ _))

/-- What a name in a directory stands for. -/
inductive Entry where
  | dir (d : Nat)
  | file (f : Nat)
  | symlink (target : CStr)
  deriving DecidableEq

/-- Is the entry a symbolic link? -/
def Entry.isLink : Entry → Bool
  | symlink _ => true
  | _ => false

/-- A directory. -/
structure Dir where
  parent : Nat
  entries : List (Name × Entry)
  nodup : (entries.map Prod.fst).Nodup
  valid : ∀ e ∈ entries, ValidName e.1
  small : entries.length ≤ DIR_MAX

/-- A file system. -/
structure FileSys where
  dirs : List Dir

/-- What a path leads to. -/
inductive Node where
  | dir (d : Nat)
  | file (f : Nat)
  deriving Repr, DecidableEq

namespace FileSys

/-- The directory a directory lies in. -/
def parent (fs : FileSys) (d : Nat) : Nat := ((fs.dirs[d]?).map Dir.parent).getD d

/-- The entries of a directory. -/
def entries (fs : FileSys) (d : Nat) : List (Name × Entry) := ((fs.dirs[d]?).map Dir.entries).getD []

/-- The entry of a name in a directory. -/
def lookup (fs : FileSys) (d : Nat) (n : Name) : Option Entry := (fs.entries d).lookup n

/-- The number of symbolic links. -/
def links (fs : FileSys) : Nat := (fs.dirs.map fun D => D.entries.countP (·.2.isLink)).sum

end FileSys

/-! ## §2. Paths. -/

/-- The parts of a path between its slashes. -/
def splitSlash : List Byte → List Name
  | [] => [[]]
  | b :: rest =>
    if b = slash then [] :: splitSlash rest
    else
      match splitSlash rest with
      | [] => [[b]]
      | w :: ws => (b :: w) :: ws

/-- The components of a path. -/
def components (p : List Byte) : List Name := (splitSlash p).filter (· ≠ [])

/-- The path asks for a directory by a slash at its end. -/
def trailing (p : List Byte) : Bool := p.getLast? = some slash

/-- The components, with a dot for a trailing slash. -/
def steps (p : List Byte) : List Name := components p ++ if trailing p then [[dot]] else []

/-- Where a path starts. -/
def start (cwd : Nat) (p : List Byte) : Nat := if p.head? = some slash then 0 else cwd

theorem splitSlash_ne_nil (p : List Byte) : splitSlash p ≠ [] := by
  induction p with
  | nil => exact List.cons_ne_nil _ _
  | cons b rest ih =>
    rw [splitSlash]
    split
    · exact List.cons_ne_nil _ _
    · split
      · exact List.cons_ne_nil _ _
      · exact List.cons_ne_nil _ _

theorem splitSlash_append (p q : List Byte) :
    splitSlash (p ++ slash :: q) = splitSlash p ++ splitSlash q := by
  induction p with
  | nil =>
    show splitSlash (slash :: q) = [[]] ++ splitSlash q
    rw [splitSlash, if_pos rfl]
    rfl
  | cons b p ih =>
    rw [List.cons_append, splitSlash, splitSlash, ih]
    by_cases hb : b = slash
    · rw [if_pos hb, if_pos hb, List.cons_append]
    · rw [if_neg hb, if_neg hb]
      cases hp : splitSlash p with
      | nil => exact absurd hp (splitSlash_ne_nil p)
      | cons w ws => rfl

theorem splitSlash_name {n : Name} (h : slash ∉ n) : splitSlash n = [n] := by
  induction n with
  | nil => rfl
  | cons b n ih =>
    have hb : b ≠ slash := fun hb => h (hb ▸ List.mem_cons_self)
    rw [splitSlash, if_neg hb, ih fun hn => h (List.mem_cons_of_mem b hn)]

/-- The components of a name. -/
theorem components_name {n : Name} (h : slash ∉ n) (hne : n ≠ []) : components n = [n] := by
  rw [components, splitSlash_name h]
  simp only [List.filter_cons, List.filter_nil, hne, ne_eq, not_false_eq_true, decide_true, if_true]

/-- **A name behind a directory path that ends in a slash is its last
    component.** -/
theorem components_append_name {p : List Byte} (hp : trailing p = true) {n : Name}
    (h : slash ∉ n) (hne : n ≠ []) : components (p ++ n) = components p ++ [n] := by
  have hlast : p.getLast? = some slash := of_decide_eq_true hp
  obtain ⟨q, rfl⟩ := List.getLast?_eq_some_iff.mp hlast
  rw [List.append_assoc, List.singleton_append, components, components, splitSlash_append,
    splitSlash_append, splitSlash_name h, List.filter_append, List.filter_append]
  simp only [splitSlash, List.filter_cons, List.filter_nil, hne, ne_eq, not_true_eq_false,
    not_false_eq_true, decide_true, decide_false, if_true, Bool.false_eq_true, if_false,
    List.append_nil]

/-- What stands behind the last slash. -/
theorem split_last_slash {p : List Byte} (h : slash ∈ p) : ∃ q s, p = q ++ slash :: s ∧ slash ∉ s := by
  obtain ⟨as, bs, heq, hnot⟩ := List.eq_append_cons_of_mem (List.mem_reverse.mpr h)
  refine ⟨bs.reverse, as.reverse, ?_, fun hmem => hnot (List.mem_reverse.mp hmem)⟩
  rw [← List.reverse_reverse p, heq, List.reverse_append, List.reverse_cons, List.append_assoc,
    List.singleton_append]

/-- The last component. -/
theorem components_last {q s : List Byte} (h : slash ∉ s) (hne : s ≠ []) :
    components (q ++ slash :: s) = components q ++ [s] := by
  rw [components, splitSlash_append, List.filter_append, ← components, ← components, components_name h hne]

theorem trailing_append_name (p : List Byte) {n : Name} (h : slash ∉ n) (hne : n ≠ []) :
    trailing (p ++ n) = false := by
  rw [trailing, List.getLast?_append_of_ne_nil p hne]
  apply decide_eq_false
  intro hlast
  exact h (List.mem_of_getLast? hlast)

theorem start_append {p : List Byte} (hp : p ≠ []) (cwd : Nat) (q : List Byte) :
    start cwd (p ++ q) = start cwd p := by
  cases p with
  | nil => exact absurd rfl hp
  | cons b p => rfl

/-! ## §3. Resolution. -/

namespace FileSys

/-- Walk these components from directory `cur`; `follow d t` is where the
    link to `t` in directory `d` leads. -/
def walkFrom (fs : FileSys) (follow : Nat → CStr → Except Errno Node) :
    Nat → List Name → Except Errno Node
  | cur, [] => .ok (.dir cur)
  | cur, c :: rest =>
    if c = [dot] then walkFrom fs follow cur rest
    else if c = [dot, dot] then walkFrom fs follow (fs.parent cur) rest
    else
      match fs.lookup cur c with
      | none => .error .ENOENT
      | some (.dir d) => walkFrom fs follow d rest
      | some (.file f) => if rest = [] then .ok (.file f) else .error .ENOTDIR
      | some (.symlink t) =>
        match follow cur t with
        | .ok (.dir d) => walkFrom fs follow d rest
        | .ok (.file f) => if rest = [] then .ok (.file f) else .error .ENOTDIR
        | .error e => .error e

/-- Walk these components, with links nested at most `depth` deep. -/
def walk (fs : FileSys) : (depth : Nat) → Nat → List Name → Except Errno Node
  | 0 => fs.walkFrom fun _ _ => .error .ELOOP
  | depth + 1 => fs.walkFrom fun cur t =>
    if t.bytes = [] then .error .ENOENT
    else fs.walk depth (start cur t.bytes) (steps t.bytes)

/-- Where a path leads, every link followed. -/
def resolve (fs : FileSys) (cwd : Nat) (p : List Byte) : Except Errno Node :=
  if p = [] then .error .ENOENT else fs.walk fs.links (start cwd p) (steps p)

/-- The directory in which the last component of a path is looked up. -/
def resolveParent (fs : FileSys) (cwd : Nat) (p : List Byte) : Except Errno Node :=
  fs.walk fs.links (start cwd p) (components p).dropLast

end FileSys

/-! ## §4. Updates. -/

namespace Dir

/-- A new entry. -/
def insert (D : Dir) (n : Name) (e : Entry) (hv : ValidName n) (hn : n ∉ D.entries.map Prod.fst)
    (hroom : D.entries.length < DIR_MAX) : Dir where
  parent := D.parent
  entries := (n, e) :: D.entries
  nodup := List.nodup_cons.mpr ⟨hn, D.nodup⟩
  valid := by
    intro x hx
    rcases List.mem_cons.mp hx with rfl | hx
    · exact hv
    · exact D.valid x hx
  small := hroom

/-- One entry less. -/
def erase (D : Dir) (n : Name) : Dir where
  parent := D.parent
  entries := D.entries.filter (·.1 ≠ n)
  nodup := D.nodup.sublist (List.filter_sublist.map Prod.fst)
  valid := fun x hx => D.valid x (List.mem_of_mem_filter hx)
  small := Nat.le_trans (List.length_filter_le _ _) D.small

end Dir

namespace FileSys

/-- Replace a directory. -/
def setDir (fs : FileSys) (d : Nat) (D : Dir) : FileSys := ⟨fs.dirs.set d D⟩

/-- Add an entry to directory `d`. -/
def insert (fs : FileSys) (d : Nat) (n : Name) (e : Entry) : Except Errno FileSys :=
  match fs.dirs[d]? with
  | none => .error .ENOENT
  | some D =>
    if hv : ValidName n then
      if h : n ∉ D.entries.map Prod.fst ∧ D.entries.length < DIR_MAX then
        .ok (fs.setDir d (D.insert n e hv h.1 h.2))
      else .error .ENOSPC
    else .error .ENAMETOOLONG

/-- Take an entry out of directory `d`. -/
def erase (fs : FileSys) (d : Nat) (n : Name) : FileSys :=
  match fs.dirs[d]? with
  | none => fs
  | some D => fs.setDir d (D.erase n)

/-- `symlink(target, path)`. -/
def symlink (fs : FileSys) (cwd : Nat) (target : CStr) (path : List Byte) : Except Errno FileSys :=
  if target.bytes = [] ∨ path = [] then .error .ENOENT
  else
    match (components path).getLast? with
    | none => .error .EEXIST
    | some n =>
      match fs.resolveParent cwd path with
      | .error e => .error e
      | .ok (.file _) => .error .ENOTDIR
      | .ok (.dir d) =>
        if n = [dot] ∨ n = [dot, dot] ∨ (fs.lookup d n).isSome then .error .EEXIST
        else if trailing path then .error .ENOENT
        else fs.insert d n (.symlink target)

/-- `remove(path)`: `unlink` of what is not a directory, `rmdir` of what is. -/
def remove (fs : FileSys) (cwd : Nat) (path : List Byte) : Except Errno FileSys :=
  if path = [] then .error .ENOENT
  else
    match (components path).getLast? with
    | none => .error .EBUSY
    | some n =>
      match fs.resolveParent cwd path with
      | .error e => .error e
      | .ok (.file _) => .error .ENOTDIR
      | .ok (.dir d) =>
        if n = [dot] then .error .EINVAL
        else if n = [dot, dot] then .error .ENOTEMPTY
        else
          match fs.lookup d n with
          | none => .error .ENOENT
          | some (.dir d') => if fs.entries d' = [] then .ok (fs.erase d n) else .error .ENOTEMPTY
          | some _ => if trailing path then .error .ENOTDIR else .ok (fs.erase d n)

end FileSys

/-! ## §5. What an update changes. -/

namespace FileSys

/-- `fs'` is `fs` but for the entries of directory `d`. -/
structure SameBut (d : Nat) (fs fs' : FileSys) : Prop where
  length : fs'.dirs.length = fs.dirs.length
  other : ∀ i, i ≠ d → fs'.dirs[i]? = fs.dirs[i]?
  parent : fs'.parent d = fs.parent d

theorem SameBut.refl (d : Nat) (fs : FileSys) : SameBut d fs fs := ⟨rfl, fun _ _ => rfl, rfl⟩

theorem SameBut.trans {d : Nat} {fs fs' fs'' : FileSys} (h : SameBut d fs fs')
    (h' : SameBut d fs' fs'') : SameBut d fs fs'' :=
  ⟨h'.length.trans h.length, fun i hi => (h'.other i hi).trans (h.other i hi),
    h'.parent.trans h.parent⟩

theorem SameBut.entries {d : Nat} {fs fs' : FileSys} (h : SameBut d fs fs') {i : Nat} (hi : i ≠ d) :
    fs'.entries i = fs.entries i := by
  rw [FileSys.entries, FileSys.entries, h.other i hi]

theorem SameBut.lookup {d : Nat} {fs fs' : FileSys} (h : SameBut d fs fs') {i : Nat} (hi : i ≠ d)
    (n : Name) : fs'.lookup i n = fs.lookup i n := by
  rw [FileSys.lookup, FileSys.lookup, h.entries hi]

theorem SameBut.parent_eq {d : Nat} {fs fs' : FileSys} (h : SameBut d fs fs') (i : Nat) :
    fs'.parent i = fs.parent i := by
  by_cases hi : i = d
  · rw [hi]
    exact h.parent
  · rw [FileSys.parent, FileSys.parent, h.other i hi]

theorem setDir_sameBut {fs : FileSys} {d : Nat} {D D' : Dir} (hD : fs.dirs[d]? = some D)
    (hpar : D'.parent = D.parent) : SameBut d fs (fs.setDir d D') := by
  have hlt : d < fs.dirs.length := (List.getElem?_eq_some_iff.mp hD).1
  refine ⟨List.length_set, fun i hi => List.getElem?_set_ne (Ne.symm hi), ?_⟩
  rw [FileSys.parent, FileSys.parent, setDir, List.getElem?_set_self hlt, hD]
  exact hpar

theorem entries_setDir {fs : FileSys} {d : Nat} {D : Dir} (hlt : d < fs.dirs.length) :
    (fs.setDir d D).entries d = D.entries := by
  rw [FileSys.entries, setDir, List.getElem?_set_self hlt]
  rfl

theorem mem_entries_iff_lookup {fs : FileSys} {d : Nat} {n : Name} :
    (fs.lookup d n).isSome ↔ n ∈ (fs.entries d).map Prod.fst := by
  rw [lookup]
  induction fs.entries d with
  | nil => simp only [List.lookup_nil, Option.isSome_none, Bool.false_eq_true, List.map_nil,
      List.not_mem_nil]
  | cons e es ih =>
    obtain ⟨m, x⟩ := e
    by_cases hm : n = m
    · subst hm
      simp only [List.lookup_cons_self, Option.isSome_some, List.map_cons, List.mem_cons, true_or]
    · have hne : (n == m) = false := beq_eq_false_iff_ne.mpr hm
      simp only [List.lookup_cons, hne, ih, List.map_cons, List.mem_cons, hm, false_or]

/-- A directory has each name once. -/
theorem nodup_names (fs : FileSys) (d : Nat) : ((fs.entries d).map Prod.fst).Nodup := by
  rw [entries]
  cases fs.dirs[d]? with
  | none => exact List.nodup_nil
  | some D => exact D.nodup

/-- So an entry is what its name leads to. -/
theorem lookup_of_mem {fs : FileSys} {d : Nat} {n : Name} {e : Entry} (h : (n, e) ∈ fs.entries d) :
    fs.lookup d n = some e := by
  have hnodup := nodup_names fs d
  rw [lookup]
  generalize fs.entries d = es at h hnodup
  induction es with
  | nil => cases h
  | cons x es ih =>
    obtain ⟨m, y⟩ := x
    obtain ⟨hnot, hnodup⟩ := List.nodup_cons.mp hnodup
    rcases List.mem_cons.mp h with heq | hmem
    · cases heq
      exact List.lookup_cons_self
    · have hne : n ≠ m := by
        rintro rfl
        exact hnot (List.mem_map.mpr ⟨_, hmem, rfl⟩)
      rw [List.lookup_cons, beq_eq_false_iff_ne.mpr hne]
      exact ih hmem hnodup

/-- **A new entry** is found, and no other lookup changes. -/
theorem insert_eq_ok {fs fs' : FileSys} {d : Nat} {n : Name} {e : Entry}
    (h : fs.insert d n e = .ok fs') :
    ValidName n ∧ fs.lookup d n = none ∧ SameBut d fs fs' ∧
      fs'.entries d = (n, e) :: fs.entries d := by
  unfold insert at h
  cases hD : fs.dirs[d]? with
  | none =>
    rw [hD] at h
    cases h
  | some D =>
    rw [hD] at h
    simp only at h
    split at h
    · rename_i hv
      split at h
      · rename_i hroom
        cases h
        -- the name is valid and free: this is the only way out
        have hent : fs.entries d = D.entries := by rw [FileSys.entries, hD]; rfl
        have hlt : d < fs.dirs.length := (List.getElem?_eq_some_iff.mp hD).1
        refine ⟨hv, ?_, setDir_sameBut hD rfl, ?_⟩
        · apply Option.not_isSome_iff_eq_none.mp
          rw [mem_entries_iff_lookup, hent]
          exact hroom.1
        · rw [entries_setDir hlt, hent]
          rfl
      · cases h
    · cases h

/-- When an entry can be made. -/
theorem insert_ok_iff {fs : FileSys} {d : Nat} {n : Name} {e : Entry} :
    (∃ fs', fs.insert d n e = .ok fs') ↔ d < fs.dirs.length ∧ ValidName n ∧ fs.lookup d n = none ∧
      (fs.entries d).length < DIR_MAX := by
  rw [← Option.not_isSome_iff_eq_none, mem_entries_iff_lookup]
  unfold insert entries
  cases hD : fs.dirs[d]? with
  | none =>
    refine ⟨fun ⟨fs', h⟩ => (by cases h), fun ⟨hlt, _⟩ => ?_⟩
    exact absurd (List.getElem?_eq_none_iff.mp hD) (Nat.not_le.mpr hlt)
  | some D =>
    have hlt : d < fs.dirs.length := (List.getElem?_eq_some_iff.mp hD).1
    simp only [Option.map_some, Option.getD_some]
    split
    · rename_i hv
      split
      · rename_i hroom
        exact ⟨fun _ => ⟨hlt, hv, hroom⟩, fun _ => ⟨_, rfl⟩⟩
      · rename_i hroom
        exact ⟨fun ⟨fs', h⟩ => (by cases h), fun ⟨_, _, h⟩ => absurd h hroom⟩
    · rename_i hv
      exact ⟨fun ⟨fs', h⟩ => (by cases h), fun ⟨_, h, _⟩ => absurd h hv⟩

theorem lookup_insert {fs fs' : FileSys} {d : Nat} {n : Name} {e : Entry}
    (h : fs.insert d n e = .ok fs') (i : Nat) (m : Name) :
    fs'.lookup i m = if i = d ∧ m = n then some e else fs.lookup i m := by
  obtain ⟨-, -, hsame, hent⟩ := insert_eq_ok h
  by_cases hi : i = d
  · subst hi
    rw [lookup, hent]
    by_cases hm : m = n
    · subst hm
      rw [if_pos ⟨rfl, rfl⟩, List.lookup_cons_self]
    · rw [if_neg fun h => hm h.2, List.lookup_cons, beq_eq_false_iff_ne.mpr hm]
      rfl
  · rw [if_neg fun h => hi h.1, hsame.lookup hi]

/-- Erasing takes out the entries of one name in one directory. -/
theorem erase_spec (fs : FileSys) (d : Nat) (n : Name) :
    SameBut d fs (fs.erase d n) ∧ (fs.erase d n).entries d = (fs.entries d).filter (·.1 ≠ n) := by
  unfold erase
  cases hD : fs.dirs[d]? with
  | none =>
    refine ⟨SameBut.refl d fs, ?_⟩
    rw [entries, hD]
    rfl
  | some D =>
    have hlt : d < fs.dirs.length := (List.getElem?_eq_some_iff.mp hD).1
    refine ⟨setDir_sameBut hD rfl, ?_⟩
    rw [entries_setDir hlt, entries, hD]
    rfl

theorem lookup_filter (l : List (Name × Entry)) (n m : Name) :
    (l.filter (·.1 ≠ n)).lookup m = if m = n then none else l.lookup m := by
  induction l with
  | nil => simp only [List.filter_nil, List.lookup_nil, ite_self]
  | cons e l ih =>
    obtain ⟨k, x⟩ := e
    by_cases hk : k = n
    · subst hk
      rw [List.filter_cons_of_neg (by simp), ih]
      by_cases hm : m = k
      · rw [if_pos hm, if_pos hm]
      · rw [if_neg hm, if_neg hm, List.lookup_cons, beq_eq_false_iff_ne.mpr hm]
    · rw [List.filter_cons_of_pos (by simp [hk]), List.lookup_cons, List.lookup_cons]
      by_cases hm : m = k
      · subst hm
        rw [beq_self_eq_true, if_neg hk]
      · rw [beq_eq_false_iff_ne.mpr hm]
        exact ih

theorem lookup_erase (fs : FileSys) (d : Nat) (n : Name) (i : Nat) (m : Name) :
    (fs.erase d n).lookup i m = if i = d ∧ m = n then none else fs.lookup i m := by
  obtain ⟨hsame, hent⟩ := erase_spec fs d n
  by_cases hi : i = d
  · subst hi
    rw [lookup, hent, lookup_filter, ← lookup]
    by_cases hm : m = n
    · rw [if_pos hm, if_pos ⟨rfl, hm⟩]
    · rw [if_neg hm, if_neg fun h => hm h.2]
  · rw [if_neg fun h => hi h.1, hsame.lookup hi]

/-! ## §6. Resolution is monotone. -/

/-- Every lookup that found something finds the same. -/
structure Extends (fs fs' : FileSys) : Prop where
  lookup : ∀ d n e, fs.lookup d n = some e → fs'.lookup d n = some e
  parent : ∀ d, fs'.parent d = fs.parent d
  links : fs.links ≤ fs'.links

theorem walkFrom_mono {fs fs' : FileSys} (h : Extends fs fs')
    {follow follow' : Nat → CStr → Except Errno Node}
    (hf : ∀ d t x, follow d t = .ok x → follow' d t = .ok x) {cur : Nat} {cs : List Name} {x : Node}
    (hw : fs.walkFrom follow cur cs = .ok x) : fs'.walkFrom follow' cur cs = .ok x := by
  induction cs generalizing cur with
  | nil => exact hw
  | cons c rest ih =>
    rw [walkFrom] at hw ⊢
    by_cases hdot : c = [dot]
    · rw [if_pos hdot] at hw ⊢
      exact ih hw
    · rw [if_neg hdot] at hw ⊢
      by_cases hdd : c = [dot, dot]
      · rw [if_pos hdd] at hw ⊢
        rw [h.parent]
        exact ih hw
      · rw [if_neg hdd] at hw ⊢
        -- the component is an entry, the same one in both
        cases hl : fs.lookup cur c with
        | none =>
          rw [hl] at hw
          cases hw
        | some e =>
          rw [hl] at hw
          rw [h.lookup cur c e hl]
          cases e with
          | dir d => exact ih hw
          | file f => exact hw
          | symlink t =>
            simp only at hw ⊢
            cases hfol : follow cur t with
            | error e =>
              rw [hfol] at hw
              cases hw
            | ok y =>
              rw [hfol] at hw
              rw [hf cur t y hfol]
              cases y with
              | dir d => exact ih hw
              | file f => exact hw

/-- **A walk that led somewhere leads there still**, also with links nested
    deeper. -/
theorem walk_mono {fs fs' : FileSys} (h : Extends fs fs') {k k' : Nat} (hk : k ≤ k') {cur : Nat}
    {cs : List Name} {x : Node} (hw : fs.walk k cur cs = .ok x) : fs'.walk k' cur cs = .ok x := by
  induction k generalizing k' cur cs x with
  | zero =>
    cases k' with
    | zero => exact walkFrom_mono h (fun d t x hx => by cases hx) hw
    | succ k' => exact walkFrom_mono h (fun d t x hx => by cases hx) hw
  | succ k ih =>
    obtain ⟨k', rfl⟩ := Nat.exists_eq_succ_of_ne_zero (show k' ≠ 0 by omega)
    refine walkFrom_mono h ?_ hw
    intro d t y hy
    by_cases ht : t.bytes = []
    · rw [if_pos ht] at hy
      cases hy
    · rw [if_neg ht] at hy ⊢
      exact ih (by omega) hy

theorem resolve_mono {fs fs' : FileSys} (h : Extends fs fs') {cwd : Nat} {p : List Byte} {x : Node}
    (hr : fs.resolve cwd p = .ok x) : fs'.resolve cwd p = .ok x := by
  unfold resolve at hr ⊢
  split at hr
  · cases hr
  · rename_i hp
    rw [if_neg hp]
    exact walk_mono h h.links hr

/-- An absolute path leads the same way from everywhere. -/
theorem resolve_absolute {fs : FileSys} {p : List Byte} (habs : p.head? = some slash) (cwd : Nat) :
    fs.resolve cwd p = fs.resolve 0 p := by
  rw [resolve, resolve, start, start, if_pos habs, if_pos habs]

theorem links_le {l l' : List Dir} (hlen : l'.length = l.length)
    (h : ∀ (i : Nat) (D D' : Dir), l[i]? = some D → l'[i]? = some D' →
      D.entries.countP (·.2.isLink) ≤ D'.entries.countP (·.2.isLink)) :
    (l.map fun D => D.entries.countP (·.2.isLink)).sum ≤
      (l'.map fun D => D.entries.countP (·.2.isLink)).sum := by
  induction l generalizing l' with
  | nil => exact Nat.zero_le _
  | cons D l ih =>
    cases l' with
    | nil => cases hlen
    | cons D' l' =>
      have hhead := h 0 D D' rfl rfl
      have htail := ih (Nat.succ.inj hlen) fun i E E' hE hE' => h (i + 1) E E' hE hE'
      simp only [List.map_cons, List.sum_cons]
      omega

/-- One directory has more links than before, and none has fewer. -/
theorem links_lt {l l' : List Dir} (hlen : l'.length = l.length)
    (h : ∀ (i : Nat) (D D' : Dir), l[i]? = some D → l'[i]? = some D' →
      D.entries.countP (·.2.isLink) ≤ D'.entries.countP (·.2.isLink))
    {i : Nat} {D D' : Dir} (hD : l[i]? = some D) (hD' : l'[i]? = some D')
    (hlt : D.entries.countP (·.2.isLink) < D'.entries.countP (·.2.isLink)) :
    (l.map fun D => D.entries.countP (·.2.isLink)).sum <
      (l'.map fun D => D.entries.countP (·.2.isLink)).sum := by
  induction l generalizing l' i with
  | nil => cases hD
  | cons E l ih =>
    cases l' with
    | nil => cases hlen
    | cons E' l' =>
      have htail : ∀ (i : Nat) (F F' : Dir), l[i]? = some F → l'[i]? = some F' →
          F.entries.countP (·.2.isLink) ≤ F'.entries.countP (·.2.isLink) :=
        fun i F F' hF hF' => h (i + 1) F F' hF hF'
      -- the directory that gained a link is the first or a later one
      simp only [List.map_cons, List.sum_cons]
      cases i with
      | zero =>
        cases hD
        cases hD'
        have hrest := links_le (Nat.succ.inj hlen) htail
        omega
      | succ i =>
        have hhead := h 0 E E' rfl rfl
        have hrest := ih (Nat.succ.inj hlen) htail hD hD'
        omega

/-- Only directory `d` differs, and what it held it still holds. -/
theorem SameBut.extends {d : Nat} {fs fs' : FileSys} (h : SameBut d fs fs')
    (hent : ∀ n e, fs.lookup d n = some e → fs'.lookup d n = some e)
    (hlinks : (fs.entries d).countP (·.2.isLink) ≤ (fs'.entries d).countP (·.2.isLink)) :
    Extends fs fs' := by
  refine ⟨?_, h.parent_eq, ?_⟩
  · intro i n e hl
    by_cases hi : i = d
    · subst hi
      exact hent n e hl
    · rwa [h.lookup hi]
  · apply links_le h.length
    intro i D D' hD hD'
    by_cases hi : i = d
    · subst hi
      have hl : fs.entries i = D.entries := by rw [FileSys.entries, hD]; rfl
      have hl' : fs'.entries i = D'.entries := by rw [FileSys.entries, hD']; rfl
      rwa [hl, hl'] at hlinks
    · rw [h.other i hi, hD] at hD'
      cases hD'
      exact Nat.le_refl _

theorem insert_extends {fs fs' : FileSys} {d : Nat} {n : Name} {e : Entry}
    (h : fs.insert d n e = .ok fs') : Extends fs fs' := by
  obtain ⟨-, hnone, hsame, hent⟩ := insert_eq_ok h
  refine hsame.extends ?_ ?_
  · intro m x hl
    rw [lookup_insert h]
    split
    · rename_i hm
      rw [hm.2, hnone] at hl
      cases hl
    · exact hl
  · rw [hent, List.countP_cons]
    exact Nat.le_add_right _ _

/-- A file system with more links in directory `d`. -/
theorem SameBut.links_lt {d : Nat} {fs fs' : FileSys} (h : SameBut d fs fs')
    (hlinks : (fs.entries d).countP (·.2.isLink) < (fs'.entries d).countP (·.2.isLink)) :
    fs.links < fs'.links := by
  have hlt : d < fs'.dirs.length := by
    by_contra hge
    rw [FileSys.entries, FileSys.entries, List.getElem?_eq_none (Nat.le_of_not_lt hge)] at hlinks
    exact Nat.not_lt_zero _ hlinks
  have hlt' : d < fs.dirs.length := h.length ▸ hlt
  have hcount : ∀ (D D' : Dir), fs.dirs[d]? = some D → fs'.dirs[d]? = some D' →
      D.entries.countP (·.2.isLink) < D'.entries.countP (·.2.isLink) := by
    intro D D' hD hD'
    rwa [FileSys.entries, FileSys.entries, hD, hD'] at hlinks
  refine FileSys.links_lt h.length ?_ (List.getElem?_eq_getElem hlt') (List.getElem?_eq_getElem hlt)
    (hcount _ _ (List.getElem?_eq_getElem hlt') (List.getElem?_eq_getElem hlt))
  intro i D D' hD hD'
  by_cases hi : i = d
  · subst hi
    exact Nat.le_of_lt (hcount D D' hD hD')
  · rw [h.other i hi, hD] at hD'
    cases hD'
    exact Nat.le_refl _

/-- A new link is one link more. -/
theorem links_insert {fs fs' : FileSys} {d : Nat} {n : Name} {t : CStr}
    (h : fs.insert d n (.symlink t) = .ok fs') : fs.links < fs'.links := by
  obtain ⟨-, -, hsame, hent⟩ := insert_eq_ok h
  refine hsame.links_lt ?_
  rw [hent, List.countP_cons_of_pos rfl]
  exact Nat.lt_succ_self _

/-- Taking a new entry out again. -/
theorem erase_insert {fs fs' : FileSys} {d : Nat} {n : Name} {e : Entry}
    (h : fs.insert d n e = .ok fs') : fs'.erase d n = fs := by
  unfold insert at h
  cases hD : fs.dirs[d]? with
  | none =>
    rw [hD] at h
    cases h
  | some D =>
    rw [hD] at h
    simp only at h
    split at h
    · rename_i hv
      split at h
      · rename_i hroom
        cases h
        have hlt : d < fs.dirs.length := (List.getElem?_eq_some_iff.mp hD).1
        -- the new entry is first, and no other has its name
        have hback : (D.insert n e hv hroom.1 hroom.2).erase n = D := by
          have hfilter : ((n, e) :: D.entries).filter (·.1 ≠ n) = D.entries := by
            rw [List.filter_cons_of_neg (by simp)]
            apply List.filter_eq_self.mpr
            intro x hx
            apply decide_eq_true
            intro hxn
            exact hroom.1 (hxn ▸ List.mem_map_of_mem hx)
          cases D
          simp only [Dir.erase, Dir.insert, Dir.mk.injEq, true_and]
          exact hfilter
        have hset : fs.dirs.set d D = fs.dirs := by
          apply List.ext_getElem?
          intro i
          rw [List.getElem?_set]
          split
          · rename_i hi
            subst hi
            exact hD.symm
          · rfl
        simp only [erase, setDir, List.getElem?_set_self hlt, List.set_set, hback, hset]
      · cases h
    · cases h

/-! ## §7. A name behind a directory's path. -/

/-- A walk that ends in a directory by a dot ends there without it. -/
theorem walkFrom_dot {fs : FileSys} {follow : Nat → CStr → Except Errno Node} {cur d : Nat}
    {cs : List Name} (hw : fs.walkFrom follow cur (cs ++ [[dot]]) = .ok (.dir d)) :
    fs.walkFrom follow cur cs = .ok (.dir d) := by
  induction cs generalizing cur with
  | nil =>
    rw [List.nil_append, walkFrom, if_pos rfl] at hw
    exact hw
  | cons c rest ih =>
    have hne : rest ++ [[dot]] ≠ [] := List.append_ne_nil_of_right_ne_nil _ (List.cons_ne_nil _ _)
    rw [List.cons_append, walkFrom] at hw
    rw [walkFrom]
    by_cases hdot : c = [dot]
    · rw [if_pos hdot] at hw ⊢
      exact ih hw
    · rw [if_neg hdot] at hw ⊢
      by_cases hdd : c = [dot, dot]
      · rw [if_pos hdd] at hw ⊢
        exact ih hw
      · rw [if_neg hdd] at hw ⊢
        -- a file before the dot would be an error
        cases hl : fs.lookup cur c with
        | none =>
          rw [hl] at hw
          cases hw
        | some e =>
          rw [hl] at hw
          cases e with
          | dir d' => exact ih hw
          | file f =>
            simp only [if_neg hne] at hw
            cases hw
          | symlink t =>
            simp only at hw ⊢
            cases hfol : follow cur t with
            | error e =>
              rw [hfol] at hw
              cases hw
            | ok y =>
              rw [hfol] at hw
              cases y with
              | dir d' => exact ih hw
              | file f =>
                simp only [if_neg hne] at hw
                cases hw

theorem walk_dot {fs : FileSys} {depth cur d : Nat} {cs : List Name}
    (hw : fs.walk depth cur (cs ++ [[dot]]) = .ok (.dir d)) :
    fs.walk depth cur cs = .ok (.dir d) := by
  cases depth with
  | zero => exact walkFrom_dot hw
  | succ depth => exact walkFrom_dot hw

/-- A walk through a directory goes on from there. -/
theorem walkFrom_append {fs : FileSys} {follow : Nat → CStr → Except Errno Node} {cur d : Nat}
    {cs : List Name} (hw : fs.walkFrom follow cur cs = .ok (.dir d)) (cs' : List Name) :
    fs.walkFrom follow cur (cs ++ cs') = fs.walkFrom follow d cs' := by
  induction cs generalizing cur with
  | nil =>
    cases hw
    rfl
  | cons c rest ih =>
    rw [walkFrom] at hw
    rw [List.cons_append, walkFrom]
    by_cases hdot : c = [dot]
    · rw [if_pos hdot] at hw ⊢
      exact ih hw
    · rw [if_neg hdot] at hw ⊢
      by_cases hdd : c = [dot, dot]
      · rw [if_pos hdd] at hw ⊢
        exact ih hw
      · rw [if_neg hdd] at hw ⊢
        -- every component on the way was a directory
        cases hl : fs.lookup cur c with
        | none =>
          rw [hl] at hw
          cases hw
        | some e =>
          rw [hl] at hw
          cases e with
          | dir d' => exact ih hw
          | file f =>
            simp only at hw
            split at hw <;> cases hw
          | symlink t =>
            simp only at hw ⊢
            cases hfol : follow cur t with
            | error e =>
              rw [hfol] at hw
              cases hw
            | ok y =>
              rw [hfol] at hw
              cases y with
              | dir d' => exact ih hw
              | file f =>
                simp only at hw
                split at hw <;> cases hw

theorem walk_append {fs : FileSys} {depth cur d : Nat} {cs : List Name}
    (hw : fs.walk depth cur cs = .ok (.dir d)) (cs' : List Name) :
    fs.walk depth cur (cs ++ cs') = fs.walk depth d cs' := by
  cases depth with
  | zero => exact walkFrom_append hw cs'
  | succ depth => exact walkFrom_append hw cs'

/-- What an entry that is no link stands for. -/
def Entry.node : Entry → Option Node
  | .dir d => some (.dir d)
  | .file f => some (.file f)
  | .symlink _ => none

/-- Walking to an entry that is no link. -/
theorem walk_name {fs : FileSys} {depth cur : Nat} {n : Name} {e : Entry} {x : Node}
    (hv : ValidName n) (hl : fs.lookup cur n = some e) (hx : Entry.node e = some x) :
    fs.walk depth cur [n] = .ok x := by
  have hfrom : ∀ follow, fs.walkFrom follow cur [n] = .ok x := by
    intro follow
    rw [walkFrom, if_neg hv.2.2.2.1, if_neg hv.2.2.2.2.1, hl]
    cases e with
    | dir d =>
      cases hx
      rfl
    | file f =>
      cases hx
      rfl
    | symlink t => cases hx
  cases depth with
  | zero => exact hfrom _
  | succ depth => exact hfrom _

/-- A path that ends in a slash leads to directory `d`. -/
structure IsDirPath (fs : FileSys) (cwd : Nat) (p : List Byte) (d : Nat) : Prop where
  slash_last : trailing p = true
  leads : fs.resolve cwd p = .ok (.dir d)

section Behind

variable {fs : FileSys} {cwd d : Nat} {p : List Byte} {n : Name}

theorem IsDirPath.ne_nil (h : IsDirPath fs cwd p d) : p ≠ [] := by
  rintro rfl
  exact absurd h.slash_last (by decide)

theorem IsDirPath.extends {fs' : FileSys} (h : IsDirPath fs cwd p d) (hext : Extends fs fs') :
    IsDirPath fs' cwd p d :=
  ⟨h.slash_last, resolve_mono hext h.leads⟩

/-- **The name is looked up in the directory.** -/
theorem IsDirPath.resolveParent (h : IsDirPath fs cwd p d) (hs : slash ∉ n) (hn : n ≠ []) :
    fs.resolveParent cwd (p ++ n) = .ok (.dir d) := by
  have hwalk := h.leads
  rw [resolve, if_neg h.ne_nil, steps, if_pos h.slash_last] at hwalk
  rw [FileSys.resolveParent, start_append h.ne_nil, components_append_name h.slash_last hs hn,
    List.dropLast_concat]
  exact walk_dot hwalk

/-- **The whole path leads where the name does.** -/
theorem IsDirPath.resolve_append (h : IsDirPath fs cwd p d) (hs : slash ∉ n) (hn : n ≠ []) :
    fs.resolve cwd (p ++ n) = fs.walk fs.links d [n] := by
  have hwalk := h.leads
  rw [resolve, if_neg h.ne_nil, steps, if_pos h.slash_last] at hwalk
  have hsteps : steps (p ++ n) = components p ++ [n] := by
    rw [steps, trailing_append_name p hs hn, components_append_name h.slash_last hs hn]
    exact List.append_nil _
  rw [resolve, if_neg (List.append_ne_nil_of_right_ne_nil _ hn), start_append h.ne_nil, hsteps]
  exact walk_append (walk_dot hwalk) _

theorem IsDirPath.getLast? (h : IsDirPath fs cwd p d) (hs : slash ∉ n) (hn : n ≠ []) :
    (components (p ++ n)).getLast? = some n := by
  rw [components_append_name h.slash_last hs hn, List.getLast?_concat]

/-- `symlink` of a name in the directory. -/
theorem symlink_append (h : IsDirPath fs cwd p d) (hs : slash ∉ n) (hn : n ≠ []) (target : CStr) :
    fs.symlink cwd target (p ++ n) =
      if target.bytes = [] then .error .ENOENT
      else if n = [dot] ∨ n = [dot, dot] ∨ (fs.lookup d n).isSome then .error .EEXIST
      else fs.insert d n (.symlink target) := by
  have hne : p ++ n ≠ [] := List.append_ne_nil_of_right_ne_nil _ hn
  rw [symlink, h.getLast? hs hn, h.resolveParent hs hn, trailing_append_name p hs hn]
  simp only [hne, or_false, Bool.false_eq_true, if_false]

/-- `remove` of a name in the directory. -/
theorem remove_append (h : IsDirPath fs cwd p d) (hs : slash ∉ n) (hn : n ≠ []) :
    fs.remove cwd (p ++ n) =
      if n = [dot] then .error .EINVAL
      else if n = [dot, dot] then .error .ENOTEMPTY
      else
        match fs.lookup d n with
        | none => .error .ENOENT
        | some (.dir d') => if fs.entries d' = [] then .ok (fs.erase d n) else .error .ENOTEMPTY
        | some _ => .ok (fs.erase d n) := by
  have hne : p ++ n ≠ [] := List.append_ne_nil_of_right_ne_nil _ hn
  rw [remove, h.getLast? hs hn, h.resolveParent hs hn, trailing_append_name p hs hn, if_neg hne]
  simp only [Bool.false_eq_true, if_false]

/-- A link that could be made: the name was free and is now the link's. -/
theorem symlink_append_ok {fs' : FileSys} (h : IsDirPath fs cwd p d) (hs : slash ∉ n) (hn : n ≠ [])
    {target : CStr} (hok : fs.symlink cwd target (p ++ n) = .ok fs') :
    fs.insert d n (.symlink target) = .ok fs' := by
  rw [symlink_append h hs hn] at hok
  split at hok
  · cases hok
  · split at hok
    · cases hok
    · exact hok

/-- A path that is only a name is looked up in the working directory. -/
theorem resolveParent_name (fs : FileSys) (cwd : Nat) (hs : slash ∉ n) (hn : n ≠ []) :
    fs.resolveParent cwd n = .ok (.dir cwd) := by
  have hstart : start cwd n = cwd := if_neg fun h => hs (List.mem_of_mem_head? h)
  rw [FileSys.resolveParent, components_name hs hn, hstart]
  cases fs.links <;> rfl

theorem symlink_name (hs : slash ∉ n) (hn : n ≠ []) (t : CStr) :
    fs.symlink cwd t n =
      if t.bytes = [] then .error .ENOENT
      else if n = [dot] ∨ n = [dot, dot] ∨ (fs.lookup cwd n).isSome then .error .EEXIST
      else fs.insert cwd n (.symlink t) := by
  have htrail : trailing n = false := trailing_append_name [] hs hn
  rw [symlink, components_name hs hn, resolveParent_name fs cwd hs hn, htrail]
  simp only [List.getLast?_singleton, hn, or_false, Bool.false_eq_true, if_false]

/-- When a link can be made at a name. -/
theorem symlink_name_ok_iff (hs : slash ∉ n) (hn : n ≠ []) {t : CStr} (ht : t.bytes ≠ []) :
    (∃ fs', fs.symlink cwd t n = .ok fs') ↔ cwd < fs.dirs.length ∧ ValidName n ∧
      fs.lookup cwd n = none ∧ (fs.entries cwd).length < DIR_MAX := by
  rw [symlink_name hs hn, if_neg ht, ← insert_ok_iff (e := .symlink t)]
  split
  · rename_i htaken
    refine ⟨fun ⟨fs', h⟩ => (by cases h), fun ⟨fs', h⟩ => ?_⟩
    obtain ⟨hv, hnone, -, -⟩ := insert_eq_ok h
    rcases htaken with heq | heq | hsome
    · exact absurd heq hv.2.2.2.1
    · exact absurd heq hv.2.2.2.2.1
    · rw [hnone] at hsome
      cases hsome
  · exact Iff.rfl

theorem symlink_name_ok {fs' : FileSys} {t : CStr} (hs : slash ∉ n) (hn : n ≠ [])
    (hok : fs.symlink cwd t n = .ok fs') : fs.insert cwd n (.symlink t) = .ok fs' := by
  rw [symlink_name hs hn] at hok
  split at hok
  · cases hok
  · split at hok
    · cases hok
    · exact hok

/-- A link to an absolute path leads where that path leads without the link. -/
theorem resolve_through {base : FileSys} {t : CStr} {x : Node} (h : IsDirPath fs cwd p d)
    (hv : ValidName n) (habs : t.bytes.head? = some slash) (hlook : fs.lookup d n = some (.symlink t))
    (hext : Extends base fs) (hmore : base.links < fs.links) (hx : base.resolve cwd t.bytes = .ok x) :
    fs.resolve cwd (p ++ n) = .ok x := by
  have hne : t.bytes ≠ [] := by
    intro hnil
    rw [hnil] at habs
    cases habs
  have hstart : ∀ c, start c t.bytes = 0 := fun c => if_pos habs
  rw [resolve, if_neg hne, hstart] at hx
  -- one link more, so the target may be walked one link deeper
  obtain ⟨k, hk⟩ := Nat.exists_eq_add_of_lt hmore
  have hwalk : fs.walk (base.links + k) (start d t.bytes) (steps t.bytes) = .ok x := by
    rw [hstart]
    exact walk_mono hext (Nat.le_add_right _ _) hx
  rw [h.resolve_append hv.2.1 hv.1, hk, walk, walkFrom, if_neg hv.2.2.2.1, if_neg hv.2.2.2.2.1, hlook]
  simp only [hne, if_false, hwalk]
  cases x with
  | dir d' => rfl
  | file f => rfl

/-- **A new link to an absolute path** leads where that path led. -/
theorem resolve_link {fs' : FileSys} {t : CStr} {x : Node} (h : IsDirPath fs cwd p d)
    (habs : t.bytes.head? = some slash)
    (hins : fs.insert d n (.symlink t) = .ok fs') (hx : fs.resolve cwd t.bytes = .ok x) :
    fs'.resolve cwd (p ++ n) = .ok x := by
  have hext := insert_extends hins
  refine resolve_through (h.extends hext) (insert_eq_ok hins).1 habs ?_ hext (links_insert hins) hx
  rw [lookup_insert hins, if_pos ⟨rfl, rfl⟩]

/-- What could be removed was there and is gone. -/
theorem remove_append_ok {fs' : FileSys} (h : IsDirPath fs cwd p d) (hs : slash ∉ n) (hn : n ≠ [])
    (hok : fs.remove cwd (p ++ n) = .ok fs') :
    (fs.lookup d n).isSome ∧ fs' = fs.erase d n := by
  rw [remove_append h hs hn] at hok
  split at hok
  · cases hok
  · split at hok
    · cases hok
    · -- only a directory that is not empty stays
      cases hl : fs.lookup d n with
      | none =>
        rw [hl] at hok
        cases hok
      | some e =>
        rw [hl] at hok
        cases e with
        | dir d' =>
          simp only at hok
          split at hok
          · cases hok
            exact ⟨rfl, rfl⟩
          · cases hok
        | file f =>
          cases hok
          exact ⟨rfl, rfl⟩
        | symlink t =>
          cases hok
          exact ⟨rfl, rfl⟩

/-- The directory and the name in it that a path stands for, the last component
    not being followed. -/
def place (fs : FileSys) (cwd : Nat) (p : List Byte) : Option (Nat × Name) :=
  match (components p).getLast?, fs.resolveParent cwd p with
  | some n, .ok (.dir d) => some (d, n)
  | _, _ => none

theorem IsDirPath.place (h : IsDirPath fs cwd p d) (hs : slash ∉ n) (hn : n ≠ []) :
    fs.place cwd (p ++ n) = some (d, n) := by
  rw [FileSys.place, h.getLast? hs hn, h.resolveParent hs hn]

/-- **A name stands for itself in a directory only behind a path to it that ends
    in a slash.** -/
theorem place_append_iff (hp : slash ∈ p) (hs : slash ∉ n) (hn : n ≠ []) :
    fs.place cwd (p ++ n) = some (d, n) ↔ IsDirPath fs cwd p d := by
  refine ⟨fun h => ?_, fun h => h.place hs hn⟩
  obtain ⟨q, s, rfl, hns⟩ := split_last_slash hp
  have hlast : slash ∉ s ++ n := fun hmem => (List.mem_append.mp hmem).elim hns hs
  have hne : s ++ n ≠ [] := List.append_ne_nil_of_right_ne_nil s hn
  have hcomps : components (q ++ slash :: s ++ n) = components q ++ [s ++ n] := by
    rw [List.append_assoc, List.cons_append]
    exact components_last hlast hne
  rw [FileSys.place, hcomps, List.getLast?_concat] at h
  cases hres : fs.resolveParent cwd (q ++ slash :: s ++ n) with
  | error e =>
    rw [hres] at h
    cases h
  | ok x =>
    cases x with
    | file f =>
      rw [hres] at h
      cases h
    | dir d' =>
      rw [hres] at h
      obtain ⟨rfl, hname⟩ := Prod.mk.inj (Option.some.inj h)
      -- nothing stands between the slash and the name
      have hnil : s = [] := List.append_left_eq_self.mp hname
      subst hnil
      have hdir : q ++ [slash] ≠ [] := List.append_ne_nil_of_right_ne_nil q (List.cons_ne_nil _ _)
      have htrail : trailing (q ++ [slash]) = true := by
        rw [trailing, List.getLast?_concat]
        rfl
      refine ⟨htrail, ?_⟩
      rw [FileSys.resolveParent, hcomps, List.dropLast_concat, start_append hdir] at hres
      have hsame : components (q ++ [slash]) = components q := by
        rw [components, splitSlash_append, List.filter_append, ← components]
        exact List.append_nil _
      rw [resolve, if_neg hdir, steps, if_pos htrail, hsame, walk_append hres]
      cases fs.links <;> rfl

end Behind

/-! ## §8. A directory without its entries. -/

theorem nodup_nothing : (([] : List (Name × Entry)).map Prod.fst).Nodup := List.nodup_nil

theorem valid_nothing : ∀ e ∈ ([] : List (Name × Entry)), ValidName e.1 :=
  fun _ h => absurd h List.not_mem_nil

theorem small_nothing : ([] : List (Name × Entry)).length ≤ DIR_MAX := Nat.zero_le _

/-- Directory `d` holds nothing; all else is as in `fs`. -/
def emptied (fs : FileSys) (d : Nat) : FileSys :=
  match fs.dirs[d]? with
  | none => fs
  | some D => fs.setDir d ⟨D.parent, [], nodup_nothing, valid_nothing, small_nothing⟩

section Emptied

variable {fs fs' : FileSys} {d : Nat}

theorem emptied_sameBut (fs : FileSys) (d : Nat) : SameBut d fs (fs.emptied d) := by
  unfold emptied
  split
  · exact SameBut.refl d fs
  · rename_i D hD
    exact setDir_sameBut hD rfl

theorem entries_emptied (fs : FileSys) (d : Nat) : (fs.emptied d).entries d = [] := by
  unfold emptied
  split
  · rename_i hD
    rw [entries, hD]
    rfl
  · rename_i D hD
    exact entries_setDir (List.getElem?_eq_some_iff.mp hD).1

theorem SameBut.symm (h : SameBut d fs fs') : SameBut d fs' fs :=
  ⟨h.length.symm, fun i hi => (h.other i hi).symm, h.parent.symm⟩

/-- Where nothing but an empty directory has changed, paths lead on. -/
theorem SameBut.extends_empty (h : SameBut d fs fs') (hempty : fs.entries d = []) : Extends fs fs' := by
  refine h.extends ?_ ?_
  · intro n e hl
    rw [FileSys.lookup, hempty] at hl
    cases hl
  · rw [hempty]
    exact Nat.zero_le _

/-- A path that does without the entries of `d` leads on with any. -/
theorem IsDirPath.of_emptied {cwd e : Nat} {p : List Byte} (h : IsDirPath (fs.emptied d) cwd p e)
    (hsame : SameBut d fs fs') : IsDirPath fs' cwd p e :=
  h.extends (((emptied_sameBut fs d).symm.trans hsame).extends_empty (entries_emptied fs d))

/-- The entries of `d` do not matter when it is emptied. -/
theorem SameBut.emptied (h : SameBut d fs fs') : Extends (fs.emptied d) (fs'.emptied d) :=
  (((emptied_sameBut fs d).symm.trans h).trans (emptied_sameBut fs' d)).extends_empty
    (entries_emptied fs d)

/-- A new entry elsewhere is one with the directory emptied, too. -/
theorem insert_emptied {i : Nat} {n : Name} {e : Entry} (h : fs.insert i n e = .ok fs') :
    Extends (fs.emptied d) (fs'.emptied d) := by
  obtain ⟨hv, hnone, hsame, hent⟩ := insert_eq_ok h
  by_cases hi : i = d
  · subst hi
    exact hsame.emptied
  · have hlookup : ∀ j m x, (fs.emptied d).lookup j m = some x → (fs'.emptied d).lookup j m = some x := by
      intro j m x hx
      by_cases hj : j = d
      · subst hj
        rw [lookup, entries_emptied] at hx
        cases hx
      · rw [(emptied_sameBut fs d).lookup hj] at hx
        rw [(emptied_sameBut fs' d).lookup hj]
        exact (insert_extends h).lookup j m x hx
    have hkept : ∀ j, j ≠ i → (fs'.emptied d).entries j = (fs.emptied d).entries j := by
      intro j hj
      by_cases hd : j = d
      · subst hd
        rw [entries_emptied, entries_emptied]
      · rw [(emptied_sameBut fs' d).entries hd, (emptied_sameBut fs d).entries hd, hsame.entries hj]
    refine ⟨hlookup, fun j => ?_, ?_⟩
    · rw [(emptied_sameBut fs' d).parent_eq, (emptied_sameBut fs d).parent_eq, hsame.parent_eq]
    · refine links_le ?_ ?_
      · rw [(emptied_sameBut fs' d).length, (emptied_sameBut fs d).length, hsame.length]
      · intro j D D' hD hD'
        have hl : (fs.emptied d).entries j = D.entries := by rw [entries, hD]; rfl
        have hl' : (fs'.emptied d).entries j = D'.entries := by rw [entries, hD']; rfl
        rw [← hl, ← hl']
        by_cases hj : j = i
        · subst hj
          rw [(emptied_sameBut fs' d).entries hi, (emptied_sameBut fs d).entries hi, hent, List.countP_cons]
          exact Nat.le_add_right _ _
        · rw [hkept j hj]

end Emptied

end FileSys

end Prom.Posix
