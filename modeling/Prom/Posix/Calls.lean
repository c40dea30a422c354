/-
  Prom.Posix.Calls — what a process asks of the system.

  The state is the file system, the working directory, the open directory
  streams, the loaded objects and what was printed.  What the system decides
  for itself is a `Platform`: the order of a directory listing, the calls it
  refuses (for lack of permission, of space, ...), what a word expands to, the
  name of the working directory, and which file is which shared object.

  A refused or failed call sets `errno` and changes nothing else.
-/
import Prom.C.Exec
import Prom.C.Heap
import Prom.Posix.FileSystem

namespace Prom.Posix

open Prom.C Exec

/-! ## §1. The system. -/

/-- The calls the system may refuse. -/
inductive Call where
  | symlink | remove | opendir
  deriving Repr, DecidableEq

/-- A shared object: what `dlsym` finds for the symbols `name`, `desc` and
    `init`, the last being a function of type `I`. -/
structure SharedObject (I : Type) where
  name : Option Ptr
  desc : Option Ptr
  init : Option I

/-- What the system decides. -/
structure Platform (I : Type) where
  /-- The words of a string, unless `wordexp` fails. -/
  wordexp : FileSys → Nat → CStr → Option (List CStr)
  /-- The path of the working directory, if it can be had. -/
  getcwd : FileSys → Nat → Option CStr
  /-- The error the `i`-th call of a kind is refused with. -/
  refuse : Call → Nat → Option Errno
  /-- The order in which a directory is listed. -/
  order : FileSys → Nat → List CStr
  /-- A listing names the directory, its parent, and each entry, once. -/
  order_perm : ∀ fs d, ((order fs d).map CStr.bytes).Perm
    ([dot] :: [dot, dot] :: (fs.entries d).map Prod.fst)
  /-- The loadable objects, by number. -/
  object : Nat → SharedObject I
  /-- The object in a file. -/
  inFile : Nat → Option Nat
  /-- The object a name without a slash is searched for. -/
  soname : CStr → Option Nat
  /-- The program itself. -/
  self : Nat
  /-- The message `dlerror` returns after a failure. -/
  message : Ptr
  message_ne_null : message ≠ .null
  /-- The text for an error. -/
  strerror : Errno → List Byte

/-- The state of the system as the process sees it. -/
structure Os where
  errno : Errno
  fs : FileSys
  cwd : Nat
  /-- What is left of each directory stream; a closed one is `none`. -/
  streams : List (Option (List CStr))
  /-- The open references to each object. -/
  refs : Nat → Nat
  /-- The last `dl` call failed and `dlerror` has not been called since. -/
  dlFailed : Bool
  /-- The calls made so far. -/
  calls : Call → Nat
  /-- Written to stdout and stderr. -/
  out : List (List Byte)
  err : List (List Byte)

/-! ## §2. Files and directories. -/

variable {I : Type} (P : Platform I)

/-- One more call of a kind. -/
def Os.count (s : Os) (c : Call) : Os :=
  { s with calls := fun c' => if c' = c then s.calls c + 1 else s.calls c' }

/-- Count a call; a refused one fails with the system's error. -/
def attempt (c : Call) (run : Os → Except Errno Os) : Exec Os Int := fun s =>
  match P.refuse c (s.calls c) with
  | some e => .ok (-1) { s.count c with errno := e }
  | none =>
    match run (s.count c) with
    | .error e => .ok (-1) { s.count c with errno := e }
    | .ok s' => .ok 0 s'

/-- Update the file system by a path; a null path is a bad address. -/
def onPath (path : Option CStr) (update : FileSys → Nat → List Byte → Except Errno FileSys) (s : Os) :
    Except Errno Os :=
  match path with
  | none => .error .EFAULT
  | some p => (update s.fs s.cwd p.bytes).map fun fs => { s with fs }

/-- `symlink(target, path)`. -/
def symlink (target : CStr) (path : Option CStr) : Exec Os Int :=
  attempt P .symlink (onPath path fun fs cwd p => fs.symlink cwd target p)

/-- `remove(path)`. -/
def remove (path : Option CStr) : Exec Os Int :=
  attempt P .remove (onPath path FileSys.remove)

/-- A `DIR *`. -/
def streamPtr (i : Nat) : Ptr := ⟨.handle i, 0⟩

/-- Open a stream of a directory's names. -/
def openNames (path : CStr) (s : Os) : Except Errno Os :=
  match s.fs.resolve s.cwd path.bytes with
  | .error e => .error e
  | .ok (.file _) => .error .ENOTDIR
  | .ok (.dir d) => .ok { s with streams := s.streams ++ [some (P.order s.fs d)] }

/-- `opendir(path)`. -/
def opendir (path : CStr) : Exec Os Ptr := do
  let i := (← get).streams.length
  let r ← attempt P .opendir (openNames P path)
  if r = 0 then pure (streamPtr i) else pure .null

/-- The number of an open stream. -/
def openStream (dp : Ptr) (s : Os) : Option (Nat × List CStr) :=
  match dp.base with
  | .handle i => s.streams[i]?.join.map fun names => (i, names)
  | _ => none

/-- `readdir(dp)`: the next name, or `NULL` at the end. -/
def readdir (dp : Ptr) : Exec Os (Option CStr) := fun s =>
  match openStream dp s with
  | some (i, name :: rest) => .ok (some name) { s with streams := s.streams.set i (some rest) }
  | some (_, []) => .ok none s
  | none => .stop .undefined s

/-- `closedir(dp)`. -/
def closedir (dp : Ptr) : Exec Os Unit := fun s =>
  match openStream dp s with
  | some (i, _) => .ok () { s with streams := s.streams.set i none }
  | none => .stop .undefined s

/-! ## §3. Loading. -/

/-- The handle of an object. -/
def objectPtr (o : Nat) : Ptr := ⟨.handle o, 0⟩

/-- The object a path names: without a path the program itself, a path with a
    slash the file it leads to, any other string a name to be searched for. -/
def objectAt (fs : FileSys) (cwd : Nat) : Option CStr → Option Nat
  | none => some P.self
  | some p =>
    if slash ∈ p.bytes then
      match fs.resolve cwd p.bytes with
      | .ok (.file f) => P.inFile f
      | _ => none
    else P.soname p

/-- `dlopen(path, RTLD_NOW)`. -/
def dlopen (path : Option CStr) : Exec Os Ptr := fun s =>
  match objectAt P s.fs s.cwd path with
  | some o =>
    .ok (objectPtr o)
      { s with dlFailed := false, refs := fun i => if i = o then s.refs o + 1 else s.refs i }
  | none => .ok .null { s with dlFailed := true }

/-- `dlsym(handle, symbol)`, the symbol being one of an object's. -/
def dlsym {A : Type} (handle : Ptr) (symbol : SharedObject I → Option A) : Exec Os (Option A) := fun s =>
  match handle.base with
  | .handle o =>
    match symbol (P.object o) with
    | some a => .ok (some a) { s with dlFailed := false }
    | none => .ok none { s with dlFailed := true }
  | _ => .stop .undefined s

/-- `dlclose(handle)`. -/
def dlclose (handle : Ptr) : Exec Os Unit := fun s =>
  match handle.base with
  | .handle o =>
    if s.refs o = 0 then .ok () { s with dlFailed := true }
    else .ok () { s with dlFailed := false, refs := fun i => if i = o then s.refs o - 1 else s.refs i }
  | _ => .stop .undefined s

/-- `dlerror()`. -/
def dlerror : Exec Os Ptr := fun s =>
  if s.dlFailed then .ok P.message { s with dlFailed := false } else .ok .null s

/-- The process has asked for the object at a path, and whether there was one. -/
def Os.tried (path : Option CStr) (s : Os) : Os :=
  { s with
    dlFailed := false
    refs := fun i => if objectAt P s.fs s.cwd path = some i then s.refs i + 1 else s.refs i }

/-! ## §4. Printing. -/

/-- Write to stdout. -/
def printOut (text : List Byte) : Exec Os Unit := modify fun s => { s with out := s.out ++ [text] }

/-- Write to stderr. -/
def printErr (text : List Byte) : Exec Os Unit := modify fun s => { s with err := s.err ++ [text] }

/-! ## §5. One equation for each branch. -/

section Attempt

variable {P} {c : Call} {run : Os → Except Errno Os} {s s' : Os} {e : Errno}

theorem attempt_refused (h : P.refuse c (s.calls c) = some e) :
    attempt P c run s = .ok (-1) { s.count c with errno := e } := by
  rw [attempt, h]

theorem attempt_error (h : P.refuse c (s.calls c) = none) (hrun : run (s.count c) = .error e) :
    attempt P c run s = .ok (-1) { s.count c with errno := e } := by
  rw [attempt, h]
  simp only [hrun]

theorem attempt_ok (h : P.refuse c (s.calls c) = none) (hrun : run (s.count c) = .ok s') :
    attempt P c run s = .ok 0 s' := by
  rw [attempt, h]
  simp only [hrun]

/-- A call fails and changes nothing but the count and `errno`, or does what
    it is for. -/
theorem attempt_cases (P : Platform I) (c : Call) (run : Os → Except Errno Os) (s : Os) :
    (∃ e, attempt P c run s = .ok (-1) { s.count c with errno := e } ∧
      (P.refuse c (s.calls c) = some e ∨ run (s.count c) = .error e)) ∨
    ∃ s', attempt P c run s = .ok 0 s' ∧ P.refuse c (s.calls c) = none ∧ run (s.count c) = .ok s' := by
  cases hr : P.refuse c (s.calls c) with
  | some e => exact .inl ⟨e, attempt_refused hr, .inl rfl⟩
  | none =>
    cases hrun : run (s.count c) with
    | error e => exact .inl ⟨e, attempt_error hr hrun, .inr rfl⟩
    | ok s' => exact .inr ⟨s', attempt_ok hr hrun, rfl, rfl⟩

/-- What is seen of a call that updates the file system by a path: it fails
    and leaves the files, or succeeds and the path was updated. -/
structure Updates (update : FileSys → Nat → List Byte → Except Errno FileSys) (c : Call)
    (path : Option CStr) (s : Os) (r : Int) (s' : Os) : Prop where
  value : r = -1 ∧ s'.fs = s.fs ∨
    r = 0 ∧ ∃ p, path = some p ∧ update s.fs s.cwd p.bytes = .ok s'.fs
  rest : s' = { s.count c with errno := s'.errno, fs := s'.fs }

theorem attempt_updates (P : Platform I) (c : Call)
    (update : FileSys → Nat → List Byte → Except Errno FileSys) (path : Option CStr) (s : Os) :
    ∃ r s', attempt P c (onPath path update) s = .ok r s' ∧ Updates update c path s r s' := by
  rcases attempt_cases P c (onPath path update) s with ⟨e, hrun, -⟩ | ⟨s', hrun, -, hok⟩
  · exact ⟨_, _, hrun, .inl ⟨rfl, rfl⟩, rfl⟩
  · refine ⟨_, _, hrun, ?_⟩
    cases path with
    | none => cases hok
    | some p =>
      replace hok : (update (s.count c).fs (s.count c).cwd p.bytes).map _ = .ok s' := hok
      cases hu : update s.fs s.cwd p.bytes with
      | error e =>
        rw [show update (s.count c).fs (s.count c).cwd p.bytes = _ from hu] at hok
        cases hok
      | ok fs =>
        rw [show update (s.count c).fs (s.count c).cwd p.bytes = _ from hu] at hok
        cases hok
        exact ⟨.inr ⟨rfl, p, rfl, hu⟩, rfl⟩

/-- The file system after the `k`-th `remove`, if it succeeds. -/
def removed (P : Platform I) (cwd : Nat) (p : CStr) (k : Nat) (fs : FileSys) : Option FileSys :=
  match P.refuse .remove k with
  | some _ => none
  | none => (fs.remove cwd p.bytes).toOption

/-- **`remove`** succeeds or leaves the files. -/
theorem remove_eq (P : Platform I) (p : CStr) (s : Os) :
    ∃ r s', remove P (some p) s = .ok r s' ∧
      s' = { s.count .remove with errno := s'.errno, fs := s'.fs } ∧
      s'.fs = (removed P s.cwd p (s.calls .remove) s.fs).getD s.fs ∧
      (r = 0 ∧ (removed P s.cwd p (s.calls .remove) s.fs).isSome ∨
        r = -1 ∧ removed P s.cwd p (s.calls .remove) s.fs = none) := by
  unfold removed
  cases hr : P.refuse .remove (s.calls .remove) with
  | some e => exact ⟨_, _, attempt_refused hr, rfl, rfl, .inr ⟨rfl, rfl⟩⟩
  | none =>
    have hpath : onPath (some p) FileSys.remove (s.count .remove) =
        (s.fs.remove s.cwd p.bytes).map fun fs => { s.count .remove with fs } := rfl
    cases hrem : s.fs.remove s.cwd p.bytes with
    | error e =>
      rw [hrem] at hpath
      exact ⟨_, _, attempt_error hr hpath, rfl, rfl, .inr ⟨rfl, rfl⟩⟩
    | ok fs =>
      rw [hrem] at hpath
      exact ⟨_, _, attempt_ok hr hpath, rfl, rfl, .inl ⟨rfl, rfl⟩⟩

/-- The same of a path that may be null. -/
def removedAt (P : Platform I) (cwd : Nat) (path : Option CStr) (k : Nat) (fs : FileSys) :
    Option FileSys :=
  path.bind fun p => removed P cwd p k fs

theorem removeAt_eq (P : Platform I) (path : Option CStr) (s : Os) :
    ∃ s', remove P path s =
        .ok (if (removedAt P s.cwd path (s.calls .remove) s.fs).isSome then 0 else -1) s' ∧
      s' = { s.count .remove with errno := s'.errno, fs := s'.fs } ∧
      s'.fs = (removedAt P s.cwd path (s.calls .remove) s.fs).getD s.fs := by
  cases path with
  | some p =>
    obtain ⟨r, s', hrun, hrest, hfs, hr⟩ := remove_eq P p s
    refine ⟨s', ?_, hrest, hfs⟩
    rw [hrun]
    rcases hr with ⟨rfl, hsome⟩ | ⟨rfl, hnone⟩
    · rw [if_pos (show (removedAt P s.cwd (some p) _ _).isSome from hsome)]
    · rw [show removedAt P s.cwd (some p) _ _ = none from hnone]
      rfl
  | none =>
    -- a null pointer is no path
    rcases attempt_cases P .remove (onPath none FileSys.remove) s with ⟨e, hrun, -⟩ | ⟨s', -, -, hok⟩
    · exact ⟨_, hrun, rfl, rfl⟩
    · cases hok

end Attempt

/-! ## §6. Listing a directory. -/

/-- A directory has been opened; `rest` of its names are still to be read. -/
def Os.reading (s : Os) (rest : List CStr) : Os :=
  { s.count .opendir with streams := s.streams ++ [some rest] }

/-- A directory has been opened, read and closed. -/
def Os.listed (s : Os) : Os := { s.count .opendir with streams := s.streams ++ [none] }

section Listing

variable {P} {s : Os} {d : Nat}

/-- What `opendir` comes to: an error, or a directory. -/
def opens (P : Platform I) (s : Os) (path : CStr) : Except Errno Nat :=
  match P.refuse .opendir (s.calls .opendir) with
  | some e => .error e
  | none =>
    match s.fs.resolve s.cwd path.bytes with
    | .error e => .error e
    | .ok (.file _) => .error .ENOTDIR
    | .ok (.dir d) => .ok d

theorem opens_ok {path : CStr} (hr : P.refuse .opendir (s.calls .opendir) = none)
    (hres : s.fs.resolve s.cwd path.bytes = .ok (.dir d)) : opens P s path = .ok d := by
  rw [opens, hr, hres]

theorem opens_refused {path : CStr} {e : Errno} (hr : P.refuse .opendir (s.calls .opendir) = some e) :
    opens P s path = .error e := by
  rw [opens, hr]

theorem attempt_opens (path : CStr) :
    attempt P .opendir (openNames P path) s =
      match opens P s path with
      | .error e => .ok (-1) { s.count .opendir with errno := e }
      | .ok d => .ok 0 (s.reading (P.order s.fs d)) := by
  rw [opens]
  cases hr : P.refuse .opendir (s.calls .opendir) with
  | some e => exact attempt_refused hr
  | none =>
    have hnames : openNames P path (s.count .opendir) =
        match s.fs.resolve s.cwd path.bytes with
        | .error e => .error e
        | .ok (.file _) => .error .ENOTDIR
        | .ok (.dir d) => .ok (s.reading (P.order s.fs d)) := rfl
    -- what the path leads to, if anything
    cases hres : s.fs.resolve s.cwd path.bytes with
    | error e =>
      rw [hres] at hnames
      exact attempt_error hr hnames
    | ok o =>
      cases o with
      | file f =>
        rw [hres] at hnames
        exact attempt_error hr hnames
      | dir d =>
        rw [hres] at hnames
        exact attempt_ok hr hnames

/-- **`opendir`** returns a stream of the directory's names. -/
theorem opendir_ok {path : CStr} (h : opens P s path = .ok d) :
    opendir P path s = .ok (streamPtr s.streams.length) (s.reading (P.order s.fs d)) := by
  have hattempt := attempt_opens (P := P) (s := s) path
  rw [h] at hattempt
  rw [opendir, get_bind_apply, bind_ok hattempt]
  rfl

/-- Or it returns `NULL` and sets `errno`. -/
theorem opendir_error {path : CStr} {e : Errno} (h : opens P s path = .error e) :
    opendir P path s = .ok .null { s.count .opendir with errno := e } := by
  have hattempt := attempt_opens (P := P) (s := s) path
  rw [h] at hattempt
  rw [opendir, get_bind_apply, bind_ok hattempt]
  rfl

theorem openStream_reading (s : Os) (rest : List CStr) :
    openStream (streamPtr s.streams.length) (s.reading rest) = some (s.streams.length, rest) := by
  show ((s.streams ++ [some rest])[s.streams.length]?.join.map _) = _
  rw [List.getElem?_concat_length, Option.join_some, Option.map_some]

theorem set_last {α : Type} (l : List α) (a b : α) : (l ++ [a]).set l.length b = l ++ [b] := by
  rw [List.set_append_right _ _ (Nat.le_refl _), Nat.sub_self, List.set_cons_zero]

theorem readdir_cons (s : Os) (name : CStr) (rest : List CStr) :
    readdir (streamPtr s.streams.length) (s.reading (name :: rest)) =
      .ok (some name) (s.reading rest) := by
  rw [readdir, openStream_reading]
  simp only [Os.reading, set_last]

theorem readdir_nil (s : Os) :
    readdir (streamPtr s.streams.length) (s.reading []) = .ok none (s.reading []) := by
  rw [readdir, openStream_reading]

theorem closedir_reading (s : Os) (rest : List CStr) :
    closedir (streamPtr s.streams.length) (s.reading rest) = .ok () s.listed := by
  rw [closedir, openStream_reading]
  simp only [Os.reading, Os.listed, set_last]

/-- The entries of a directory have names. -/
theorem valid_entry {fs : FileSys} {d : Nat} {e : Name × Entry} (he : e ∈ fs.entries d) :
    ValidName e.1 := by
  rw [FileSys.entries] at he
  cases hD : fs.dirs[d]? with
  | none =>
    rw [hD] at he
    cases he
  | some D =>
    rw [hD] at he
    exact D.valid e he

/-- A listing is not longer than a directory can be. -/
theorem order_length (P : Platform I) (fs : FileSys) (d : Nat) :
    (P.order fs d).length ≤ DIR_MAX + 2 := by
  have hperm := (P.order_perm fs d).length_eq
  have hsmall : (fs.entries d).length ≤ DIR_MAX := by
    rw [FileSys.entries]
    cases hD : fs.dirs[d]? with
    | none => exact Nat.zero_le _
    | some D => exact D.small
  simp only [List.length_map, List.length_cons] at hperm
  omega

/-- The names of a listing are not longer than names can be. -/
theorem order_short (P : Platform I) {fs : FileSys} {d : Nat} {s : CStr} (hs : s ∈ P.order fs d) :
    s.length ≤ NAME_MAX := by
  have hmem := (P.order_perm fs d).subset (List.mem_map_of_mem hs)
  rcases List.mem_cons.mp hmem with hdot | hmem
  · rw [CStr.length, hdot]
    decide
  · rcases List.mem_cons.mp hmem with hdd | hmem
    · rw [CStr.length, hdd]
      decide
    · obtain ⟨e, he, hes⟩ := List.mem_map.mp hmem
      rw [CStr.length, ← hes]
      exact (valid_entry he).2.2.2.2.2

end Listing

/-! ## §7. Listing in the order of the entries. -/

/-- A name as a string; a name an entry can have has no NUL. -/
def nameStr (n : Name) : Option CStr := if h : 0 ∉ n then some ⟨n, h⟩ else none

/-- The directory, its parent, and the entries as they are stored. -/
def storedOrder (fs : FileSys) (d : Nat) : List CStr :=
  ([dot] :: [dot, dot] :: (fs.entries d).map Prod.fst).filterMap nameStr

theorem map_bytes_nameStr {l : List Name} (h : ∀ n ∈ l, 0 ∉ n) :
    (l.filterMap nameStr).map CStr.bytes = l := by
  induction l with
  | nil => rfl
  | cons n l ih =>
    have hn : nameStr n = some ⟨n, h n List.mem_cons_self⟩ := dif_pos (h n List.mem_cons_self)
    rw [List.filterMap_cons_some hn, List.map_cons, ih fun m hm => h m (List.mem_cons_of_mem n hm)]

theorem storedOrder_perm (fs : FileSys) (d : Nat) : ((storedOrder fs d).map CStr.bytes).Perm
    ([dot] :: [dot, dot] :: (fs.entries d).map Prod.fst) := by
  rw [storedOrder, map_bytes_nameStr]
  intro n hn
  rcases List.mem_cons.mp hn with rfl | hn
  · decide
  · rcases List.mem_cons.mp hn with rfl | hn
    · decide
    · obtain ⟨e, he, rfl⟩ := List.mem_map.mp hn
      exact (valid_entry he).2.2.1

end Prom.Posix
