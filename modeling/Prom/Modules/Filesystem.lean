/-
  Prom.Modules.Filesystem — the functions of src/filesystem/filesystem.c.

  Each edf function is its body inside `edf`, which runs the handlers the body
  has deferred.  An early `return` of a body ends the body only.
-/
import Prom.Modules.World

namespace Prom.Modules

open Prom.C Exec Heap Dga Errm Posix

variable {A : Type}

/-! ## §1. Freeing, and the handlers. -/

/-- One pass of the loop of `free_dir_content`. -/
def freeContentPass (content : Ptr) (i : Nat) : Exec Heap (Nat ⊕ Unit) := do
  let len ← dgaLen content
  if i < len.toNat then
    dgaFree (← loadPtr (content.add (8 * i)))
    pure (.inl (i + 1))
  else pure (.inr ())

/-- `free_dir_content(content)`. -/
def freeDirContent (content : Ptr) : Exec Heap Unit := do
  loop maxPasses (freeContentPass content) 0
  dgaFree content

/-- `free_mod_names(names)`. -/
def freeModNames (names : Ptr) : Exec Heap Unit := freeDirContent names

/-- What running a handler does. -/
def handle : Handler → Arg → Exec World Unit
  | .free, .ptr p => onHeap (free p)
  | .wordfree, .pool i off => do
    let cells ← onThread (poolObject i off wordexpSize)
    onHeap (Modules.wordfree cells)
  | .closeDir, .ptr dp => onOs (closedir dp)
  | .freeModNames, .ptr p => onHeap (Modules.freeModNames p)
  | _, _ => fail .undefined

/-- A call of an edf function with this body. -/
def edf (body : Exec World A) : Exec World A := edfFunc threadLens handle body

/-! ## §2. Paths. -/

/-- `emalloc(size)`. -/
def emalloc (size : Nat) : Exec World Ptr := edf do
  let p ← onHeap (malloc size)
  if p = .null then
    onThread (errmError .NOT_ENOUGH_MEMORY)
  pure p

/-- `expand(path)`. -/
def expand (P : System) (path : CStr) : Exec World Ptr := edf do
  match ← wordexp P path with
  | none =>
    onThread (errmError .PARSING_ERROR)
    pure .null
  | some w =>
    onThread (staticDefer .wordfree wordexpSize (wordexpCells w))
    -- the first word, whatever `we_wordc` says
    let word ← onHeap (loadPtr w.wordv)
    let s ← onHeap (loadStr word)
    let ret ← emalloc (s.length + 1)
    if ← errored then pure .null
    else
      strcpy ret s
      pure ret

/-- `"/"`. -/
def slashStr : CStr := ⟨[slash], by decide⟩

/-- `abs_path_from_relative(relative_path)`.  `sizeof('/')` and
    `sizeof('\\0')` are the size of an `int`. -/
def absPathFromRelative (P : System) (relativePath : CStr) : Exec World Ptr := edf do
  let cwd ← getcwd P
  onThread (defer .free cwd)
  -- `getcwd` may have returned `NULL`
  let c ← onHeap (loadStr cwd)
  let absPathLen := relativePath.length + 4 + c.length + 4
  let absPath ← emalloc absPathLen
  if ← errored then pure .null
  else
    snprintf absPath absPathLen ((c.append slashStr).append relativePath)
    pure absPath

/-- `abs_path(path)`. -/
def absPath (P : System) (path : CStr) : Exec World Ptr := edf do
  let translatedPath ← expand P path
  if ← errored then pure .null
  else
    let t ← onHeap (loadStr translatedPath)
    if t.bytes.head? ≠ some slash then
      onThread (defer .free translatedPath)
      absPathFromRelative P t
    else pure translatedPath

/-! ## §3. Directories. -/

/-- `errm_error_from_errno()`. -/
def errmErrorFromErrno : Exec World Unit := do
  match (← onOs get).errno with
  | .EACCES => onThread (errmError .NO_PERMISSIONS)
  | .ENFILE => onThread (errmError .LIMIT_EXCEEDED)
  | .ENOENT => onThread (errmError .DOES_NOT_EXIST)
  | .ENOTDIR => onThread (errmError .NOT_THE_EXPECTED)
  | .ENOMEM => onThread (errmError .NOT_ENOUGH_MEMORY)
  -- the error code stays as it is
  | _ => pure ()

/-- `open_dir(path)`. -/
def openDir (P : System) (path : CStr) : Exec World Ptr := edf do
  let expandedPath ← expand P path
  if ← errored then pure .null
  else
    -- deferred only now: after an error there is nothing to free
    onThread (defer .free expandedPath)
    let s ← onHeap (loadStr expandedPath)
    let dp ← onOs (opendir P s)
    if dp = .null then
      errmErrorFromErrno
    pure dp

/-- What `dir_content` and the functions built on it return: the array, and
    what was written to `*len_ret`, if anything was. -/
structure Listing where
  array : Ptr
  len : Option Size
  deriving Repr, DecidableEq

/-- `memfail` of `dir_content`. -/
def dirContentMemfail (names : Ptr) (len : Size) : Exec World Listing := do
  onThread (errmError .NOT_ENOUGH_MEMORY)
  -- the header of `names` may count an element that was never written
  onHeap (freeDirContent names)
  pure ⟨.null, some len⟩

/-- One pass of the loop of `dir_content`: the array and `*len_ret` so far. -/
def dirContentPass (dp : Ptr) (st : Ptr × Size) : Exec World ((Ptr × Size) ⊕ Listing) := do
  let (names, len) := st
  match ← onOs (readdir dp) with
  | none => pure (.inr ⟨names, some len⟩)
  | some fileName =>
    if fileName.bytes.head? = some dot then pure (.inl (names, len))
    else
      let tmp ← onHeap (dgaGrow names 1)
      if tmp = .null then
        let r ← dirContentMemfail names len
        pure (.inr r)
      else
        let name ← onHeap (dgaNew (BitVec.ofNat 64 (fileName.length + 4)) 1)
        if name = .null then
          let r ← dirContentMemfail tmp len
          pure (.inr r)
        else
          strcpy name fileName
          onHeap (storePtr (tmp.add (8 * len.toNat)) name)
          pure (.inl (tmp, len + 1))

/-- `dir_content(path, len_ret)`. -/
def dirContent (P : System) (path : CStr) : Exec World Listing := edf do
  let dp ← openDir P path
  if ← errored then pure ⟨.null, none⟩
  else
    onThread (defer .closeDir dp)
    let names ← onHeap (dgaNew 0 8)
    -- `names` is not compared with `NULL`
    loop maxPasses (dirContentPass dp) (names, 0)

end Prom.Modules
