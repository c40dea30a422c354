/-
  Prom.Modules.World — the state filesystem.c, mods.c and prom-module.c run
  on, and the C library calls that touch more than one part of it.

  A `const char *` that a function only reads is passed as the string itself;
  where the caller holds a pointer it reads the string when it passes it, so
  the memory has to be live at that moment.  Lengths of strings are natural
  numbers: two strings in memory are together shorter than the address space,
  so their sums do not wrap.  Sizes of dga arrays are computed by dga.

  A module's `init` is code of its own.  A `ModInit` is what is found under the
  symbol: it may leave any error code behind, and which one may depend on the
  code it finds and on how often `init` functions have been run before.  What an
  `init` may do besides is the subject of `Prom.Modules.Inits`.
-/
import Prom.Dga.Lists
import Prom.Errm.Defers
import Prom.Posix.Calls

namespace Prom.Modules

open Prom.C Exec Heap Dga Errm Posix

/-! ## §1. The state. -/

/-- The handlers filesystem.c and mods.c defer. -/
inductive Handler where
  | free
  | wordfree
  | closeDir
  | freeModNames
  deriving Repr, DecidableEq

/-- A module's `init`, as far as it is seen in the error code. -/
structure ModInit where
  /-- The error code it leaves, from the number of earlier runs of any `init`
      and the code it finds. -/
  leaves : Nat → Option ErrorCode → Option ErrorCode
  /-- The `struct module_cbs` it fills in. -/
  cbs : List Cell
  cbs_length : cbs.length = 32

/-- The system the modules are loaded by. -/
abbrev System := Platform ModInit

/-- A running prom command. -/
structure World where
  heap : Heap
  thread : Thread Handler
  os : Os
  /-- The runs of `init` functions so far. -/
  inits : Nat

def heapLens : Lens World Heap where
  get := World.heap
  set w h := { w with heap := h }
  get_set _ _ := rfl
  set_get _ := rfl
  set_set _ _ _ := rfl

def threadLens : Lens World (Thread Handler) where
  get := World.thread
  set w t := { w with thread := t }
  get_set _ _ := rfl
  set_get _ := rfl
  set_set _ _ _ := rfl

def osLens : Lens World Os where
  get := World.os
  set w o := { w with os := o }
  get_set _ _ := rfl
  set_get _ := rfl
  set_set _ _ _ := rfl

variable {A : Type}

/-- Work on the heap. -/
def onHeap (m : Exec Heap A) : Exec World A := zoom heapLens m

/-- Work on the error code and the frames. -/
def onThread (m : Exec (Thread Handler) A) : Exec World A := zoom threadLens m

/-- Call the system. -/
def onOs (m : Exec Os A) : Exec World A := zoom osLens m

/-- `Errored`. -/
def errored : Exec World Bool := do return (← onThread errmErrorCode).isSome

/-! ## §2. The C library. -/

/-- `snprintf(p, n, "%s...", ...)` of a text: as much of it as fits, and a
    NUL. -/
def snprintf (p : Ptr) (n : Nat) (text : CStr) : Exec World Unit :=
  if n = 0 then pure ()
  else onHeap (store p ((text.bytes.take (n - 1)).map .byte ++ [.byte 0]))

/-- `strcpy(p, s)`. -/
def strcpy (p : Ptr) (s : CStr) : Exec World Unit := onHeap (store p (strCells s))

/-- The string at a pointer that may be `NULL`. -/
def pathArg (p : Ptr) : Exec World (Option CStr) := do
  if p = .null then pure none
  else
    let s ← onHeap (loadStr p)
    pure (some s)

/-- `getcwd(NULL, 0)`. -/
def getcwd (P : System) : Exec World Ptr := do
  let s ← onOs get
  match P.getcwd s.fs s.cwd with
  | none => pure .null
  | some cwd =>
    let p ← onHeap (malloc (cwd.length + 1))
    if p = .null then pure .null
    else
      strcpy p cwd
      pure p

/-- A `wordexp_t`: `we_wordc` and `we_wordv`; `we_offs` is not used. -/
structure Wordexp where
  wordc : Size
  wordv : Ptr

/-- The bytes of a `wordexp_t`. -/
def wordexpCells (w : Wordexp) : List Cell := encodeSize w.wordc ++ encodePtr w.wordv ++ fresh 8

theorem length_wordexpCells (w : Wordexp) : (wordexpCells w).length = 24 := by
  simp only [wordexpCells, List.length_append, length_encodeSize, length_encodePtr, length_fresh]

/-- `sizeof(wordexp_t)`. -/
def wordexpSize : Size := 24

/-- A block of the library's own for each string; the pointers to them. -/
def allocStrings : List CStr → Exec Heap (List Ptr)
  | [] => pure []
  | s :: rest => do
    let b := (← get).blocks.length
    modify (·.alloc (strCells s))
    let ps ← allocStrings rest
    pure (⟨.heap b, 0⟩ :: ps)

/-- `wordexp(path, &w, 0)`; no value is an error.  The words and the null
    terminated array of pointers to them belong to `w`. -/
def wordexp (P : System) (path : CStr) : Exec World (Option Wordexp) := do
  let s ← onOs get
  match P.wordexp s.fs s.cwd path with
  | none => pure none
  | some words =>
    let ps ← onHeap (allocStrings words)
    let b := (← onHeap get).blocks.length
    onHeap (modify (·.alloc ((ps.map encodePtr).flatten ++ encodePtr .null)))
    pure (some ⟨BitVec.ofNat 64 words.length, ⟨.heap b, 0⟩⟩)

/-- Free `n` words of an array, from index `i` on. -/
def freeWords (wordv : Ptr) : (n i : Nat) → Exec Heap Unit
  | 0, _ => pure ()
  | n + 1, i => do
    free (← loadPtr (wordv.add (8 * i)))
    freeWords wordv n (i + 1)

/-- `wordfree(w)`, of the `wordexp_t` in these bytes. -/
def wordfree (cells : List Cell) : Exec Heap Unit :=
  match decodeSize (slice cells 0 8), decodePtr (slice cells 8 8) with
  | some wordc, some wordv => do
    freeWords wordv wordc.toNat 0
    free wordv
  | _, _ => fail .undefined

end Prom.Modules
