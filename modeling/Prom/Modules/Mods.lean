/-
  Prom.Modules.Mods — the functions of src/modules/mods.c.

  What a module's `init` does is a parameter, `call`, of the functions that load
  modules.  Under the names of the source they are given `runInit`, by which an
  `init` leaves an error code and nothing else.
-/
import Prom.Modules.Filesystem

namespace Prom.Modules

open Prom.C Exec Heap Dga Errm Posix

variable (P : System)

/-! ## §1. One module. -/

/-- `get_mod_path(modules_path, name)`. -/
def getModPath (modulesPath name : CStr) : Exec World Ptr := do
  onThread errmClear
  let modPathLen := modulesPath.length + name.length + 4
  let modPath ← onHeap (malloc modPathLen)
  if modPath = .null then
    onThread (errmError .NOT_ENOUGH_MEMORY)
    pure .null
  else
    snprintf modPath modPathLen (modulesPath.append name)
    pure modPath

/-- `struct module`. -/
structure Module where
  dlhandle : Ptr
  name : Ptr
  desc : Ptr
  /-- `struct module_cbs`. -/
  cbs : List Cell

/-- `sizeof(struct module)`. -/
def moduleSize : Size := 56

/-- The bytes of a `struct module`. -/
def Module.cells (m : Module) : List Cell :=
  encodePtr m.dlhandle ++ encodePtr m.name ++ encodePtr m.desc ++ m.cbs

/-- `dlsym` and the `dlerror` that follows it: the symbol, or the message
    after the error is noted. -/
def dlsymChecked {A : Type} (handle : Ptr) (symbol : SharedObject ModInit → Option A) :
    Exec World (Ptr × Option A) := do
  let a ← onOs (dlsym P handle symbol)
  let dlerr ← onOs (dlerror P)
  if dlerr ≠ .null then
    onThread (errmError .DYN_SHARED_OBJ_ERROR)
  pure (dlerr, a)

/-- `(*init)(&mod->cbs)`, of an `init` that leaves an error code. -/
def runInit (init : ModInit) : Exec World (List Cell) := fun w =>
  .ok init.cbs
    { w with
      thread := { w.thread with errCode := init.leaves w.inits w.thread.errCode }
      inits := w.inits + 1 }

/-- `(*init)(&mod->cbs)` of any code, by the handle of the object. -/
abbrev CallInit := Ptr → ModInit → Exec World (List Cell)

variable (call : CallInit)

/-- The symbols of an object that was opened, whatever `init`s do. -/
def loadSymbolsWith (dlhandle : Ptr) : Exec World (Except Ptr Module) := do
  match ← dlsymChecked P dlhandle SharedObject.name with
  -- `dlhandle` is not closed, here and below
  | (dlerr, none) => pure (.error dlerr)
  | (_, some name) =>
    match ← dlsymChecked P dlhandle SharedObject.desc with
    | (dlerr, none) => pure (.error dlerr)
    | (_, some desc) =>
      match ← dlsymChecked P dlhandle SharedObject.init with
      | (dlerr, none) => pure (.error dlerr)
      | (_, some init) =>
        let cbs ← call dlhandle init
        pure (.ok ⟨dlhandle, name, desc, cbs⟩)

/-- `load_module`, whatever `init`s do. -/
def loadModuleWith (name modulesPath : CStr) : Exec World (Except Ptr Module) := do
  onThread errmClear
  let path ← getModPath modulesPath name
  -- a path that could not be made is passed on as `NULL`
  let dlhandle ← onOs (dlopen P (← pathArg path))
  onHeap (free path)
  let dlerr ← onOs (dlerror P)
  if dlerr ≠ .null then
    onThread (errmError .DYN_SHARED_OBJ_ERROR)
    pure (.error dlerr)
  else loadSymbolsWith P call dlhandle

/-- What `load_module` does with an object it has opened. -/
def loadSymbols (dlhandle : Ptr) : Exec World (Except Ptr Module) :=
  loadSymbolsWith P (fun _ => runInit) dlhandle

/-- `load_module(name, mod, modules_path)`: the message, or the filled in
    `*mod` when `NULL` is returned. -/
def loadModule (name modulesPath : CStr) : Exec World (Except Ptr Module) :=
  loadModuleWith P (fun _ => runInit) name modulesPath

/-- `unload_module(mod)`. -/
def unloadModule (mod : Module) : Exec World Ptr := do
  onOs (dlclose mod.dlhandle)
  -- only the message tells whether it worked
  onOs (dlerror P)

/-- `add_module(path, name, modules_path)`. -/
def addModule (path name modulesPath : CStr) : Exec World Int := do
  let modPath ← getModPath modulesPath name
  let ret ← onOs (symlink P path (← pathArg modPath))
  onHeap (free modPath)
  pure (if ret = -1 then -1 else 0)

/-- `rm_module(name, modules_path)`. -/
def rmModule (name modulesPath : CStr) : Exec World Int := do
  let modPath ← getModPath modulesPath name
  let ret ← onOs (remove P (← pathArg modPath))
  onHeap (free modPath)
  pure (if ret = -1 then -1 else 0)

/-- `mod_names(len_ret, modules_path)`. -/
def modNames (modulesPath : CStr) : Exec World Listing := dirContent P modulesPath

/-! ## §2. All modules. -/

/-- `fail` of `installed_mods`. -/
def installedModsFail (allMods : Ptr) : Exec World Listing := do
  -- the modules in the array stay loaded
  onHeap (dgaFree allMods)
  pure ⟨.null, none⟩

/-- A pass of `installed_mods`, whatever `init`s do. -/
def installedModsPassWith (modulesPath : CStr) (allModNames : Ptr) (lenModNames : Size)
    (st : Ptr × Nat) : Exec World ((Ptr × Nat) ⊕ Listing) := do
  let (allMods, i) := st
  if i < lenModNames.toNat then
    let modName ← onHeap (loadPtr (allModNames.add (8 * i)))
    let tmp ← onHeap (dgaGrow allMods 1)
    if tmp = .null then
      onThread (errmError .NOT_ENOUGH_MEMORY)
      let r ← installedModsFail allMods
      pure (.inr r)
    else
      let name ← onHeap (loadStr modName)
      let currMod ← loadModuleWith P call name modulesPath
      if ← errored then
        let r ← installedModsFail tmp
        pure (.inr r)
      else
        let cells :=
          match currMod with
          | .ok m => m.cells
          -- a struct nobody has filled in
          | .error _ => fresh moduleSize.toNat
        let len ← onHeap (dgaLen tmp)
        onHeap (store (tmp.add (moduleSize.toNat * (len - 1).toNat)) cells)
        pure (.inl (tmp, i + 1))
  else
    let len ← onHeap (dgaLen allMods)
    pure (.inr ⟨allMods, some len⟩)

/-- `installed_mods`, whatever `init`s do. -/
def installedModsWith (modulesPath : CStr) : Exec World Listing := edf do
  let names ← modNames P modulesPath
  if ← errored then pure ⟨.null, none⟩
  else
    onThread (defer .freeModNames names.array)
    let allMods ← onHeap (dgaNew 0 moduleSize)
    if allMods = .null then
      onThread (errmError .NOT_ENOUGH_MEMORY)
      pure ⟨.null, none⟩
    else
      match names.len with
      | some len =>
        loop maxPasses (installedModsPassWith P call modulesPath names.array len) (allMods, 0)
      | none => fail .undefined

/-- One pass of the loop of `installed_mods`: the array and the index. -/
def installedModsPass (modulesPath : CStr) (allModNames : Ptr) (lenModNames : Size)
    (st : Ptr × Nat) : Exec World ((Ptr × Nat) ⊕ Listing) :=
  installedModsPassWith P (fun _ => runInit) modulesPath allModNames lenModNames st

/-- `installed_mods(len_ret, modules_path)`. -/
def installedMods (modulesPath : CStr) : Exec World Listing :=
  installedModsWith P (fun _ => runInit) modulesPath

/-- `free_installed_mods(mods)`. -/
def freeInstalledMods (mods : Ptr) : Exec Heap Unit := dgaFree mods

/-! ## §3. Cleaning. -/

/-- One pass of `dga_foreach` in `free_ul_mod_names`. -/
def freeUlPass (names p : Ptr) : Exec Heap (Ptr ⊕ Unit) := do
  let len ← dgaLen names
  if p ≠ names.add (8 * len.toNat) then
    dgaFree (← loadPtr p)
    pure (.inl (p.add 8))
  else pure (.inr ())

/-- `free_ul_mod_names(names)`. -/
def freeUlModNames (names : Ptr) : Exec Heap Unit := do
  loop maxPasses (freeUlPass names) names
  dgaFree names

/-- `memfail` of `clean_ul_mod_names`. -/
def cleanMemfail (ulNames names : Ptr) : Exec World Listing := do
  onHeap (freeUlModNames ulNames)
  onHeap (freeModNames names)
  onThread (errmError .NOT_ENOUGH_MEMORY)
  pure ⟨.null, none⟩

/-- A pass of `clean_ul_mod_names`, whatever `init`s do. -/
def cleanPassWith (modulesPath : CStr) (names : Ptr) (lenNames : Size) (st : Ptr × Nat) :
    Exec World ((Ptr × Nat) ⊕ Listing) := do
  let (ulNames, i) := st
  if i < lenNames.toNat then
    let name ← onHeap (loadPtr (names.add (8 * i)))
    let s ← onHeap (loadStr name)
    match ← loadModuleWith P call s modulesPath with
    -- the module stays loaded
    | .ok _ => pure (.inl (ulNames, i + 1))
    | .error _ =>
      let s ← onHeap (loadStr name)
      -- `dga_new(strlen(name) + 1, 0)`: elements of the size of `0`
      let ulModName ← onHeap (dgaNew (BitVec.ofNat 64 (s.length + 1)) 4)
      if ulModName = .null then
        let r ← cleanMemfail ulNames names
        pure (.inr r)
      else
        strcpy ulModName s
        let tmp ← onHeap (dgaGrow ulNames 1)
        if tmp = .null then
          let r ← cleanMemfail ulNames names
          pure (.inr r)
        else
          let len ← onHeap (dgaLen tmp)
          onHeap (storePtr (tmp.add (8 * (len - 1).toNat)) ulModName)
          -- the result is not looked at
          let _ ← rmModule P s modulesPath
          pure (.inl (tmp, i + 1))
  else
    onHeap (freeModNames names)
    let len ← onHeap (dgaLen ulNames)
    pure (.inr ⟨ulNames, some len⟩)

/-- `clean_ul_mod_names`, whatever `init`s do. -/
def cleanUlModNamesWith (modulesPath : CStr) : Exec World Listing := do
  onThread errmClear
  let names ← modNames P modulesPath
  if ← errored then pure ⟨.null, none⟩
  else
    let ulNames ← onHeap (dgaNew 0 8)
    if ulNames = .null then
      -- the loop is entered all the same
      onThread (errmError .NOT_ENOUGH_MEMORY)
    match names.len with
    | some len => loop maxPasses (cleanPassWith P call modulesPath names.array len) (ulNames, 0)
    | none => fail .undefined

/-- One pass of the loop of `clean_ul_mod_names`: the array and the index. -/
def cleanPass (modulesPath : CStr) (names : Ptr) (lenNames : Size) (st : Ptr × Nat) :
    Exec World ((Ptr × Nat) ⊕ Listing) :=
  cleanPassWith P (fun _ => runInit) modulesPath names lenNames st

/-- `clean_ul_mod_names(len_ret, modules_path)`. -/
def cleanUlModNames (modulesPath : CStr) : Exec World Listing :=
  cleanUlModNamesWith P (fun _ => runInit) modulesPath

end Prom.Modules
