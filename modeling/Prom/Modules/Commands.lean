/-
  Prom.Modules.Commands — the functions of src/prom-module.c.

  A command is given `argv` as a list of strings and returns its exit status.
  `printf` and `fprintf` write one text for each call.
-/
import Prom.Modules.Frames

namespace Prom.Modules

open Prom.C Exec Heap Dga Errm Posix

/-! ## §1. Texts. -/

/-- The bytes of an ASCII text. -/
def ascii (s : String) : List Byte := s.toList.map fun c => BitVec.ofNat 8 c.toNat

/-- A number, as `%d` prints it. -/
def decimal (n : Nat) : List Byte := (Nat.toDigits 10 n).map fun c => BitVec.ofNat 8 c.toNat

/-- The number of an error on Linux. -/
def errnoNumber : Errno → Nat
  | .ENOENT => 2
  | .ENOMEM => 12
  | .EACCES => 13
  | .EFAULT => 14
  | .EBUSY => 16
  | .EEXIST => 17
  | .ENOTDIR => 20
  | .EINVAL => 22
  | .ENFILE => 23
  | .ENOSPC => 28
  | .ENAMETOOLONG => 36
  | .ENOTEMPTY => 39
  | .ELOOP => 40
  | .other n => n

/-- The global `modules_path`. -/
def globalModulesPath : CStr := ⟨ascii "/home/nullp0tr/.prom/modules/", by decide⟩

def moduleAddUsage : List Byte := ascii "usage: prom-module-add path\n"

def moduleRemoveUsage : List Byte := ascii "usage: prom-module-remove name\n"

def moduleUsage : List Byte := ascii
  "usage: prom-module <command>\n\ncommands:\n    list      list all modules\n    add       add a new namespace\n    remove    remove an existing namespace\n"

/-! ## §2. The commands. -/

variable (P : System)

/-- `usage_exit(usage)`. -/
def usageExit {A : Type} (usage : List Byte) : Exec World A := do
  onOs (printErr usage)
  fail (.exit 1)

/-- What `cmd_arg_add` prints when `add_module` has failed. -/
def printAddFailure (modPath name : CStr) : Exec World Unit := do
  onOs (printErr (ascii "Failed to add module from " ++ modPath.bytes ++ ascii ": "))
  let errno := (← onOs get).errno
  if errno = .EEXIST then
    onOs (printErr (ascii "Module with name " ++ name.bytes ++ ascii " exists already."))
  else
    onOs (printErr (P.strerror errno))
  onOs (printErr (ascii "\n"))

/-- `cmd_arg_add(argc, argv)`.  The local `modules_path` is the empty string
    and hides the global one. -/
def cmdArgAdd (argv : List CStr) : Exec World Int := do
  match argv with
  | _ :: modPath :: _ =>
    let absModPath ← absPath P modPath
    if absModPath = .null then pure 1
    else
      let modulesPath : CStr := ⟨[], by decide⟩
      match ← loadModule P (← onHeap (loadStr absModPath)) modulesPath with
      | .error modErr =>
        let message ← onHeap (loadStr modErr)
        onOs (printErr (modPath.bytes ++ ascii " is not a valid module.\n" ++ message.bytes ++
          ascii ".\n"))
        onHeap (free absModPath)
        pure 1
      | .ok mod =>
        let name ← onHeap (loadStr mod.name)
        let am ← addModule P (← onHeap (loadStr absModPath)) name modulesPath
        if am = -1 then
          printAddFailure P modPath name
        -- also after `symlink` has failed
        let _ ← unloadModule P mod
        onHeap (free absModPath)
        pure (if am = -1 then 1 else 0)
  | _ => usageExit moduleAddUsage

/-- `cmd_arg_remove(argc, argv)`. -/
def cmdArgRemove (argv : List CStr) : Exec World Int := do
  match argv with
  | _ :: modName :: _ =>
    let rm ← rmModule P modName globalModulesPath
    if rm = -1 then
      let errno := (← onOs get).errno
      if errno = .ENOENT then
        onOs (printErr (ascii "Module with name " ++ modName.bytes ++ ascii " doesn't exist.\n"))
      else
        onOs (printErr (P.strerror errno ++ ascii ". " ++ decimal (errnoNumber errno) ++ ascii "\n"))
      pure 1
    else pure 0
  | _ => usageExit moduleRemoveUsage

/-- The line `"-----\n"`. -/
def ruleLine : List Byte := ascii "-----\n"

/-- `"Name: %s\n"`. -/
def nameLine (name : CStr) : List Byte := ascii "Name: " ++ name.bytes ++ ascii "\n"

/-- `"Desc: %s\n"`. -/
def descLine (desc : CStr) : List Byte := ascii "Desc: " ++ desc.bytes ++ ascii "\n"

/-- `"Removed: %s\n"`. -/
def removedLine (name : CStr) : List Byte := ascii "Removed: " ++ name.bytes ++ ascii "\n"

/-- One pass of the loop that prints what was removed. -/
def printRemovedPass (damaged : Ptr) (damagedLen : Size) (i : Nat) : Exec World (Nat ⊕ Unit) := do
  if i < damagedLen.toNat then
    let name ← onHeap (loadStr (← onHeap (loadPtr (damaged.add (8 * i)))))
    onOs (printOut (removedLine name))
    pure (.inl (i + 1))
  else pure (.inr ())

/-- One pass of the loop that prints the modules. -/
def printModulePass (mods : Ptr) (len : Size) (i : Nat) : Exec World (Nat ⊕ Unit) := do
  if i < len.toNat then
    onOs (printOut ruleLine)
    let name ← onHeap (loadStr (← onHeap (loadPtr (mods.add (moduleSize.toNat * i + 8)))))
    onOs (printOut (nameLine name))
    let desc ← onHeap (loadStr (← onHeap (loadPtr (mods.add (moduleSize.toNat * i + 16)))))
    onOs (printOut (descLine desc))
    pure (.inl (i + 1))
  else pure (.inr ())

/-- `cmd_arg_list(argc, argv)`. -/
def cmdArgList (argv : List CStr) : Exec World Int := do
  if argv.any (·.bytes = ascii "--clean") then
    let damaged ← cleanUlModNames P globalModulesPath
    if damaged.array = .null then pure (-1)
    else
      match damaged.len with
      | some len =>
        loop maxPasses (printRemovedPass damaged.array len) 0
        onHeap (freeUlModNames damaged.array)
        pure 0
      | none => fail .undefined
  else
    let mods ← installedMods P globalModulesPath
    if mods.array = .null then pure 1
    else
      -- `len_ret` is 0 before the call
      loop maxPasses (printModulePass mods.array (mods.len.getD 0)) 0
      onHeap (freeInstalledMods mods.array)
      onOs (printOut ruleLine)
      pure 0

/-- `module_main(argc, argv)`. -/
def moduleMain (argv : List CStr) : Exec World Int :=
  match argv with
  | _ :: cmdArg :: rest =>
    if cmdArg.bytes = ascii "list" then cmdArgList P (cmdArg :: rest)
    else if cmdArg.bytes = ascii "add" then cmdArgAdd P (cmdArg :: rest)
    else if cmdArg.bytes = ascii "remove" then cmdArgRemove P (cmdArg :: rest)
    else usageExit moduleUsage
  | _ => usageExit moduleUsage

end Prom.Modules
