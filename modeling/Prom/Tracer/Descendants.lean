/-
  Prom.Tracer.Descendants — which processes of the tree are traced.

  `tracer_init` seizes the first child with an option word and never looks at
  the tree again: a descendant is traced when the kernel attached it at its
  creation, which it does exactly when the creator is traced with the option
  for that kind of creation.  The option word has PTRACE_O_TRACEFORK and
  PTRACE_O_TRACECLONE, and lacks PTRACE_O_TRACEVFORK.

  Main results:
    * `tracerInit_seizes` — a successful `tracer_init` leaves the child
      traced with `ptraceOptions`.
    * `all_traced_iff_no_vfork` — along any run of creations and exits, every
      live process is traced in every state iff no creation has CLONE_VFORK.
    * `vfork_child_escapes` — one `vfork` is enough to leave the tree.
-/
import Prom.Tracer.Ptrace
import Mathlib.Logic.Function.Basic

namespace Prom.Tracer

/-! ## §1. `tracer_init`. -/

/-- `int ptrace_options`. -/
def ptraceOptions : BitVec 32 :=
  PTRACE_O_TRACEFORK ||| PTRACE_O_TRACESYSGOOD ||| PTRACE_O_TRACECLONE ||| PTRACE_O_TRACEEXIT

/-- The system calls of `tracer_init`, in order. -/
inductive InitCall where
  /-- `waitpid(pid_child, &child_status, WSTOPPED)`. -/
  | waitStopped
  /-- `ptrace(PTRACE_SEIZE, pid_child, NULL, options)`. -/
  | seize (options : BitVec 32)
  /-- `ptrace(PTRACE_INTERRUPT, pid_child, NULL, NULL)`. -/
  | interrupt
  /-- `ptrace(PTRACE_SYSCALL, pid_child, 0, NULL)`. -/
  | resume
  /-- `kill(pid_child, SIGCONT)`. -/
  | kill (sig : Nat)
  deriving Repr, DecidableEq

/-- `tracer_init`: the calls made, when `ok c` says whether call `c` succeeds,
and the value returned.  The result of `waitpid` is not looked at. -/
def tracerInit (ok : InitCall → Bool) : List InitCall × Int :=
  let seize := .seize ptraceOptions
  if !ok seize then ([.waitStopped, seize], -1)
  else if !ok .interrupt then ([.waitStopped, seize, .interrupt], -1)
  else if !ok .resume then ([.waitStopped, seize, .interrupt, .resume], -1)
  else if !ok (.kill SIGCONT) then ([.waitStopped, seize, .interrupt, .resume, .kill SIGCONT], -1)
  else ([.waitStopped, seize, .interrupt, .resume, .kill SIGCONT], 0)

/-- The options the child ends up traced with: those of the `PTRACE_SEIZE`
that succeeded, if any. -/
def seizedWith (ok : InitCall → Bool) (calls : List InitCall) : Option (BitVec 32) :=
  calls.findSome? fun
    | .seize options => if ok (.seize options) then some options else none
    | _ => none

/-- A successful `tracer_init` leaves the child traced with `ptraceOptions`. -/
theorem tracerInit_seizes (ok : InitCall → Bool) (h : (tracerInit ok).2 = 0) :
    seizedWith ok (tracerInit ok).1 = some ptraceOptions := by
  cases hs : ok (.seize ptraceOptions) with
  | false => exact absurd h (by simp [tracerInit, hs])
  | true =>
      have hcalls : ∃ rest, (tracerInit ok).1 = .waitStopped :: .seize ptraceOptions :: rest := by
        unfold tracerInit
        cases ok .interrupt <;> cases ok .resume <;> cases ok (.kill SIGCONT) <;>
          simp [hs]
      obtain ⟨rest, hrest⟩ := hcalls
      rw [hrest]
      simp [seizedWith, hs]

/-! ## §2. The process tree. -/

/-- A live process: the options it is traced with, `none` when it is not
traced. -/
structure Proc where
  options : Option (BitVec 32)
  deriving Repr, DecidableEq

/-- The live processes of the tree. -/
abbrev Tree := Pid → Option Proc

/-- `CLONE_VFORK` of `<sched.h>`. -/
def CLONE_VFORK : Word := 0x4000

/-- `CSIGNAL`, the bits of a clone flag word that hold the exit signal. -/
def CSIGNAL : Word := 0xff

/-- The creation asks for the vfork rendezvous. -/
def isVfork (flags : Word) : Bool := flags &&& CLONE_VFORK != 0

/-- The option under which the kernel attaches the new child.  `fork()` has
the flags SIGCHLD, `vfork()` CLONE_VFORK | CLONE_VM | SIGCHLD. -/
def creationOption (flags : Word) : BitVec 32 :=
  if isVfork flags then PTRACE_O_TRACEVFORK
  else if flags &&& CSIGNAL = BitVec.ofNat 64 SIGCHLD then PTRACE_O_TRACEFORK
  else PTRACE_O_TRACECLONE

/-- What a process of the tree does. -/
inductive TreeEvent where
  /-- `parent` creates `child` by fork, vfork or clone with these flags. -/
  | create (parent child : Pid) (flags : Word)
  /-- `p` exits or is killed. -/
  | exit (p : Pid)
  deriving Repr, DecidableEq

/-- The option word contains this option. -/
def hasOption (opts option : BitVec 32) : Bool := opts &&& option != 0

/-- A child inherits the options when its creator is traced with the option
for this kind of creation, and is not traced otherwise. -/
def newborn (parent : Proc) (flags : Word) : Proc :=
  match parent.options with
  | some opts => ⟨if hasOption opts (creationOption flags) then some opts else none⟩
  | none => ⟨none⟩

/-- One event.  Only a live process creates, and the child's id is free. -/
def stepTree (t : Tree) : TreeEvent → Tree
  | .exit p => Function.update t p none
  | .create parent child flags =>
      match t parent, t child with
      | some proc, none => Function.update t child (some (newborn proc flags))
      | _, _ => t

/-- The states a run goes through, the first one included. -/
def treeStates : Tree → List TreeEvent → List Tree
  | t, [] => [t]
  | t, e :: es => t :: treeStates (stepTree t e) es

/-- The tree after `tracer_init`: the child alone, with the options it was
seized with. -/
def treeAfterInit (root : Pid) (ok : InitCall → Bool) : Tree := fun p =>
  if p = root then some ⟨seizedWith ok (tracerInit ok).1⟩ else none

/-! ## §3. Everyone is traced, exactly without vfork. -/

/-- Every live process is traced. -/
def AllTraced (t : Tree) : Prop := ∀ p proc, t p = some proc → proc.options.isSome

/-- The invariant: every live process has the options of `tracer_init`. -/
def Inherited (t : Tree) : Prop := ∀ p proc, t p = some proc → proc.options = some ptraceOptions

/-- The event creates a process, and not with CLONE_VFORK. -/
def NotVfork (t : Tree) : TreeEvent → Prop
  | .exit _ => True
  | .create parent child flags => (t parent).isSome → t child = none → isVfork flags = false

/-- No creation of the run has CLONE_VFORK. -/
def NoVfork : Tree → List TreeEvent → Prop
  | _, [] => True
  | t, e :: es => NotVfork t e ∧ NoVfork (stepTree t e) es

theorem AllTraced.of_inherited {t : Tree} (h : Inherited t) : AllTraced t :=
  fun p proc hp => by rw [h p proc hp]; rfl

/-- With the options of `tracer_init`, a child is attached iff its creation is
not a vfork. -/
theorem newborn_options (flags : Word) :
    (newborn ⟨some ptraceOptions⟩ flags).options
      = if isVfork flags then none else some ptraceOptions := by
  have hattach : hasOption ptraceOptions (creationOption flags) = !isVfork flags := by
    unfold creationOption
    cases isVfork flags with
    | true => rw [if_pos rfl]; decide
    | false =>
        rw [if_neg (by simp)]
        split <;> decide
  simp only [newborn, hattach]
  cases isVfork flags <;> rfl

/-- A creation that takes place. -/
theorem stepTree_create {t : Tree} {parent child : Pid} {proc : Proc}
    (hparent : t parent = some proc) (hchild : t child = none) (flags : Word) :
    stepTree t (.create parent child flags)
      = Function.update t child (some (newborn proc flags)) := by
  simp only [stepTree, hparent, hchild]

/-- **Step lemma.**  An event that is no vfork keeps the invariant. -/
theorem stepTree_inherited {t : Tree} {e : TreeEvent} (h : Inherited t) (hv : NotVfork t e) :
    Inherited (stepTree t e) := by
  cases e with
  | exit p =>
      intro q proc hq
      by_cases hqp : q = p
      · subst hqp; simp [stepTree] at hq
      · exact h q proc (by simpa [stepTree, hqp] using hq)
  | create parent child flags =>
      cases hparent : t parent with
      | none =>
          have hsame : stepTree t (.create parent child flags) = t := by
            simp only [stepTree, hparent]
          rw [hsame]
          exact h
      | some proc =>
          cases hchild : t child with
          | some other =>
              have hsame : stepTree t (.create parent child flags) = t := by
                simp only [stepTree, hparent, hchild]
              rw [hsame]
              exact h
          | none =>
              have hflags : isVfork flags = false := hv (by rw [hparent]; rfl) hchild
              -- the child gets what its parent has
              have hopts : proc = ⟨some ptraceOptions⟩ :=
                congrArg Proc.mk (h parent proc hparent)
              rw [stepTree_create hparent hchild]
              intro q proc' hq
              by_cases hqc : q = child
              · subst hqc
                rw [Function.update_self, Option.some.injEq] at hq
                rw [← hq, hopts, newborn_options, hflags]
                rfl
              · exact h q proc' (by simpa [hqc] using hq)

/-- A vfork by a process of the tree leaves an untraced child. -/
theorem not_allTraced_of_vfork {t : Tree} {e : TreeEvent} (h : Inherited t)
    (hv : ¬NotVfork t e) : ¬AllTraced (stepTree t e) := by
  cases e with
  | exit p => exact absurd True.intro hv
  | create parent child flags =>
      simp only [NotVfork, Classical.not_imp, Bool.not_eq_false] at hv
      obtain ⟨hsome, hchild, hflags⟩ := hv
      obtain ⟨proc, hparent⟩ := Option.isSome_iff_exists.mp hsome
      have hopts : proc = ⟨some ptraceOptions⟩ := congrArg Proc.mk (h parent proc hparent)
      intro hall
      rw [stepTree_create hparent hchild] at hall
      have hnew := hall child _ (Function.update_self ..)
      rw [hopts, newborn_options, hflags] at hnew
      exact absurd hnew (by simp)

/-- **Run lemma.**  From a tree where everyone inherited the options, everyone
is traced in every state iff no creation is a vfork. -/
theorem treeStates_allTraced_iff :
    ∀ (es : List TreeEvent) (t : Tree), Inherited t →
      ((∀ s ∈ treeStates t es, AllTraced s) ↔ NoVfork t es)
  | [], t, h => by
      simp only [treeStates, NoVfork, iff_true, List.mem_singleton]
      rintro s rfl
      exact AllTraced.of_inherited h
  | e :: es, t, h => by
      simp only [treeStates, NoVfork, List.mem_cons, forall_eq_or_imp]
      by_cases hv : NotVfork t e
      · rw [treeStates_allTraced_iff es _ (stepTree_inherited h hv)]
        exact ⟨fun hs => ⟨hv, hs.2⟩, fun hs => ⟨AllTraced.of_inherited h, hs.2⟩⟩
      · refine ⟨fun hs => ?_, fun hs => absurd hs.1 hv⟩
        have hhead : stepTree t e ∈ treeStates (stepTree t e) es := by
          cases es <;> exact List.mem_cons_self
        exact absurd (hs.2 _ hhead) (not_allTraced_of_vfork h hv)

/-- **NO DESCENDANT ESCAPES, EXACTLY WITHOUT VFORK.**  After `tracer_init` has
succeeded, and for every run of creations and exits in the tree of the child,
every live process is traced in every state if and only if no creation of the
run has CLONE_VFORK. -/
theorem all_traced_iff_no_vfork (root : Pid) (ok : InitCall → Bool)
    (hinit : (tracerInit ok).2 = 0) (es : List TreeEvent) :
    (∀ t ∈ treeStates (treeAfterInit root ok) es, AllTraced t)
      ↔ NoVfork (treeAfterInit root ok) es := by
  refine treeStates_allTraced_iff es _ fun p proc hp => ?_
  unfold treeAfterInit at hp
  split at hp
  next =>
    injection hp with hp
    rw [← hp]
    exact tracerInit_seizes ok hinit
  next => exact absurd hp (by simp)

/-- Every state of a run has all its live processes traced. -/
def StaysTraced (t : Tree) (es : List TreeEvent) : Prop :=
  ∀ t' ∈ treeStates t es, AllTraced t'

/-- A shell that forks a child (flags SIGCHLD), which starts a thread (exit
signal 0) and exits, stays traced. -/
theorem all_traced_forks_and_clones :
    StaysTraced (treeAfterInit 1 fun _ => true)
      [.create 1 2 0x11, .create 2 3 0x10f00, .exit 2] :=
  (all_traced_iff_no_vfork 1 (fun _ => true) (by decide) _).mpr
    ⟨fun _ _ => by decide, fun _ _ => by decide, True.intro, True.intro⟩

/-- **One vfork leaves the tree**: after `tracer_init` succeeded, a process
that calls `vfork` (flags CLONE_VFORK | CLONE_VM | SIGCHLD) has a live child
that is not traced. -/
theorem vfork_child_escapes :
    (tracerInit fun _ => true).2 = 0
      ∧ stepTree (treeAfterInit 1 fun _ => true) (.create 1 2 0x4111) 2 = some ⟨none⟩
      ∧ ¬ ∀ t ∈ treeStates (treeAfterInit 1 fun _ => true) [.create 1 2 0x4111],
          AllTraced t := by
  refine ⟨by decide, by decide, fun h => ?_⟩
  have hmem : stepTree (treeAfterInit 1 fun _ => true) (.create 1 2 0x4111)
      ∈ treeStates (treeAfterInit 1 fun _ => true) [.create 1 2 0x4111] := by
    simp [treeStates]
  exact absurd (h _ hmem 2 ⟨none⟩ (by decide)) (by decide)

end Prom.Tracer
