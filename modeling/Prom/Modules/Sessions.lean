/-
  Prom.Modules.Sessions — prom run again and again on the same files.

  Every invocation is a process of its own, with its own memory, its own
  directory and its own system calls; what is left between two of them is the
  file system.  So a session is a machine whose state is the file system, and
  what may be said of the store is what every invocation keeps.

  `Accounted` is that invariant: every entry that has come was linked by an
  `add` in the directory it ran in, and every entry that has gone was taken out
  of the modules directory by a `remove` of its name or by a cleaning.

  Main results:
    * `step_accounted` — one invocation keeps the account.
    * `session_accounted` — so does a session, whatever memory is refused in it.
-/
import Prom.C.Machine
import Prom.Modules.Effects

namespace Prom.Modules

open Prom.C Exec Heap Dga Errm Posix

/-! ## §1. `cmd_main`. -/

/-- `PROM_USAGE`. -/
def promUsage : List Byte := ascii
  "usage: prom <command> [--help]\n\nprom commands\n    module       Manage your modules\n    shell        Launch a prom shell\n"

/-- `cmd_main(argc, argv)`; `shellMain` is the shell. -/
def cmdMain (P : System) (shellMain : List CStr → Exec World Int) (argv : List CStr) : Exec World Int :=
  match argv with
  | _ :: cmd :: rest =>
    if cmd.bytes = ascii "module" then moduleMain P (cmd :: rest)
    else if cmd.bytes = ascii "shell" then shellMain (cmd :: rest)
    else usageExit promUsage
  | _ => usageExit promUsage

/-- What a command line asks for. -/
inductive Command where
  | add (path : CStr)
  | remove (name : CStr)
  | list (clean : Bool)
  | shell
  | usage
  deriving DecidableEq

/-- The arguments behind `prom module`. -/
def moduleCommand : List CStr → Command
  | [] => .usage
  | c :: args =>
    if c.bytes = ascii "list" then .list (args.any (·.bytes = ascii "--clean"))
    else if c.bytes = ascii "add" then (args.head?.map Command.add).getD .usage
    else if c.bytes = ascii "remove" then (args.head?.map Command.remove).getD .usage
    else .usage

/-- The command of a command line. -/
def command : List CStr → Command
  | _ :: cmd :: rest =>
    if cmd.bytes = ascii "module" then moduleCommand rest
    else if cmd.bytes = ascii "shell" then .shell
    else .usage
  | _ => .usage

section Commands

variable {P : System} {shellMain : List CStr → Exec World Int} {argv : List CStr}

/-- A command line that is none ends in the usage, and the files are the same. -/
theorem usageExit_stops {A : Type} (usage : List Byte) (w : World) :
    ∃ w', (usageExit usage : Exec World A) w = .stop (.exit 1) w' ∧ SameFiles w w' :=
  ⟨_, rfl, rfl, rfl⟩

/-- What `cmd_main` runs, by the command. -/
theorem cmdMain_cases (P : System) (shellMain : List CStr → Exec World Int) (argv : List CStr) :
    match command argv with
    | .add path => ∃ c rest, cmdMain P shellMain argv = cmdArgAdd P (c :: path :: rest)
    | .remove name => ∃ c rest, cmdMain P shellMain argv = cmdArgRemove P (c :: name :: rest)
    | .list clean => ∃ args, cmdMain P shellMain argv = cmdArgList P args ∧
        args.any (·.bytes = ascii "--clean") = clean
    | .shell => True
    | .usage => ∀ w, ∃ w', cmdMain P shellMain argv w = .stop (.exit 1) w' ∧ SameFiles w w' := by
  match argv with
  | [] => exact usageExit_stops _
  | [_] => exact usageExit_stops _
  | _ :: cmd :: rest =>
    simp only [command, cmdMain]
    by_cases hmodule : cmd.bytes = ascii "module"
    · simp only [if_pos hmodule]
      match rest with
      | [] => exact usageExit_stops _
      | c :: args =>
        simp only [moduleCommand, moduleMain]
        by_cases hlist : c.bytes = ascii "list"
        · simp only [if_pos hlist]
          refine ⟨c :: args, rfl, ?_⟩
          rw [List.any_cons, hlist]
          rfl
        simp only [if_neg hlist]
        by_cases hadd : c.bytes = ascii "add"
        · simp only [if_pos hadd]
          cases args with
          | nil => exact usageExit_stops _
          | cons path rest => exact ⟨c, rest, rfl⟩
        simp only [if_neg hadd]
        by_cases hremove : c.bytes = ascii "remove"
        · simp only [if_pos hremove]
          cases args with
          | nil => exact usageExit_stops _
          | cons name rest => exact ⟨c, rest, rfl⟩
        simp only [if_neg hremove]
        exact usageExit_stops _
    · simp only [if_neg hmodule]
      by_cases hshell : cmd.bytes = ascii "shell"
      · simp only [if_pos hshell]
      · simp only [if_neg hshell]
        exact usageExit_stops _

end Commands

/-! ## §2. Sessions. -/

/-- One invocation: the process, but for the files it finds. -/
structure Invocation where
  system : System
  cwd : Nat
  heap : Heap
  argv : List CStr

/-- The process before it has run anything. -/
def Invocation.world (inv : Invocation) (fs : FileSys) : World :=
  { World.start fs inv.cwd with heap := inv.heap }

/-- What became of an invocation that ended. -/
structure Report where
  inv : Invocation
  status : Int

/-- prom, one invocation after the other.  An invocation that does not end is
    not reported. -/
def prom (shellMain : List CStr → Exec World Int) : Machine FileSys Invocation Report where
  step fs inv :=
    match cmdMain inv.system shellMain inv.argv (inv.world fs) with
    | .ok status w => (w.os.fs, [⟨inv, status⟩])
    | .stop (.exit status) w => (w.os.fs, [⟨inv, status⟩])
    | .stop _ w => (w.os.fs, [])

/-- The invocation adds modules, and `n` is a name that one of its modules
    exports. -/
def Invocation.Adds (inv : Invocation) (n : Name) : Prop :=
  (∃ path, command inv.argv = .add path) ∧ ∃ m, Exported inv.system inv.heap m ∧ m.bytes = n

/-- The invocation removes `n`, or cleans. -/
def Invocation.Takes (inv : Invocation) (n : Name) : Prop :=
  (∃ m, command inv.argv = .remove m ∧ m.bytes = n) ∨ command inv.argv = .list true

/-- An invocation of `prom module` as it is meant to be: it does not go wrong,
    and no name in it has a slash. -/
structure Orderly (shellMain : List CStr → Exec World Int) (fs : FileSys) (inv : Invocation) : Prop where
  noShell : command inv.argv ≠ .shell
  returns : command inv.argv ≠ .usage →
    ∃ r w, cmdMain inv.system shellMain inv.argv (inv.world fs) = .ok r w
  self : (inv.system.object inv.system.self).name = none
  exports : Exports inv.system inv.heap
  added : ∀ n, Exported inv.system inv.heap n → PlainName n
  removed : ∀ n, command inv.argv = .remove n → PlainName n

/-! ## §3. The account. -/

/-- Where every entry that came came from, and where every entry that went
    went; `d` is the modules directory. -/
structure Accounted (d : Nat) (fs₀ : FileSys) (past : List Report) (fs : FileSys) : Prop where
  came : ∀ e n x, fs.lookup e n = some x → fs₀.lookup e n = some x ∨
    ∃ r ∈ past, r.status = 0 ∧ r.inv.cwd = e ∧ r.inv.Adds n ∧ x.isLink = true
  went : ∀ e n x, fs₀.lookup e n = some x → fs.lookup e n = some x ∨
    e = d ∧ ∃ r ∈ past, r.status = 0 ∧ r.inv.Takes n
  store : FileSys.IsDirPath (fs.emptied d) 0 globalModulesPath.bytes d

section Account

variable {d : Nat} {fs₀ fs fs' : FileSys} {past : List Report}

/-- The modules path is absolute. -/
theorem store_anywhere {cwd : Nat} (h : FileSys.IsDirPath fs 0 globalModulesPath.bytes d) :
    FileSys.IsDirPath fs cwd globalModulesPath.bytes d := ⟨h.slash_last, h.leads⟩

/-- The modules directory, where nothing but its own entries is different. -/
theorem Accounted.path {cwd : Nat} (h : Accounted d fs₀ past fs) (hsame : FileSys.SameBut d fs fs') :
    FileSys.IsDirPath fs' cwd globalModulesPath.bytes d :=
  store_anywhere (h.store.of_emptied hsame)

/-- A longer history accounts for as much. -/
theorem Accounted.later (h : Accounted d fs₀ past fs) (more : List Report) :
    Accounted d fs₀ (past ++ more) fs := by
  refine ⟨fun e n x hx => (h.came e n x hx).imp_right ?_, fun e n x hx => (h.went e n x hx).imp_right ?_,
    h.store⟩
  · rintro ⟨r, hr, hrest⟩
    exact ⟨r, List.mem_append_left _ hr, hrest⟩
  · rintro ⟨he, r, hr, hrest⟩
    exact ⟨he, r, List.mem_append_left _ hr, hrest⟩

/-- A link that an `add` has made. -/
theorem Accounted.added (h : Accounted d fs₀ past fs) {inv : Invocation} {n q : CStr}
    (hadds : inv.Adds n.bytes) (hins : fs.insert inv.cwd n.bytes (.symlink q) = .ok fs') :
    Accounted d fs₀ (past ++ [⟨inv, 0⟩]) fs' := by
  have hlater := h.later [⟨inv, 0⟩]
  refine ⟨fun e m x hx => ?_, fun e m x hx => ?_, h.store.extends (FileSys.insert_emptied hins)⟩
  · rw [FileSys.lookup_insert hins] at hx
    split at hx
    · rename_i hnew
      obtain ⟨rfl, rfl⟩ := hnew
      cases hx
      exact .inr ⟨_, List.mem_append_right _ List.mem_cons_self, rfl, rfl, hadds, rfl⟩
    · exact hlater.came e m x hx
  · exact (hlater.went e m x hx).imp_left fun hold => (FileSys.insert_extends hins).lookup e m x hold

/-- Entries that a `remove` or a cleaning has taken out. -/
theorem Accounted.taken (h : Accounted d fs₀ past fs) {inv : Invocation} (hshrunk : Shrunk d fs fs')
    (htakes : ∀ n, fs'.lookup d n ≠ fs.lookup d n → inv.Takes n) :
    Accounted d fs₀ (past ++ [⟨inv, 0⟩]) fs' := by
  have hlater := h.later [⟨inv, 0⟩]
  refine ⟨fun e m x hx => hlater.came e m x ?_, fun e m x hx => ?_, h.store.extends hshrunk.same.emptied⟩
  · by_cases he : e = d
    · subst he
      exact hshrunk.sub m x hx
    · rwa [hshrunk.same.lookup he] at hx
  · rcases hlater.went e m x hx with hold | hgone
    · by_cases he : e = d
      · subst he
        by_cases hsame : fs'.lookup e m = fs.lookup e m
        · exact .inl (hsame.trans hold)
        · exact .inr ⟨rfl, _, List.mem_append_right _ List.mem_cons_self, rfl, htakes m hsame⟩
      · rw [hshrunk.same.lookup he]
        exact .inl hold
    · exact .inr hgone

variable {shellMain : List CStr → Exec World Int} {inv : Invocation}

/-- **One invocation keeps the account.** -/
theorem step_accounted (h : Accounted d fs₀ past fs) (ho : Orderly shellMain fs inv) :
    Accounted d fs₀ (past ++ ((prom shellMain).step fs inv).2) ((prom shellMain).step fs inv).1 := by
  have hcases := cmdMain_cases inv.system shellMain inv.argv
  have hrest : Rests 0 (inv.world fs).thread (inv.world fs).thread := rests_start fs inv.cwd
  have hroom : (0 : Nat) + 3 < STACK_SIZE := by decide
  -- a command that is not the usage returns
  have hreturned : ∀ {Q : Int → World → Prop}, command inv.argv ≠ .usage →
      Returns (cmdMain inv.system shellMain inv.argv) (inv.world fs) Q →
      ∃ r w, (prom shellMain).step fs inv = (w.os.fs, [⟨inv, r⟩]) ∧ Q r w := by
    intro Q hne hQ
    obtain ⟨r, w, hrun⟩ := ho.returns hne
    refine ⟨r, w, ?_, hQ r w hrun⟩
    simp only [prom, hrun]
  cases hcommand : command inv.argv with
  | shell => exact absurd hcommand ho.noShell
  | usage =>
    rw [hcommand] at hcases
    obtain ⟨w', hrun, hsame⟩ := hcases (inv.world fs)
    have hstep : (prom shellMain).step fs inv = (fs, [⟨inv, 1⟩]) := by
      simp only [prom, hrun, hsame.1]
      rfl
    rw [hstep]
    exact h.later _
  | add path =>
    rw [hcommand] at hcases
    obtain ⟨c, rest, hmain⟩ := hcases
    obtain ⟨r, w, hstep, hlink | ⟨-, hsame⟩⟩ := hreturned (by rw [hcommand]; rintro ⟨⟩) (by
      rw [hmain]
      exact cmdArgAdd_links (i := ⟨0, by decide⟩) (by decide) hrest ho.self ho.exports)
    · obtain ⟨rfl, q, n, hexported, hlink⟩ := hlink
      obtain ⟨hne, hslash⟩ := ho.added n hexported
      rw [hstep]
      exact h.added ⟨⟨path, hcommand⟩, n, hexported, rfl⟩ (FileSys.symlink_name_ok hslash hne hlink)
    · rw [hstep, hsame]
      exact h.later _
  | remove name =>
    rw [hcommand] at hcases
    obtain ⟨c, rest, hmain⟩ := hcases
    obtain ⟨r, w, hstep, ⟨rfl, n, hn, hremove⟩ | ⟨-, hsame⟩⟩ := hreturned (by rw [hcommand]; rintro ⟨⟩) (by
      rw [hmain]
      exact cmdArgRemove_removes)
    · cases hn
      obtain ⟨hne, hslash⟩ := ho.removed name hcommand
      obtain ⟨-, heq⟩ := FileSys.remove_append_ok (h.path (FileSys.SameBut.refl d fs)) hslash hne hremove
      rw [hstep, heq]
      refine h.taken ((Shrunk.refl d fs).erase name.bytes) fun m hm => .inl ⟨name, hcommand, ?_⟩
      by_contra hother
      exact hm ((FileSys.lookup_erase fs d name.bytes d m).trans (if_neg fun hsame => hother hsame.2.symm))
    · rw [hstep, hsame]
      exact h.later _
  | list clean =>
    rw [hcommand] at hcases
    obtain ⟨args, hmain, hclean⟩ := hcases
    obtain ⟨r, w, hstep, ⟨rfl, hany, hshrunk⟩ | hsame⟩ := hreturned (by rw [hcommand]; rintro ⟨⟩) (by
      rw [hmain]
      exact cmdArgList_cleans (i := ⟨0, by decide⟩) (d := d) hroom hrest ho.self
        fun fs' hfs' => h.path hfs'.same)
    · rw [hstep]
      refine h.taken hshrunk fun m _ => .inr ?_
      rw [hcommand, ← hclean, hany]
    · rw [hstep, hsame]
      exact h.later _

/-- **A SESSION IS ACCOUNTED FOR.**  For every file system whose modules
directory is reached without its own entries, and every sequence of invocations
of `prom module` that do not go wrong — any directories they run in, any
modules, any refusals of the system and of `malloc` — every entry that is new
is a link that an `add` which returned 0 has made in the directory it ran in,
under a name that one of its modules exports; and every entry that is gone was
one of the modules directory, taken by a `remove` of it or by a cleaning, which
returned 0.  Whatever is added from elsewhere, the modules directory only
shrinks. -/
theorem session_accounted (shellMain : List CStr → Exec World Int) (fs : FileSys) (d : Nat)
    (hstore : FileSys.IsDirPath (fs.emptied d) 0 globalModulesPath.bytes d) (session : List Invocation)
    (horderly : (prom shellMain).Along (Orderly shellMain) fs session) :
    (∀ e n x, ((prom shellMain).after fs session).lookup e n = some x → fs.lookup e n = some x ∨
      ∃ r ∈ (prom shellMain).out fs session, r.status = 0 ∧ r.inv.cwd = e ∧ r.inv.Adds n ∧
        x.isLink = true) ∧
    (∀ e n x, fs.lookup e n = some x → ((prom shellMain).after fs session).lookup e n = some x ∨
      e = d ∧ ∃ r ∈ (prom shellMain).out fs session, r.status = 0 ∧ r.inv.Takes n) ∧
    ((∀ r ∈ (prom shellMain).out fs session, r.inv.cwd ≠ d) → ∀ n x,
      ((prom shellMain).after fs session).lookup d n = some x → fs.lookup d n = some x) := by
  have hstart : Accounted d fs [] fs := ⟨fun _ _ _ h => .inl h, fun _ _ _ h => .inl h, hstore⟩
  have hend := Machine.history (Accounted d fs) (fun past fs inv h ho => step_accounted h ho) hstart horderly
  rw [List.nil_append] at hend
  refine ⟨hend.came, hend.went, fun helsewhere n x hx => ?_⟩
  exact (hend.came d n x hx).resolve_right fun ⟨r, hr, _, hcwd, _⟩ => helsewhere r hr hcwd

end Account

/-! ### A module added from the root, and removed from the store. -/

/-- `prom module add /p` -/
def addLine : List CStr := [tPath, commandName, ⟨ascii "add", by decide⟩, pPath]

/-- `prom module remove x` -/
def removeLine : List CStr := [tPath, commandName, ⟨ascii "remove", by decide⟩, xName]

/-- Run in the root directory; `/p` is a module that calls itself `x`. -/
def pInvocation (argv : List CStr) : Invocation :=
  ⟨prudentSystem, 0, (homeWorld 0).heap, argv⟩

theorem pInvocation_exported {argv : List CStr} {n : CStr}
    (h : Exported (pInvocation argv).system (pInvocation argv).heap n) : n = xName := by
  obtain ⟨o, p, hname, hload⟩ := h
  by_cases ho : o = 0
  · subst ho
    cases hname
    cases hload
    rfl
  · rw [show (pInvocation argv).system.object o = ⟨none, none, none⟩ from if_neg ho] at hname
    cases hname

theorem pInvocation_exports (argv : List CStr) : Exports (pInvocation argv).system (pInvocation argv).heap := by
  intro o p hp
  by_cases ho : o = 0
  · subst ho
    rcases hp with hp | hp
    · cases hp
      exact ⟨xName, rfl⟩
    · cases hp
      exact ⟨xName, rfl⟩
  · rw [show (pInvocation argv).system.object o = ⟨none, none, none⟩ from if_neg ho] at hp
    rcases hp with hp | hp <;> cases hp

/-- Such an invocation is in order when it returns. -/
theorem pInvocation_orderly {shellMain : List CStr → Exec World Int} {fs : FileSys} {argv : List CStr}
    (hshell : command argv ≠ .shell) (hremoved : ∀ n, command argv = .remove n → PlainName n)
    (hreturns : ∃ r w, cmdMain prudentSystem shellMain argv ((pInvocation argv).world fs) = .ok r w) :
    Orderly shellMain fs (pInvocation argv) where
  noShell := hshell
  returns _ := hreturns
  self := rfl
  exports := pInvocation_exports argv
  added n hn := by
    rw [pInvocation_exported hn]
    exact ⟨by decide, by decide⟩
  removed := hremoved

theorem addLine_orderly (shellMain : List CStr → Exec World Int) :
    Orderly shellMain homeModules (pInvocation addLine) := by
  have hcommand : command addLine = .add pPath := by decide
  have hcases := cmdMain_cases prudentSystem shellMain addLine
  rw [hcommand] at hcases
  obtain ⟨c, rest, hmain⟩ := hcases
  refine pInvocation_orderly (by rw [hcommand]; rintro ⟨⟩) (by rw [hcommand]; rintro _ ⟨⟩) ?_
  rw [hmain]
  obtain ⟨r, w, hrun, -⟩ := cmdArgAdd_yields (P := prudentSystem) (w := homeWorld 0) (i := ⟨0, by decide⟩)
    c rest (by decide) (rests_start homeModules 0) (generous_start homeModules 0) (p := pPath) rfl
    (l := ⟨0, ⟨.static 1, 0⟩, ⟨.static 1, 0⟩, ⟨fun _ c => c, fresh 32, length_fresh 32⟩⟩) rfl
    (n := xName) rfl
  exact ⟨r, w, hrun⟩

theorem removeLine_orderly (shellMain : List CStr → Exec World Int) (fs : FileSys) :
    Orderly shellMain fs (pInvocation removeLine) := by
  have hcommand : command removeLine = .remove xName := by decide
  have hcases := cmdMain_cases prudentSystem shellMain removeLine
  rw [hcommand] at hcases
  obtain ⟨c, rest, hmain⟩ := hcases
  refine pInvocation_orderly (by rw [hcommand]; rintro ⟨⟩) (fun n hn => ?_) ?_
  · cases hcommand.symm.trans hn
    exact ⟨by decide, by decide⟩
  · rw [hmain]
    obtain ⟨r, w, hrun, -⟩ := cmdArgRemove_yields (P := prudentSystem)
      (w := (pInvocation removeLine).world fs) rfl c xName rest
    exact ⟨r, w, hrun⟩

/-- The session, with a shell that does nothing: what has come and what has gone. -/
theorem addThenRemove_accounted :
    (∀ e n x, ((prom fun _ => pure 0).after homeModules [pInvocation addLine, pInvocation removeLine]).lookup
        e n = some x → homeModules.lookup e n = some x ∨
      ∃ r ∈ (prom fun _ => pure 0).out homeModules [pInvocation addLine, pInvocation removeLine],
        r.status = 0 ∧ r.inv.cwd = e ∧ r.inv.Adds n ∧ x.isLink = true) ∧
    (∀ e n x, homeModules.lookup e n = some x →
      ((prom fun _ => pure 0).after homeModules [pInvocation addLine, pInvocation removeLine]).lookup e n =
        some x ∨
      e = 4 ∧ ∃ r ∈ (prom fun _ => pure 0).out homeModules [pInvocation addLine, pInvocation removeLine],
        r.status = 0 ∧ r.inv.Takes n) := by
  obtain ⟨hcame, hwent, -⟩ := session_accounted (fun _ => pure 0) homeModules 4 ⟨by rfl, by rfl⟩
    [pInvocation addLine, pInvocation removeLine]
    ⟨addLine_orderly _, removeLine_orderly _ _, trivial⟩
  exact ⟨hcame, hwent⟩

end Prom.Modules
