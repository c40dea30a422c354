/-
  Prom.Tracer.OpenPolicy — which opens the file callbacks get to see.

  `handle_syscalls` reads the number of the syscall, then runs the syscall
  callback, then consults the file callbacks on the registers the callback
  left, and writes these registers back.  The guard of the open check looks at
  the number read at the beginning.

  Main results:
    * `openat_verdict` — with no syscall callback: which file callbacks an
      `openat` entry calls, on which path, and what is written back.
    * `openat_vetted_iff` — with any syscall callback: when every `openat`
      handed to the kernel has been vetted.
-/
import Prom.Tracer.Handlers
import Prom.Tracer.ReadTrace

namespace Prom.Tracer

/-! ## §1. The file callbacks an open selects. -/

/-- A file callback with its action, if it is installed and selected. -/
def offered (cb : Option (Path → Int)) (act : Path → Action) (selected : Bool) :
    List ((Path → Int) × (Path → Action)) :=
  if selected then cb.toList.map fun f => (f, act) else []

/-- The installed file callbacks that the flags select. -/
def selectedCallbacks (cbs : TracerCallbacks) (regs : UserRegs) :
    List ((Path → Int) × (Path → Action)) :=
  offered cbs.file_read .fileRead (wantsRead regs) ++
    offered cbs.file_write .fileWrite (wantsWrite regs)

/-- Some file callback that the flags select denies the path. -/
def Denies (cbs : TracerCallbacks) (regs : UserRegs) (path : Path) : Prop :=
  ∃ c ∈ selectedCallbacks cbs regs, c.1 path = -1

section Selected

variable {cbs : TracerCallbacks} {k : Kernel} {regs : UserRegs} {val : List Byte} {live : Nat}
variable {c : (Path → Int) × (Path → Action)}

theorem wantsRead_iff : wantsRead regs = true ↔ accFlag regs = O_RDONLY ∨ accFlag regs = O_RDWR := by
  rw [wantsRead, Bool.or_eq_true, beq_iff_eq, beq_iff_eq]

theorem wantsWrite_iff :
    wantsWrite regs = true ↔ accFlag regs = O_WRONLY ∨ accFlag regs = O_RDWR := by
  rw [wantsWrite, Bool.or_eq_true, beq_iff_eq, beq_iff_eq]

theorem mem_offered {cb : Option (Path → Int)} {act : Path → Action} {selected : Bool} :
    c ∈ offered cb act selected ↔ selected = true ∧ ∃ f, cb = some f ∧ c = (f, act) := by
  cases selected with
  | false => exact ⟨fun h => absurd h List.not_mem_nil, fun h => absurd h.1 Bool.false_ne_true⟩
  | true =>
    simp only [offered, if_true, List.mem_map, Option.mem_toList, true_and, eq_comm]

/-- One of the two callback blocks. -/
theorem consult_eq (cb : Option (Path → Int)) (act : Path → Action) (selected : Bool)
    (path : Path) :
    (consult cb act selected path).1 = (offered cb act selected).map (fun c => c.2 path) ∧
      ((consult cb act selected path).2 = true ↔ ∃ c ∈ offered cb act selected, c.1 path = -1) := by
  cases cb with
  | none => cases selected <;> exact ⟨rfl, fun h => (by cases h), fun ⟨_, h, _⟩ => (by cases h)⟩
  | some f =>
    cases selected with
    | false => exact ⟨rfl, fun h => (by cases h), fun ⟨_, h, _⟩ => (by cases h)⟩
    | true =>
      refine ⟨rfl, fun h => ⟨_, List.mem_singleton.mpr rfl, beq_iff_eq.mp h⟩, ?_⟩
      rintro ⟨c, hc, hdeny⟩
      cases List.mem_singleton.mp hc
      exact beq_iff_eq.mpr hdeny

/-- The action of a file callback names the path it is called with. -/
theorem selected_action (hc : c ∈ selectedCallbacks cbs regs) :
    c.2 = Action.fileRead ∨ c.2 = Action.fileWrite := by
  rcases List.mem_append.mp hc with hc | hc
  · obtain ⟨-, f, -, rfl⟩ := mem_offered.mp hc
    exact .inl rfl
  · obtain ⟨-, f, -, rfl⟩ := mem_offered.mp hc
    exact .inr rfl

theorem selected_action_inj {c' : (Path → Int) × (Path → Action)} {p p' : Path}
    (hc : c ∈ selectedCallbacks cbs regs) (hc' : c' ∈ selectedCallbacks cbs regs)
    (h : c.2 p = c'.2 p') : p = p' := by
  rcases selected_action hc with hr | hw <;> rcases selected_action hc' with hr' | hw'
  · rw [hr, hr'] at h
    exact Action.fileRead.inj h
  · rw [hr, hw'] at h
    cases h
  · rw [hw, hr'] at h
    cases h
  · rw [hw, hw'] at h
    exact Action.fileWrite.inj h

/-- **The open check**: every selected callback is called once, also behind one
that denies. -/
theorem syscallOpenat_eq (hread : readString k regs.rsi = .str val live) :
    (syscallOpenat cbs k regs).1 =
        .openCheck :: (selectedCallbacks cbs regs).map (fun c => c.2 (cString val)) ∧
      ((syscallOpenat cbs k regs).2 = -1 ↔ Denies cbs regs (cString val)) := by
  obtain ⟨hreads, hr⟩ := consult_eq cbs.file_read .fileRead (wantsRead regs) (cString val)
  obtain ⟨hwrites, hw⟩ := consult_eq cbs.file_write .fileWrite (wantsWrite regs) (cString val)
  have hdeny : Denies cbs regs (cString val) ↔
      (∃ c ∈ offered cbs.file_read .fileRead (wantsRead regs), c.1 (cString val) = -1) ∨
        ∃ c ∈ offered cbs.file_write .fileWrite (wantsWrite regs), c.1 (cString val) = -1 := by
    simp only [Denies, selectedCallbacks, List.mem_append, or_and_right, exists_or]
  rw [hdeny, ← hr, ← hw, selectedCallbacks, List.map_append, ← hreads, ← hwrites]
  simp only [syscallOpenat, hread, true_and]
  rw [← Bool.or_eq_true]
  split
  · rename_i hor
    exact ⟨fun _ => hor, fun _ => rfl⟩
  · rename_i hor
    exact ⟨fun h => absurd h (by decide), fun h => absurd h hor⟩

end Selected

/-! ## §2. The log of a call. -/

/-- The registers the syscall callback leaves; it is called when the stop is
taken for an entry. -/
def regsAfterCb (cbs : TracerCallbacks) (last : Word) (regs : UserRegs) : UserRegs :=
  match cbs.syscall with
  | some f => if last ≠ regs.orig_rax ∧ regs.orig_rax ≠ -1 then f regs else regs
  | none => regs

/-- Whether an action calls `file_read`. -/
def Action.isFileRead : Action → Bool
  | .fileRead _ => true
  | _ => false

/-- Whether an action calls `file_write`. -/
def Action.isFileWrite : Action → Bool
  | .fileWrite _ => true
  | _ => false

/-- Whether an action writes registers back. -/
def Action.isSetregs : Action → Bool
  | .setregs _ => true
  | _ => false

section Log

variable {cbs : TracerCallbacks} {k : Kernel} {last : Word} {regs : UserRegs}

theorem toggle_ne_neg_one {n : Word} : toggle last n ≠ -1 ↔ last ≠ n ∧ n ≠ -1 := by
  unfold toggle
  by_cases h : last = n
  · rw [if_pos h]
    exact ⟨fun hno => absurd rfl hno, fun hno => absurd h hno.1⟩
  · rw [if_neg h]
    exact ⟨fun hn => ⟨h, hn⟩, fun hn => hn.2⟩

theorem runSyscallCb_regs : (runSyscallCb cbs (toggle last regs.orig_rax) regs).2 =
    regsAfterCb cbs last regs := by
  unfold runSyscallCb regsAfterCb
  cases cbs.syscall with
  | none => rfl
  | some f =>
    simp only [toggle_ne_neg_one]
    split <;> rfl

/-- The syscall callback calls no file callback and writes nothing back. -/
theorem runSyscallCb_log {a : Action} (ha : a ∈ (runSyscallCb cbs last regs).1) :
    a = .syscallCb regs := by
  unfold runSyscallCb at ha
  split at ha
  · split at ha
    · exact List.mem_singleton.mp ha
    · cases ha
  · cases ha

/-- A call whose open check does not run. -/
theorem handleSyscalls_pass (hget : k.getregs = .ok regs) (hset : k.setregsOk = true)
    (hno : ¬ (regs.orig_rax = SYS_openat ∧ last ≠ SYS_openat)) :
    (handleSyscalls cbs k last).log =
      (runSyscallCb cbs (toggle last regs.orig_rax) regs).1 ++
        [.setregs (regsAfterCb cbs last regs), .resume 0] := by
  have hguard := openGuard_iff last regs.orig_rax
  rw [← runSyscallCb_regs]
  simp only [handleSyscalls, hget, hset, runOpenCheck, hguard, if_neg hno, if_true,
    List.append_nil]
  rfl

/-- A call whose open check runs. -/
theorem handleSyscalls_checked (hget : k.getregs = .ok regs) (hset : k.setregsOk = true)
    (hcheck : regs.orig_rax = SYS_openat ∧ last ≠ SYS_openat) :
    (handleSyscalls cbs k last).log =
      (runSyscallCb cbs (toggle last regs.orig_rax) regs).1 ++
        (syscallOpenat cbs k (regsAfterCb cbs last regs)).1 ++
        [.setregs (denyRegs (syscallOpenat cbs k (regsAfterCb cbs last regs)).2
          (regsAfterCb cbs last regs)), .resume 0] := by
  have hguard := openGuard_iff last regs.orig_rax
  rw [← runSyscallCb_regs]
  simp only [handleSyscalls, hget, hset, runOpenCheck, hguard, if_pos hcheck, if_true]

end Log

/-! ## §3. The verdict, with no syscall callback. -/

/-- What the kernel does with a syscall, by the registers left at its entry: it
skips a syscall whose `orig_rax` is -1, and keeps `rax`. -/
inductive Entered where
  | skipped (rax : Word)
  | executed (regs : UserRegs)
  deriving Repr, DecidableEq

def enterSyscall (regs : UserRegs) : Entered :=
  if regs.orig_rax = -1 then .skipped regs.rax else .executed regs

theorem filter_offered (cb : Option (Path → Int)) (act : Path → Action) (selected : Bool)
    (path : Path) (p : Action → Bool) :
    ((offered cb act selected).map fun c => c.2 path).filter p =
      if (cb.isSome = true ∧ selected = true) ∧ p (act path) = true then [act path] else [] := by
  cases cb with
  | none => cases selected <;> rfl
  | some f =>
    cases selected with
    | false => rfl
    | true =>
      show [act path].filter p = _
      cases hp : p (act path) with
      | true =>
        rw [List.filter_cons_of_pos hp, if_pos ⟨⟨rfl, rfl⟩, rfl⟩]
        rfl
      | false =>
        rw [List.filter_cons_of_neg (by rw [hp]; exact Bool.false_ne_true),
          if_neg fun h => Bool.false_ne_true h.2]
        rfl

/-- **The verdict and the frame of an `openat` entry.** -/
theorem openat_verdict (cbs : TracerCallbacks) (k : Kernel) (last : Word) (regs : UserRegs)
    (hcb : cbs.syscall = none) (hget : k.getregs = .ok regs) (hset : k.setregsOk = true)
    (hresume : k.resumeOk = true) (hnum : regs.orig_rax = SYS_openat) (hlast : last ≠ SYS_openat)
    (hreq : (readEvents k regs.rsi).any ReadEvent.isRefused = false) :
    ∃ val, readString k regs.rsi = .str val 1 ∧
      (handleSyscalls cbs k last).log.filter Action.isFileRead =
        (if cbs.file_read.isSome = true ∧ (accFlag regs = O_RDONLY ∨ accFlag regs = O_RDWR)
          then [.fileRead (cString val)] else []) ∧
      (handleSyscalls cbs k last).log.filter Action.isFileWrite =
        (if cbs.file_write.isSome = true ∧ (accFlag regs = O_WRONLY ∨ accFlag regs = O_RDWR)
          then [.fileWrite (cString val)] else []) ∧
      (handleSyscalls cbs k last).ret = 0 ∧
      ∃ written,
        (handleSyscalls cbs k last).log.filter Action.isSetregs = [.setregs written] ∧
        (Denies cbs regs (cString val) →
          written = { regs with orig_rax := negEPERM, rax := negEPERM } ∧
            enterSyscall written = .skipped negEPERM) ∧
        (¬ Denies cbs regs (cString val) →
          written = regs ∧ enterSyscall written = .executed regs) := by
  obtain ⟨val, hread, -⟩ := readString_str hreq
  have hopenat : (syscallOpenat cbs k regs).1 = _ ∧ _ := syscallOpenat_eq hread
  obtain ⟨hcalls, hdeny⟩ := hopenat
  -- without a syscall callback the registers are those that were read
  have hnocb : regsAfterCb cbs last regs = regs := by
    rw [regsAfterCb, hcb]
  have hlog : (handleSyscalls cbs k last).log =
      .openCheck :: (((offered cbs.file_read .fileRead (wantsRead regs)).map
          fun c => c.2 (cString val)) ++
        ((offered cbs.file_write .fileWrite (wantsWrite regs)).map fun c => c.2 (cString val)) ++
        [.setregs (denyRegs (syscallOpenat cbs k regs).2 regs), .resume 0]) := by
    rw [handleSyscalls_checked hget hset ⟨hnum, hlast⟩, hnocb, hcalls, runSyscallCb, hcb,
      selectedCallbacks, List.map_append]
    rfl
  refine ⟨val, hread, ?_, ?_, ?_, denyRegs (syscallOpenat cbs k regs).2 regs, ?_, ?_, ?_⟩
  · rw [hlog]
    simp [filter_offered, Action.isFileRead, wantsRead_iff]
  · rw [hlog]
    simp [filter_offered, Action.isFileWrite, wantsWrite_iff]
  · simp only [handleSyscalls, hget, hset, if_true, Kernel.resumeRet, hresume]
  · rw [hlog]
    simp [filter_offered, Action.isSetregs, List.filter_cons]
  · intro hd
    rw [denyRegs, if_pos (hdeny.mpr hd)]
    exact ⟨rfl, rfl⟩
  · intro hd
    rw [denyRegs, if_neg fun h => hd (hdeny.mp h), enterSyscall, hnum, if_neg SYS_openat_ne]
    exact ⟨rfl, rfl⟩

/-- An open for reading of the path at the end of a page. -/
def openRegs : UserRegs := { orig_rax := SYS_openat, rsi := 4087 }

/-- A policy that lets nothing be read. -/
def denyReads : TracerCallbacks := { file_read := some fun _ => -1 }

theorem openat_verdict_denied :
    ∃ written,
      (handleSyscalls denyReads { pageWords with getregs := .ok openRegs } (-1)).log.filter
          Action.isSetregs = [.setregs written] ∧
        enterSyscall written = .skipped negEPERM := by
  obtain ⟨val, -, -, -, -, written, hset, hdenied, -⟩ :=
    openat_verdict denyReads { pageWords with getregs := .ok openRegs } (-1) openRegs rfl rfl rfl
      rfl rfl (by decide) (by rfl)
  exact ⟨written, hset, (hdenied ⟨_, List.mem_singleton.mpr rfl, rfl⟩).2⟩

/-! ## §4. Every open vetted. -/

/-- The callbacks that the flags in `regs` select were consulted on the path
`rsi` points at, and none denied it. -/
def Vetted (cbs : TracerCallbacks) (k : Kernel) (log : List Action) (regs : UserRegs) : Prop :=
  ∀ c ∈ selectedCallbacks cbs regs, ∃ path, c.2 path ∈ log ∧ c.1 path ≠ -1 ∧
    ∀ s, StringAt k.mem regs.rsi s → path = s

/-- What is asked of a call: an `openat` that goes to the kernel was vetted, and
nothing else is taken for one. -/
structure OpensVetted (cbs : TracerCallbacks) (k : Kernel) (last : Word) (regs : UserRegs) :
    Prop where
  vetted : ∀ written, .setregs written ∈ (handleSyscalls cbs k last).log →
    written.orig_rax = SYS_openat → Vetted cbs k (handleSyscalls cbs k last).log written
  spared : (regsAfterCb cbs last regs).orig_rax ≠ SYS_openat →
    (∀ path, .fileRead path ∉ (handleSyscalls cbs k last).log ∧
      .fileWrite path ∉ (handleSyscalls cbs k last).log) ∧
    ∀ written, .setregs written ∈ (handleSyscalls cbs k last).log →
      written = regsAfterCb cbs last regs

section Vetting

variable {cbs : TracerCallbacks} {k : Kernel} {last : Word} {regs : UserRegs} {a : Action}

/-- The actions of a call whose open check does not run. -/
theorem mem_pass (hget : k.getregs = .ok regs) (hset : k.setregsOk = true)
    (hno : ¬ (regs.orig_rax = SYS_openat ∧ last ≠ SYS_openat)) :
    a ∈ (handleSyscalls cbs k last).log ↔
      a ∈ (runSyscallCb cbs (toggle last regs.orig_rax) regs).1 ∨
        a = .setregs (regsAfterCb cbs last regs) ∨ a = .resume 0 := by
  rw [handleSyscalls_pass hget hset hno]
  simp only [List.mem_append, List.mem_cons, List.not_mem_nil, or_false]

/-- The actions of a call whose open check reads the string `val`. -/
theorem mem_checked {val : List Byte} {live : Nat} (hget : k.getregs = .ok regs)
    (hset : k.setregsOk = true) (hcheck : regs.orig_rax = SYS_openat ∧ last ≠ SYS_openat)
    (hread : readString k (regsAfterCb cbs last regs).rsi = .str val live) :
    a ∈ (handleSyscalls cbs k last).log ↔
      a ∈ (runSyscallCb cbs (toggle last regs.orig_rax) regs).1 ∨ a = .openCheck ∨
        (∃ c ∈ selectedCallbacks cbs (regsAfterCb cbs last regs), a = c.2 (cString val)) ∨
        a = .setregs (denyRegs (syscallOpenat cbs k (regsAfterCb cbs last regs)).2
          (regsAfterCb cbs last regs)) ∨ a = .resume 0 := by
  rw [handleSyscalls_checked hget hset hcheck, (syscallOpenat_eq hread).1]
  simp only [List.mem_append, List.mem_cons, List.mem_map, List.not_mem_nil, or_false, or_assoc,
    eq_comm]

/-- The one action that writes registers back, of a call that does not check. -/
theorem setregs_pass (hget : k.getregs = .ok regs) (hset : k.setregsOk = true)
    (hno : ¬ (regs.orig_rax = SYS_openat ∧ last ≠ SYS_openat)) {written : UserRegs} :
    .setregs written ∈ (handleSyscalls cbs k last).log ↔ written = regsAfterCb cbs last regs := by
  rw [mem_pass hget hset hno]
  constructor
  · rintro (h | h | h)
    · cases runSyscallCb_log h
    · exact Action.setregs.inj h
    · cases h
  · rintro rfl
    exact .inr (.inl rfl)

/-- No file callback is called then. -/
theorem not_mem_pass (hget : k.getregs = .ok regs) (hset : k.setregsOk = true)
    (hno : ¬ (regs.orig_rax = SYS_openat ∧ last ≠ SYS_openat)) (path : Path)
    (ha : a = .fileRead path ∨ a = .fileWrite path) : a ∉ (handleSyscalls cbs k last).log := by
  rw [mem_pass hget hset hno]
  rintro (h | rfl | rfl)
  · rw [runSyscallCb_log h] at ha
    rcases ha with ha | ha <;> cases ha
  · rcases ha with ha | ha <;> cases ha
  · rcases ha with ha | ha <;> cases ha

/-- A call that does not check is right about a syscall that is no `openat`. -/
theorem opensVetted_pass (hget : k.getregs = .ok regs) (hset : k.setregsOk = true)
    (hno : ¬ (regs.orig_rax = SYS_openat ∧ last ≠ SYS_openat)) :
    OpensVetted cbs k last regs ↔
      selectedCallbacks cbs (regsAfterCb cbs last regs) = [] ∨
        (regsAfterCb cbs last regs).orig_rax ≠ SYS_openat := by
  constructor
  · intro h
    by_contra hcon
    obtain ⟨hsel, hopen⟩ := not_or.mp hcon
    obtain ⟨c, hc⟩ := List.exists_mem_of_ne_nil _ hsel
    -- the callback was to be consulted, and was not
    obtain ⟨path, hmem, -⟩ := h.vetted _ ((setregs_pass hget hset hno).mpr rfl)
      (not_not.mp hopen) c hc
    refine not_mem_pass hget hset hno path ?_ hmem
    rcases selected_action hc with hact | hact
    · exact .inl (congrFun hact path)
    · exact .inr (congrFun hact path)
  · intro h
    refine ⟨fun written hw hopen c hc => ?_, fun _ => ⟨fun path => ⟨?_, ?_⟩, fun written hw => ?_⟩⟩
    · cases (setregs_pass hget hset hno).mp hw
      rcases h with hnil | hother
      · rw [hnil] at hc
        cases hc
      · exact absurd hopen hother
    · exact not_mem_pass hget hset hno path (.inl rfl)
    · exact not_mem_pass hget hset hno path (.inr rfl)
    · exact (setregs_pass hget hset hno).mp hw

section Checked

variable {val : List Byte} {live : Nat}
variable (hget : k.getregs = .ok regs) (hset : k.setregsOk = true)
variable (hcheck : regs.orig_rax = SYS_openat ∧ last ≠ SYS_openat)
variable (hread : readString k (regsAfterCb cbs last regs).rsi = .str val live)
include hget hset hcheck hread

/-- The one action that writes registers back, of a call that checks. -/
theorem setregs_checked {written : UserRegs} :
    .setregs written ∈ (handleSyscalls cbs k last).log ↔
      written = denyRegs (syscallOpenat cbs k (regsAfterCb cbs last regs)).2
        (regsAfterCb cbs last regs) := by
  rw [mem_checked hget hset hcheck hread]
  constructor
  · rintro (h | h | ⟨c, hc, h⟩ | h | h)
    · cases runSyscallCb_log h
    · cases h
    · rcases selected_action hc with hact | hact
      · rw [hact] at h
        cases h
      · rw [hact] at h
        cases h
    · exact Action.setregs.inj h
    · cases h
  · rintro rfl
    exact .inr (.inr (.inr (.inl rfl)))

/-- A file callback that is called is a selected one, on the string read. -/
theorem file_call {path : Path} (ha : a = .fileRead path ∨ a = .fileWrite path)
    (hmem : a ∈ (handleSyscalls cbs k last).log) :
    ∃ c ∈ selectedCallbacks cbs (regsAfterCb cbs last regs), a = c.2 (cString val) := by
  rcases (mem_checked hget hset hcheck hread).mp hmem with h | rfl | hc | rfl | rfl
  · rw [runSyscallCb_log h] at ha
    rcases ha with ha | ha <;> cases ha
  · rcases ha with ha | ha <;> cases ha
  · exact hc
  · rcases ha with ha | ha <;> cases ha
  · rcases ha with ha | ha <;> cases ha

theorem called_path {c : (Path → Int) × (Path → Action)} {path : Path}
    (hc : c ∈ selectedCallbacks cbs (regsAfterCb cbs last regs))
    (hmem : c.2 path ∈ (handleSyscalls cbs k last).log) : path = cString val := by
  have hfile : c.2 path = .fileRead path ∨ c.2 path = .fileWrite path :=
    (selected_action hc).imp (congrFun · path) (congrFun · path)
  obtain ⟨c', hc', heq⟩ := file_call hget hset hcheck hread hfile hmem
  exact selected_action_inj hc hc' heq

/-- A call that checks, all that is asked of it being about an `openat`. -/
theorem opensVetted_openat (hopen : (regsAfterCb cbs last regs).orig_rax = SYS_openat) :
    OpensVetted cbs k last regs ↔
      Denies cbs (regsAfterCb cbs last regs) (cString val) ∨
        (selectedCallbacks cbs (regsAfterCb cbs last regs) = [] ∨
          ∀ s, StringAt k.mem (regsAfterCb cbs last regs).rsi s → cString val = s) := by
  have hdeny : (syscallOpenat cbs k (regsAfterCb cbs last regs)).2 = -1 ↔ _ :=
    (syscallOpenat_eq hread).2
  have hwrites : ∀ {written : UserRegs}, .setregs written ∈ (handleSyscalls cbs k last).log ↔ _ :=
    setregs_checked hget hset hcheck hread
  constructor
  · intro h
    by_contra hcon
    obtain ⟨hgranted, hcon⟩ := not_or.mp hcon
    obtain ⟨hsel, hpath⟩ := not_or.mp hcon
    obtain ⟨c, hc⟩ := List.exists_mem_of_ne_nil _ hsel
    -- allowed, so the registers go back as they were
    have hsame : .setregs (regsAfterCb cbs last regs) ∈ (handleSyscalls cbs k last).log := by
      rw [hwrites, denyRegs, if_neg fun hd => hgranted (hdeny.mp hd)]
    obtain ⟨path, hmem, -, hall⟩ := h.vetted _ hsame hopen c hc
    rw [called_path hget hset hcheck hread hc hmem] at hall
    exact hpath hall
  · intro h
    refine ⟨fun written hw hopen' => ?_, fun hno => absurd hopen hno⟩
    rw [hwrites] at hw
    subst hw
    by_cases hd : Denies cbs (regsAfterCb cbs last regs) (cString val)
    · -- denied: what goes to the kernel is no `openat`
      rw [denyRegs, if_pos (hdeny.mpr hd)] at hopen'
      exact absurd hopen'.symm SYS_openat_ne
    · rw [denyRegs, if_neg fun hp => hd (hdeny.mp hp)]
      rintro c hc
      refine ⟨cString val, ?_, fun hans => hd ⟨c, hc, hans⟩, ?_⟩
      · rw [mem_checked hget hset hcheck hread]
        exact .inr (.inr (.inl ⟨c, hc, rfl⟩))
      · rcases h.resolve_left hd with hnil | hpath
        · rw [hnil] at hc
          cases hc
        · exact hpath

/-- A call that checks though the callback asked for something else. -/
theorem opensVetted_other (hother : (regsAfterCb cbs last regs).orig_rax ≠ SYS_openat) :
    OpensVetted cbs k last regs ↔ selectedCallbacks cbs (regsAfterCb cbs last regs) = [] := by
  have hdeny : (syscallOpenat cbs k (regsAfterCb cbs last regs)).2 = -1 ↔ _ :=
    (syscallOpenat_eq hread).2
  have hwrites : ∀ {written : UserRegs}, .setregs written ∈ (handleSyscalls cbs k last).log ↔ _ :=
    setregs_checked hget hset hcheck hread
  constructor
  · intro h
    by_contra hsel
    -- a callback that is registered is asked, `openat` or not
    obtain ⟨c, hc⟩ := List.exists_mem_of_ne_nil _ hsel
    have hmem : c.2 (cString val) ∈ (handleSyscalls cbs k last).log := by
      rw [mem_checked hget hset hcheck hread]
      exact .inr (.inr (.inl ⟨c, hc, rfl⟩))
    obtain ⟨hreads, hwrite⟩ := (h.spared hother).1 (cString val)
    rcases selected_action hc with hact | hact
    · rw [hact] at hmem
      exact hreads hmem
    · rw [hact] at hmem
      exact hwrite hmem
  · intro hnil
    have hgranted : ¬ Denies cbs (regsAfterCb cbs last regs) (cString val) := by
      rintro ⟨c, hc, -⟩
      rw [hnil] at hc
      cases hc
    have hsilent : ∀ {b : Action} {path : Path}, b = .fileRead path ∨ b = .fileWrite path →
        b ∉ (handleSyscalls cbs k last).log := by
      intro b path hb hmem
      obtain ⟨c, hc, -⟩ := file_call hget hset hcheck hread hb hmem
      rw [hnil] at hc
      cases hc
    refine ⟨fun written hw hopen => ?_, fun _ => ⟨fun path => ⟨?_, ?_⟩, fun written hw => ?_⟩⟩
    · rw [hwrites, denyRegs, if_neg fun hp => hgranted (hdeny.mp hp)] at hw
      rw [hw] at hopen
      exact absurd hopen hother
    · exact hsilent (.inl rfl)
    · exact hsilent (.inr rfl)
    · rw [hwrites, denyRegs, if_neg fun hp => hgranted (hdeny.mp hp)] at hw
      exact hw

end Checked

/-- A string whose last word is readable is what the callbacks get. -/
theorem cString_whole {addr : Word} {val : List Byte} {live : Nat} {s : Path}
    (hreq : (readEvents k addr).any ReadEvent.isRefused = false)
    (hread : readString k addr = .str val live) (hs : StringAt k.mem addr s)
    (hlast : LastWordReadable k.mem addr s) : cString val = s := by
  obtain ⟨val', hread', hwhole, -⟩ := readString_at hs hreq
  rw [hread] at hread'
  cases hread'
  exact hwhole hlast

/-- Of any other they get the whole words. -/
theorem cString_cut {addr : Word} {val : List Byte} {live : Nat} {s : Path}
    (hreq : (readEvents k addr).any ReadEvent.isRefused = false)
    (hread : readString k addr = .str val live) (hs : StringAt k.mem addr s)
    (hlast : ¬ LastWordReadable k.mem addr s) : cString val = s.take (s.length / 8 * 8) := by
  obtain ⟨val', hread', -, hcut⟩ := readString_at hs hreq
  rw [hread] at hread'
  cases hread'
  exact hcut hlast

end Vetting

/-- **When every `openat` handed to the kernel has been vetted.**  The guard of
the open check looks at the number read before the syscall callback, so that the
callback must not change whether the syscall is an `openat`; and the path must
be read whole, unless what is read of it is denied. -/
theorem openat_vetted_iff (cbs : TracerCallbacks) (k : Kernel) (last : Word) (regs : UserRegs)
    (hget : k.getregs = .ok regs) (hset : k.setregsOk = true)
    (hreq : (readEvents k (regsAfterCb cbs last regs).rsi).any ReadEvent.isRefused = false) :
    OpensVetted cbs k last regs ↔
      selectedCallbacks cbs (regsAfterCb cbs last regs) = [] ∨
        ((regs.orig_rax = SYS_openat ∧ last ≠ SYS_openat) ↔
          (regsAfterCb cbs last regs).orig_rax = SYS_openat) ∧
        ((regsAfterCb cbs last regs).orig_rax = SYS_openat →
          ∀ s, StringAt k.mem (regsAfterCb cbs last regs).rsi s →
            LastWordReadable k.mem (regsAfterCb cbs last regs).rsi s ∨
              Denies cbs (regsAfterCb cbs last regs) (s.take (s.length / 8 * 8))) := by
  by_cases hcheck : regs.orig_rax = SYS_openat ∧ last ≠ SYS_openat
  · obtain ⟨val, hread, -⟩ := readString_str hreq
    -- the callback may have written another number
    by_cases hopen : (regsAfterCb cbs last regs).orig_rax = SYS_openat
    · rw [opensVetted_openat hget hset hcheck hread hopen]
      constructor
      · rintro (hdeny | hnil | hpath)
        · refine .inr ⟨⟨fun _ => hopen, fun _ => hcheck⟩, fun _ s hs => ?_⟩
          by_cases hlast : LastWordReadable k.mem (regsAfterCb cbs last regs).rsi s
          · exact .inl hlast
          · rw [← cString_cut hreq hread hs hlast]
            exact .inr hdeny
        · exact .inl hnil
        · refine .inr ⟨⟨fun _ => hopen, fun _ => hcheck⟩, fun _ s hs => .inl ?_⟩
          by_contra hlast
          exact take_words_ne hlast ((cString_cut hreq hread hs hlast).symm.trans (hpath s hs))
      · rintro (hnil | ⟨-, hall⟩)
        · exact .inr (.inl hnil)
        · by_cases hdeny : Denies cbs (regsAfterCb cbs last regs) (cString val)
          · exact .inl hdeny
          · refine .inr (.inr fun s hs => cString_whole hreq hread hs ?_)
            by_contra hlast
            rw [cString_cut hreq hread hs hlast] at hdeny
            exact hdeny ((hall hopen s hs).resolve_left hlast)
    · rw [opensVetted_other hget hset hcheck hread hopen]
      exact ⟨.inl, fun h => h.resolve_right fun hr => hopen (hr.1.mp hcheck)⟩
  · rw [opensVetted_pass hget hset hcheck]
    refine or_congr_right ⟨fun hother => ⟨⟨fun h => absurd h hcheck, fun h => absurd h hother⟩,
      fun h => absurd h hother⟩, fun h hopen => hcheck (h.1.mpr hopen)⟩

theorem openat_vetted_denied :
    OpensVetted denyReads { pageWords with getregs := .ok openRegs } (-1) openRegs :=
  (openat_vetted_iff denyReads { pageWords with getregs := .ok openRegs } (-1) openRegs rfl rfl
    (by rfl)).mpr (.inr ⟨⟨fun _ => rfl, fun _ => ⟨rfl, by decide⟩⟩,
      fun _ _ _ => .inr ⟨_, List.mem_singleton.mpr rfl, rfl⟩⟩)

/-- A syscall callback that makes an `openat` of every syscall. -/
def redirect : TracerCallbacks :=
  { denyReads with syscall := some fun regs => { regs with orig_rax := SYS_openat } }

/-- The registers of a `getpid`, `rsi` being at a string. -/
def getpidRegs : UserRegs := { orig_rax := 39, rsi := 4087 }

/-- An `openat` that the policy would deny goes to the kernel. -/
theorem openat_unvetted : ¬ ∀ (cbs : TracerCallbacks) (k : Kernel) (last : Word) (regs : UserRegs),
    k.getregs = .ok regs → k.setregsOk = true → last ≠ regs.orig_rax →
    (readEvents k (regsAfterCb cbs last regs).rsi).any ReadEvent.isRefused = false →
    OpensVetted cbs k last regs := by
  intro h
  have hvetted := h redirect { pageWords with getregs := .ok getpidRegs } (-1) getpidRegs rfl rfl
    (by decide) (by rfl)
  rcases (opensVetted_pass rfl rfl (by decide)).mp hvetted with hnil | hother
  · exact absurd hnil (List.cons_ne_nil _ _)
  · exact hother rfl

end Prom.Tracer
