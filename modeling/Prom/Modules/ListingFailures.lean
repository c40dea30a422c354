/-
  Prom.Modules.ListingFailures — `dir_content` when something fails.

  A caller of `dir_content` looks at the error code.  Before the directory is
  open every failure but one sets it: `errm_error_from_errno` knows five values
  of `errno` and leaves the code alone at any other.  Once the directory is
  open, a failure is a request for memory that is refused; there is one request
  for the array and two for each visible name.

  Main results:
    * `dirContent_reports_iff` — the failures to open that are reported.
    * `Gathering.stops` — the first request that is refused is the last step.
    * `dirContent_clean_iff` — the refused requests that are survived: none.
-/
import Prom.Modules.Store

namespace Prom.Modules

open Prom.C Exec Heap Dga Errm Posix

variable {P : System} {i : Fin STACK_SIZE} {w : World}

/-! ## §1. Failures to open. -/

/-- The values `errm_error_from_errno` knows. -/
def knownErrnos : List Errno := [.EACCES, .ENFILE, .ENOENT, .ENOTDIR, .ENOMEM]

theorem isSome_errorOf (e : Errno) : (errorOf e).isSome ↔ e ∈ knownErrnos := by
  cases e <;> simp [errorOf, knownErrnos]

/-- `wordexp`, the `malloc` in `expand` or `opendir` fails. -/
def OpenFails (P : System) (w : World) (path : CStr) : Prop :=
  P.wordexp w.os.fs w.os.cwd path = none ∨
    ∃ t rest, P.wordexp w.os.fs w.os.cwd path = some (t :: rest) ∧
      (w.heap.grants (copyRequest w.heap (t :: rest).length) = false ∨ ∃ e, opens P w.os t = .error e)

/-- `dir_content` tells its caller of a failure to open, and leaves nothing. -/
structure Reports (P : System) (d : Nat) (w : World) (path : CStr) (r : Listing) (w' : World) :
    Prop where
  null : r.array = .null ↔ w'.thread.errCode.isSome
  failed : OpenFails P w path → r.array = .null ∧ w'.thread.errCode.isSome ∧
    Leaves (fun _ => False) w.heap w'.heap
  thread : Rests d w.thread w'.thread

/-- An error that `open_dir` has set is reported. -/
theorem errored_reports (hrest : Rests i.val w.thread w.thread) {path : CStr} {dp : Ptr} {w₁ : World}
    (hopen : openDir P path (w.enter i) = .ok dp w₁)
    (hthread : Rests (i.val + 1) (w.enter i).thread w₁.thread) {c : ErrorCode}
    (herr : w₁.thread.errCode = some c) (hl : Leaves (fun _ => False) w.heap w₁.heap) :
    Yields (dirContent P path) w (Reports P i.val w path) := by
  refine (dirContent_errored hrest hopen hthread herr).mono ?_
  intro r w' ⟨hr, hcode, hheap, ht⟩
  subst hr
  have hsome : w'.thread.errCode.isSome := by
    rw [hcode]
    rfl
  exact ⟨⟨fun _ => hsome, fun _ => rfl⟩, fun _ => ⟨rfl, hsome, hheap ▸ hl⟩, ht⟩

/-- **Which failures to open are reported**: all but an `opendir` that fails
    with an unknown value of `errno`. -/
theorem dirContent_reports_iff (hroom : i.val + 3 < STACK_SIZE)
    (hrest : Rests i.val w.thread w.thread) {path : CStr}
    (hword : P.wordexp w.os.fs w.os.cwd path ≠ some [])
    (hcount : ∀ words, P.wordexp w.os.fs w.os.cwd path = some words → words.length < 2 ^ 64)
    (hafter : ∀ t rest d, P.wordexp w.os.fs w.os.cwd path = some (t :: rest) →
      w.heap.grants (copyRequest w.heap (t :: rest).length) = true → opens P w.os t = .ok d →
        GrantsListing P w (t :: rest).length d) :
    Yields (dirContent P path) w (Reports P i.val w path) ↔
      ∀ t rest e, P.wordexp w.os.fs w.os.cwd path = some (t :: rest) →
        w.heap.grants (copyRequest w.heap (t :: rest).length) = true →
          opens P w.os t = .error e → e ∈ knownErrnos := by
  have hin : InFrame i (w.thread.stack i) w.thread (w.enter i).thread := hrest.enter
  have hroom' : i.val + 1 < STACK_SIZE := by omega
  constructor
  · intro hyields t rest e hwords hg hopens
    by_contra hunknown
    -- no code is set for the value, so the null directory is read
    obtain ⟨dp, w₁, hopen, htried⟩ := openDir_cases (i := ⟨i.val + 1, hroom'⟩) (w := w.enter i) hroom
      (hin.called hroom') hwords
    obtain ⟨rfl, hcode⟩ := htried.failed e hg hopens
    have hnone : errorOf e = none := by
      rw [← isSome_errorOf, Bool.not_eq_true, Option.isSome_eq_false_iff,
        Option.isNone_iff_eq_none] at hunknown
      exact hunknown
    exact (dirContent_unreported hrest hopen htried.thread (hcode.trans hnone)).not_yields hyields
  · intro hknown
    cases hwords : P.wordexp w.os.fs w.os.cwd path with
    | none =>
      obtain ⟨dp, w₁, hopen, hfail⟩ := openDir_unparsed (i := ⟨i.val + 1, hroom'⟩) (w := w.enter i)
        (show i.val + 1 + 1 < STACK_SIZE by omega) (hin.called hroom') hwords
      exact errored_reports hrest hopen hfail.thread hfail.code hfail.leaves
    | some words =>
      cases words with
      | nil => exact absurd hwords hword
      | cons t rest =>
        have hfew : ¬2 ^ 64 ≤ (t :: rest).length := Nat.not_le.mpr (hcount _ hwords)
        obtain ⟨dp, w₁, hopen, htried⟩ := openDir_cases (i := ⟨i.val + 1, hroom'⟩) (w := w.enter i)
          hroom (hin.called hroom') hwords
        have hl : Leaves (fun _ => False) w.heap w₁.heap := htried.leaves.weaken fun _ => hfew
        cases hg : w.heap.grants (copyRequest w.heap (t :: rest).length) with
        | false =>
          obtain ⟨-, hcode⟩ := htried.denied hg
          exact errored_reports hrest hopen htried.thread hcode hl
        | true =>
          cases hopens : opens P w.os t with
          | error e =>
            obtain ⟨-, hcode⟩ := htried.failed e hg hopens
            obtain ⟨c, hc⟩ := Option.isSome_iff_exists.mp
              ((isSome_errorOf e).mpr (hknown t rest e hwords hg hopens))
            exact errored_reports hrest hopen htried.thread (hcode.trans hc) hl
          | ok d =>
            refine (dirContent_returned hroom hrest hwords hg hopens
              (hafter t rest d hwords hg hopens)).mono ?_
            intro r w' hr
            refine ⟨?_, ?_, hr.thread⟩
            · rw [hr.noError]
              exact ⟨fun hnull => absurd hnull hr.listed.1.names.ne_null, (by rintro ⟨⟩)⟩
            · -- nothing has failed
              rintro (hnone | ⟨t', rest', hwords', hfails⟩)
              · cases hwords.symm.trans hnone
              · cases hwords.symm.trans hwords'
                rcases hfails with hno | ⟨e, he⟩
                · cases hg.symm.trans hno
                · cases hopens.symm.trans he

/-- A system whose `opendir` always fails. -/
def closedSystem (e : Errno) : System := { bareSystem with refuse := fun _ _ => some e }

/-- A directory that does not exist is reported. -/
theorem missing_reported : Yields (dirContent (closedSystem .ENOENT) tPath) (World.start emptyModules 0)
    (Reports (closedSystem .ENOENT) 0 (World.start emptyModules 0) tPath) := by
  have hcount : ∀ words, (closedSystem .ENOENT).wordexp emptyModules 0 tPath = some words →
      words.length < 2 ^ 64 := by
    intro words hwords
    cases hwords
    decide
  refine (dirContent_reports_iff (w := World.start emptyModules 0) (i := ⟨0, by decide⟩) (by decide)
    (rests_start emptyModules 0) (fun h => by cases h) hcount ?_).mpr ?_
  · intro t rest d _ _ _ j _
    rfl
  · intro t rest e _ _ hopens
    cases hopens
    decide

/-- **Too many open files** (`EMFILE`, 24): the code is not set, and `readdir` is
    given a null pointer. -/
theorem too_many_files_unreported :
    Undefined (dirContent (closedSystem (.other 24)) tPath) (World.start emptyModules 0) ∧
      ¬Yields (dirContent (closedSystem (.other 24)) tPath) (World.start emptyModules 0)
        (Reports (closedSystem (.other 24)) 0 (World.start emptyModules 0) tPath) := by
  have hrest := rests_start emptyModules 0
  have hwords : (closedSystem (.other 24)).wordexp emptyModules 0 tPath = some [tPath] := rfl
  obtain ⟨dp, w₁, hopen, htried⟩ := openDir_cases (i := ⟨1, by decide⟩)
    (w := (World.start emptyModules 0).enter ⟨0, by decide⟩) (by decide)
    (InFrame.called (i := ⟨0, by decide⟩) (Rests.enter (i := ⟨0, by decide⟩) hrest) (by decide)) hwords
  obtain ⟨rfl, hcode⟩ := htried.failed (.other 24) rfl rfl
  have hundef := dirContent_unreported (i := ⟨0, by decide⟩) hrest hopen htried.thread hcode
  exact ⟨hundef, hundef.not_yields⟩

/-! ## §2. Requests that are refused. -/

section Passes

variable {w₀ : World} {s : Os} {done rest : List CStr} {st : Ptr × Size} {name : CStr}

/-- **A refused `dga_grow_or`**: the array says it holds one name more, and
    `free_dir_content` reads the name that is not there. -/
theorem Collecting.grow_refused (hc : Collecting w₀ s done (name :: rest) st w) (hg : ¬w.heap.Grants)
    (hdot : name.bytes.head? ≠ some dot) (hdone : done.length ≤ DIR_MAX + 2) :
    Undefined (dirContentPass (streamPtr s.streams.length) st) w := by
  obtain ⟨h', hgrow, hfree⟩ := hc.names.grow_denied hg (visible_fits hdone).1
  have hmemfail : Undefined (dirContentMemfail st.1 st.2) { w with heap := h', os := s.reading rest } :=
    Undefined.step (m := onThread (errmError .NOT_ENOUGH_MEMORY)) (onThread_eq rfl)
      (Undefined.bind (Undefined.zoom hfree) _)
  refine Undefined.step (readdir_next hc.os) ?_
  simp only [if_neg hdot]
  refine Undefined.step (onHeap_eq hgrow) ?_
  rw [if_pos rfl]
  exact hmemfail.bind _

/-- **A refused `dga_new` for a name**: the name is written behind a header at
    `NULL`. -/
theorem Collecting.name_refused (hc : Collecting w₀ s done (name :: rest) st w) (hg : w.heap.Grants)
    (hno : w.heap.grants (w.heap.requests + 1) = false) (hdot : name.bytes.head? ≠ some dot)
    (hdone : done.length ≤ DIR_MAX + 2) :
    Undefined (dirContentPass (streamPtr s.streams.length) st) w := by
  obtain ⟨h₁, hgrow, hs₁, hreq₁, -⟩ := dgaGrow_names hc.names hg hc.heap.length (visible_fits hdone).2
  have hg₁ : ¬h₁.Grants := by
    rw [Grants, hs₁.grants, hreq₁, hno]
    rintro ⟨⟩
  refine Undefined.step (readdir_next hc.os) ?_
  simp only [if_neg hdot]
  refine Undefined.step (onHeap_eq hgrow) ?_
  rw [if_neg (arrayPtr_ne_null _)]
  refine Undefined.step (onHeap_eq (dgaNew_denied hg₁ _ _)) ?_
  rw [if_neg headless_ne_null]
  exact Undefined.bind (.of_eq (onHeap_stop rfl)) _

end Passes

/-- **The loop goes wrong at the first request that is refused.** -/
theorem Gathering.stops {w₀ : World} {s : Os} {names : List CStr} {st : Ptr × Size}
    (hshort : ∀ n ∈ names, n.length ≤ NAME_MAX) (hfew : names.length ≤ DIR_MAX + 2)
    (hno : ∃ j, j < 2 * (visible names).length ∧ w.heap.grants (w.heap.requests + j) = false)
    (hc : Gathering w₀ s [] names st w) :
    Undefined (loop maxPasses (dirContentPass (streamPtr s.streams.length)) st) w := by
  have hfuel : names.length < maxPasses := by
    have : DIR_MAX + 2 < maxPasses := by decide
    omega
  refine Undefined.loop
    (I := fun n st w => ∃ done rest, names = done ++ rest ∧ n = rest.length ∧
      Gathering w₀ s done rest st w ∧
        ∃ j, j < 2 * (visible rest).length ∧ w.heap.grants (w.heap.requests + j) = false)
    ?_ hfuel ⟨[], names, rfl, rfl, hc, hno⟩
  intro n st w ⟨done, rest, hsplit, hn, hc, j, hj, hno⟩
  cases rest with
  | nil => cases hj
  | cons name rest =>
    obtain ⟨hname, hdone, hsplit'⟩ := listing_split hshort hfew hsplit
    rw [List.length_cons] at hn
    by_cases hdot : name.bytes.head? = some dot
    · rw [visible_hidden hdot] at hj
      exact .inr ⟨rest.length, st, _, dirContentPass_hidden hc.os hdot, by omega, done ++ [name], rest,
        hsplit', rfl, hc.skip hdot, j, hj, hno⟩
    · rw [visible_shown hdot, List.length_cons] at hj
      by_cases hg : w.heap.Grants
      · cases hg' : w.heap.grants (w.heap.requests + 1) with
        | false => exact .inl (hc.toCollecting.name_refused hg hg' hdot hdone)
        | true =>
          -- both are granted, so the one refused comes later
          obtain ⟨st', w', hrun, hreq, hc'⟩ := hc.add hg hg' hdot hname hdone
          have hlater : 2 ≤ j := by
            by_contra hlt
            rcases Nat.lt_or_ge j 1 with h0 | h1
            · rw [Nat.lt_one_iff.mp h0] at hno
              exact Bool.false_ne_true (hno.symm.trans hg)
            · rw [show j = 1 by omega, hg'] at hno
              cases hno
          refine .inr ⟨rest.length, st', w', hrun, by omega, done ++ [name], rest, hsplit', rfl, hc',
            j - 2, by omega, ?_⟩
          rw [hreq, hc'.heap.grants, ← hc.heap.grants, Nat.add_assoc, show 2 + (j - 2) = j by omega]
          exact hno
      · exact .inl (hc.toCollecting.grow_refused hg hdot hdone)

/-- **The first `dga_new` is refused**: the listing goes wrong at its first
    visible name, or returns what is no array. -/
theorem Started.headless {n : Nat} {names : List CStr} {w₀ : World} (hs : Started i w n names w₀)
    (hg : ¬w₀.heap.Grants) (hfuel : names.length < maxPasses) :
    Undefined (listNames (streamPtr w.os.streams.length)) w₀ ∨
      Yields (listNames (streamPtr w.os.streams.length)) w₀ fun r w' =>
        w'.thread = w₀.thread ∧ w'.os = w.os.reading [] ∧ r = ⟨Ptr.null.add headerSize, some 0⟩ := by
  have hnew : onHeap (dgaNew 0 8) w₀ = .ok (Ptr.null.add headerSize) { w₀ with heap := w₀.heap.deny } :=
    onHeap_eq (dgaNew_denied hg 0 8)
  by_cases hvis : visible names = []
  · right
    refine Yields.step hnew (Yields.loop
      (I := fun n st w' => n ≤ names.length ∧ st = (Ptr.null.add headerSize, 0) ∧
        w'.thread = w₀.thread ∧ ∃ rest, n = rest.length ∧ w'.os = w.os.reading rest ∧ visible rest = [])
      ?_ hfuel ⟨Nat.le_refl _, rfl, rfl, names, rfl, hs.os, hvis⟩)
    intro n st w' ⟨hle, hst, hthread, rest, hn, hos, hvis⟩
    subst hst
    cases rest with
    | nil => exact Yields.of_eq (dirContentPass_end hos) ⟨hthread, hos, rfl⟩
    | cons name rest =>
      rw [List.length_cons] at hn
      by_cases hdot : name.bytes.head? = some dot
      · rw [visible_hidden hdot] at hvis
        exact Yields.of_eq (dirContentPass_hidden hos hdot)
          ⟨rest.length, by omega, by omega, rfl, hthread, rest, rfl, rfl, hvis⟩
      · rw [visible_shown hdot] at hvis
        cases hvis
  · left
    refine Undefined.step hnew (Undefined.loop
      (I := fun n st w' => st = (Ptr.null.add headerSize, 0) ∧
        ∃ rest, n = rest.length ∧ w'.os = w.os.reading rest ∧ visible rest ≠ [])
      ?_ hfuel ⟨rfl, names, rfl, hs.os, hvis⟩)
    intro n st w' ⟨hst, rest, hn, hos, hvis⟩
    subst hst
    cases rest with
    | nil => exact absurd rfl hvis
    | cons name rest =>
      rw [List.length_cons] at hn
      by_cases hdot : name.bytes.head? = some dot
      · rw [visible_hidden hdot] at hvis
        exact .inr ⟨rest.length, _, _, dirContentPass_hidden hos hdot, by omega, rfl, rest, rfl, rfl, hvis⟩
      · left
        refine Undefined.step (readdir_next hos) ?_
        simp only [if_neg hdot]
        exact Undefined.bind (Undefined.zoom (headless_grow _)) _

/-! ## §3. Survived failures. -/

/-- The listing, or `NULL`, an error and nothing left; the directory is
    closed. -/
structure Cleanly (w : World) (names : List CStr) (r : Listing) (w' : World) : Prop where
  outcome : Listed w (visible names) r w' ∨
    r.array = .null ∧ w'.thread.errCode = some .NOT_ENOUGH_MEMORY ∧
      Leaves (fun _ => False) w.heap w'.heap
  closed : w'.os = w.os.listed
  keeps : Keeps w.heap w'.heap

section Opened

variable {path t : CStr} {rest : List CStr} {d : Nat}

/-- **A request that is refused**: the listing goes wrong, or returns what is
    neither an array nor `NULL`. -/
theorem dirContent_starved (hroom : i.val + 3 < STACK_SIZE) (hrest : Rests i.val w.thread w.thread)
    (hwords : P.wordexp w.os.fs w.os.cwd path = some (t :: rest))
    (hg : w.heap.grants (copyRequest w.heap (t :: rest).length) = true)
    (hopens : opens P w.os t = .ok d) {j : Nat} (hj : j ≤ 2 * (visible (P.order w.os.fs d)).length)
    (hno : w.heap.grants (copyRequest w.heap (t :: rest).length + 1 + j) = false) :
    Undefined (dirContent P path) w ∨
      Yields (dirContent P path) w fun r _ => r = ⟨Ptr.null.add headerSize, some 0⟩ := by
  obtain ⟨w₀, hs, hundef, hyields⟩ := dirContent_start hroom hrest hwords hg hopens
  have hlong := order_length P w.os.fs d
  have hfuel : (P.order w.os.fs d).length < maxPasses := by
    have : DIR_MAX + 2 < maxPasses := by decide
    omega
  rw [← hs.grants] at hno
  by_cases hg₀ : w₀.heap.Grants
  · -- the array is there, and a later request is refused
    obtain ⟨cells, hnew, hstart⟩ := hs.gathering hg₀
    have hpos : 1 ≤ j := by
      by_contra hzero
      rw [Nat.lt_one_iff.mp (Nat.not_le.mp hzero)] at hno
      exact Bool.false_ne_true (hno.symm.trans hg₀)
    refine .inl (hundef (Undefined.step hnew (Gathering.stops (fun n hn => order_short P hn) hlong
      ⟨j - 1, by omega, ?_⟩ hstart)))
    show w₀.heap.grants (w₀.heap.requests + 1 + (j - 1)) = false
    rw [Nat.add_assoc, show 1 + (j - 1) = j by omega]
    exact hno
  · rcases hs.headless hg₀ hfuel with hwrong | hreturns
    · exact .inl (hundef hwrong)
    · exact .inr (hyields (fun r _ => r = ⟨Ptr.null.add headerSize, some 0⟩)
        (hreturns.mono fun r w' h => ⟨h.1, h.2.1, fun _ _ _ => h.2.2⟩))

/-- It is not survived. -/
theorem dirContent_not_clean (hroom : i.val + 3 < STACK_SIZE) (hrest : Rests i.val w.thread w.thread)
    (hwords : P.wordexp w.os.fs w.os.cwd path = some (t :: rest))
    (hg : w.heap.grants (copyRequest w.heap (t :: rest).length) = true)
    (hopens : opens P w.os t = .ok d) {j : Nat} (hj : j ≤ 2 * (visible (P.order w.os.fs d)).length)
    (hno : w.heap.grants (copyRequest w.heap (t :: rest).length + 1 + j) = false) :
    ¬Yields (dirContent P path) w (Cleanly w (P.order w.os.fs d)) := by
  rcases dirContent_starved hroom hrest hwords hg hopens hj hno with hundef | ⟨r, w', hrun, hr⟩
  · exact hundef.not_yields
  · rintro ⟨r', w'', hrun', hclean⟩
    rw [hrun] at hrun'
    cases hrun'
    subst hr
    rcases hclean.outcome with hlisted | ⟨hnull, -⟩
    · obtain ⟨b, cs, a, harr, -⟩ := hlisted.names
      cases harr
    · exact headless_ne_null hnull

/-- **Which allocation failures `dir_content` survives** once the directory is
    open: none of those that there can be. -/
theorem dirContent_clean_iff (hroom : i.val + 3 < STACK_SIZE) (hrest : Rests i.val w.thread w.thread)
    (hwords : P.wordexp w.os.fs w.os.cwd path = some (t :: rest))
    (hg : w.heap.grants (copyRequest w.heap (t :: rest).length) = true)
    (hopens : opens P w.os t = .ok d) :
    Yields (dirContent P path) w (Cleanly w (P.order w.os.fs d)) ↔
      ∀ j, j ≤ 2 * (visible (P.order w.os.fs d)).length →
        w.heap.grants (copyRequest w.heap (t :: rest).length + 1 + j) = true := by
  constructor
  · intro hclean j hj
    by_contra hno
    exact dirContent_not_clean hroom hrest hwords hg hopens hj (Bool.eq_false_iff.mpr hno) hclean
  · intro hgrants
    refine (dirContent_returned hroom hrest hwords hg hopens hgrants).mono ?_
    intro r w' hr
    exact ⟨.inl hr.listed.1, hr.os, hr.listed.2⟩

end Opened

theorem root_listed : Yields (dirContent bareSystem slashStr) (World.start emptyModules 0)
    (Cleanly (World.start emptyModules 0) (bareSystem.order emptyModules 0)) :=
  (dirContent_clean_iff (w := World.start emptyModules 0) (i := ⟨0, by decide⟩) (d := 0) (by decide)
    (rests_start emptyModules 0)
    (show bareSystem.wordexp emptyModules 0 slashStr = some [slashStr] from rfl) rfl rfl).mpr
    fun _ _ => rfl

/-- **One refused `realloc`**, for the name `m`, while `/` is listed. -/
theorem root_not_clean : visible (bareSystem.order emptyModules 0) = [⟨ascii "m", by decide⟩] ∧
    ¬Yields (dirContent bareSystem slashStr) (World.refusing 4)
      (Cleanly (World.refusing 4) (bareSystem.order emptyModules 0)) :=
  ⟨by decide, dirContent_not_clean (w := World.refusing 4) (i := ⟨0, by decide⟩) (d := 0) (by decide)
    (rests_start emptyModules 0)
    (show bareSystem.wordexp emptyModules 0 slashStr = some [slashStr] from rfl) rfl rfl (j := 1)
    (by decide) (by decide)⟩

end Prom.Modules
