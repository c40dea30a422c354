/-
  Prom.Modules.AbsPath — the contract of `abs_path`.

  `abs_path` runs four functions, up to three frames deep, each with its own
  error code and its own deferred frees.  `Contract` says what the caller may
  rely on for any path with a word, or that is refused, whatever `malloc`
  answers: the error code tells what failed, the one block left is the path
  that was returned, and the frames are as before.

  The path goes through `wordexp` and only the first word is looked at.  A
  path of ordinary characters and blanks is split at the blanks: `pieces`.

  Main results:
    * `absPath_contract` — the contract, at every frame that leaves room.
    * `absPath_names_iff` — of ordinary paths, those that are named.
-/
import Prom.Modules.Store

namespace Prom.Modules

open Prom.C Exec Heap Dga Errm Posix

variable {P : System} {i : Fin STACK_SIZE} {w : World}

/-! ## §1. Who owns what, and which error is set. -/

/-- A request of `emalloc` during `abs_path` is refused: the one for the copy
    of the first word or, if the word is relative, the one for the path. -/
def EmallocFails (P : System) (w : World) (path : CStr) : Prop :=
  ∃ t rest, P.wordexp w.os.fs w.os.cwd path = some (t :: rest) ∧
    (w.heap.grants (copyRequest w.heap (t :: rest).length) = false ∨
      t.bytes.head? ≠ some slash ∧ w.heap.grants (copyRequest w.heap (t :: rest).length + 2) = false)

/-- `getcwd`, where it is called, returns a block. -/
def GetcwdSucceeds (P : System) (w : World) (path : CStr) : Prop :=
  ∀ t rest, P.wordexp w.os.fs w.os.cwd path = some (t :: rest) → t.bytes.head? ≠ some slash →
    w.heap.grants (copyRequest w.heap (t :: rest).length) = true →
      (P.getcwd w.os.fs w.os.cwd).isSome ∧
        w.heap.grants (copyRequest w.heap (t :: rest).length + 1) = true

/-- What `abs_path` promises its caller. -/
structure Contract (P : System) (d : Nat) (w : World) (path : CStr) (p : Ptr) (w' : World) :
    Prop where
  null : p = .null ↔ w'.thread.errCode.isSome
  parsing : w'.thread.errCode = some .PARSING_ERROR ↔ P.wordexp w.os.fs w.os.cwd path = none
  memory : w'.thread.errCode = some .NOT_ENOUGH_MEMORY ↔ EmallocFails P w path
  string : p ≠ .null → ∃ s, absPathOf P w.os.fs w.os.cwd path = some s ∧
    OwnStr w.heap.blocks.length w'.heap p s
  heap : Leaves (fun b => p = ⟨.heap b, 0⟩) w.heap w'.heap
  thread : Rests d w.thread w'.thread

/-- The words are refused. -/
theorem Failed.contract_refused {d : Nat} {path : CStr} {p : Ptr} {w' : World}
    (hf : Failed d False .PARSING_ERROR w p w') (hwords : P.wordexp w.os.fs w.os.cwd path = none) :
    Contract P d w path p w' := by
  refine ⟨?_, ?_, ?_, fun hp => absurd hf.null hp, hf.leaves.weaken fun _ => False.elim, hf.thread⟩
  · rw [hf.code]
    exact ⟨fun _ => rfl, fun _ => hf.null⟩
  · rw [hf.code]
    exact ⟨fun _ => hwords, fun _ => rfl⟩
  · rw [hf.code]
    refine ⟨(by rintro ⟨⟩), ?_⟩
    rintro ⟨t, rest, hsome, -⟩
    rw [hwords] at hsome
    cases hsome

/-- A request for memory is refused. -/
theorem Failed.contract_denied {d : Nat} {path t : CStr} {rest : List CStr} {lost : Prop} {p : Ptr}
    {w' : World} (hf : Failed d lost .NOT_ENOUGH_MEMORY w p w') (hlost : ¬lost)
    (hwords : P.wordexp w.os.fs w.os.cwd path = some (t :: rest)) (hno : EmallocFails P w path) :
    Contract P d w path p w' := by
  refine ⟨?_, ?_, ?_, fun hp => absurd hf.null hp, hf.leaves.weaken fun _ hl => absurd hl hlost,
    hf.thread⟩
  · rw [hf.code]
    exact ⟨fun _ => rfl, fun _ => hf.null⟩
  · rw [hf.code, hwords]
    constructor <;> rintro ⟨⟩
  · rw [hf.code]
    exact ⟨fun _ => hno, fun _ => rfl⟩

/-- The path is returned. -/
theorem Made.contract {d : Nat} {path t s : CStr} {rest : List CStr} {lost : Prop} {p : Ptr}
    {w' : World} (hm : Made d lost w s p w') (hlost : ¬lost)
    (hwords : P.wordexp w.os.fs w.os.cwd path = some (t :: rest))
    (hpath : absPathOf P w.os.fs w.os.cwd path = some s) (hyes : ¬EmallocFails P w path) :
    Contract P d w path p w' := by
  refine ⟨?_, ?_, ?_, fun _ => ⟨s, hpath, hm.own⟩, ?_, hm.calm.thread⟩
  · rw [hm.calm.noError]
    exact ⟨fun hp => absurd hp hm.own.ne_null, (by rintro ⟨⟩)⟩
  · rw [hm.calm.noError, hwords]
    constructor <;> rintro ⟨⟩
  · rw [hm.calm.noError]
    exact ⟨(by rintro ⟨⟩), fun hno => absurd hno hyes⟩
  · obtain ⟨b, back, rfl, -, -, hl⟩ := hm.block
    refine hl.weaken fun c hc => ?_
    rw [hc.resolve_right hlost]

/-- **The contract of `abs_path`**, for every path but one without a word. -/
theorem absPath_contract (hroom : i.val + 2 < STACK_SIZE) (hrest : Rests i.val w.thread w.thread)
    {path : CStr} (hword : P.wordexp w.os.fs w.os.cwd path ≠ some [])
    (hcount : ∀ words, P.wordexp w.os.fs w.os.cwd path = some words → words.length < 2 ^ 64)
    (hcwd : GetcwdSucceeds P w path) :
    Yields (absPath P path) w fun p w' => Contract P i.val w path p w' := by
  cases hwords : P.wordexp w.os.fs w.os.cwd path with
  | none =>
    refine (absPath_refused (by omega) hrest hwords).mono ?_
    intro p w' hfail
    exact hfail.contract_refused hwords
  | some words =>
    cases words with
    | nil => exact absurd hwords hword
    | cons t rest =>
      have hfew : ¬2 ^ 64 ≤ (t :: rest).length := Nat.not_le.mpr (hcount _ hwords)
      refine (absPath_cases hroom hrest hwords (hcwd t rest hwords)).mono ?_
      intro p w' houtcome
      rcases houtcome with ⟨hcopy, hjoin, s, hpath, hmade⟩ | ⟨hno, hfail⟩
      · refine hmade.contract hfew hwords hpath ?_
        -- both requests were granted
        rintro ⟨t', rest', hwords', hrefused⟩
        cases hwords.symm.trans hwords'
        rcases hrefused with hrefused | ⟨hrel, hrefused⟩
        · rw [hcopy] at hrefused
          cases hrefused
        · rw [hjoin hrel] at hrefused
          cases hrefused
      · refine hfail.contract_denied hfew hwords ⟨t, rest, hwords, ?_⟩
        by_cases hcopy : w.heap.grants (copyRequest w.heap (t :: rest).length) = true
        · right
          obtain ⟨hrel, hrefused⟩ := Classical.not_imp.mp fun hyes => hno ⟨hcopy, hyes⟩
          exact ⟨hrel, Bool.eq_false_iff.mpr hrefused⟩
        · exact .inl (Bool.eq_false_iff.mpr hcopy)

/-- A system with a working directory. -/
def housedSystem : System := { bareSystem with getcwd := fun _ _ => some tPath }

/-- The word `x` is had, the path behind the working directory is not. -/
theorem absPath_contract_scarce : EmallocFails housedSystem (World.refusing 4) xName ∧
    Yields (absPath housedSystem xName) (World.refusing 4) fun p w' =>
      Contract housedSystem 0 (World.refusing 4) xName p w' := by
  constructor
  · exact ⟨xName, [], rfl, .inr ⟨by decide, by decide⟩⟩
  · have hcount : ∀ words, housedSystem.wordexp emptyModules 0 xName = some words →
        words.length < 2 ^ 64 := by
      intro words hwords
      cases hwords
      decide
    have hcwd : GetcwdSucceeds housedSystem (World.refusing 4) xName := by
      intro t rest hwords _ _
      cases hwords
      exact ⟨rfl, by decide⟩
    have hword : housedSystem.wordexp emptyModules 0 xName ≠ some [] := fun h => by cases h
    exact absPath_contract (w := World.refusing 4) (i := ⟨0, by decide⟩) (by decide)
      (rests_start emptyModules 0) hword hcount hcwd

/-! ## §2. Ordinary paths. -/

/-- A space or a tab. -/
def isBlank (b : Byte) : Bool := b == 32 || b == 9

/-- The characters `wordexp` gives a meaning, and those it refuses. -/
def specials : List Byte := ascii "\n\"#$&'()*;<>?[\\]`\x7b|\x7d~"

/-- A string without a character that is special to `wordexp`. -/
def Ordinary (s : CStr) : Prop := ∀ b ∈ s.bytes, b ∉ specials

instance (s : CStr) : Decidable (Ordinary s) :=
  inferInstanceAs (Decidable (∀ b ∈ s.bytes, b ∉ specials))

/-- The maximal pieces without a blank. -/
def pieces (l : List Byte) : List (List Byte) := (l.splitOnP isBlank).filter (· ≠ [])

/-- What is split consists of bytes of the list that it is not split at. -/
theorem mem_splitOnP {α : Type} {p : α → Bool} {l t : List α} (ht : t ∈ l.splitOnP p) :
    ∀ x ∈ t, x ∈ l ∧ p x = false := by
  induction l generalizing t with
  | nil =>
    rw [List.splitOnP_nil, List.mem_singleton] at ht
    subst ht
    intro x hx
    cases hx
  | cons a l ih =>
    intro x hx
    -- the pieces of the tail are pieces of the whole
    have hlater : t ∈ l.splitOnP p → x ∈ a :: l ∧ p x = false := fun h =>
      (ih h x hx).imp (List.mem_cons_of_mem a) id
    obtain ⟨first, others, hsplit⟩ := List.exists_cons_of_ne_nil (List.splitOnP_ne_nil p l)
    rw [List.splitOnP_cons_eq_if_modifyHead, hsplit] at ht
    rw [hsplit] at hlater
    by_cases ha : p a = true
    · rw [if_pos ha] at ht
      rcases List.mem_cons.mp ht with rfl | ht
      · cases hx
      · exact hlater ht
    · rw [if_neg ha, List.modifyHead_cons] at ht
      rcases List.mem_cons.mp ht with rfl | ht
      · rcases List.mem_cons.mp hx with rfl | hx
        · exact ⟨List.mem_cons_self, Bool.eq_false_iff.mpr ha⟩
        · exact (ih (hsplit ▸ List.mem_cons_self) x hx).imp (List.mem_cons_of_mem a) id
      · exact hlater (List.mem_cons_of_mem first ht)

theorem mem_pieces {l t : List Byte} (ht : t ∈ pieces l) :
    ∀ b ∈ t, b ∈ l ∧ isBlank b = false :=
  mem_splitOnP (List.mem_filter.mp ht).1

/-- A string without a blank is one piece. -/
theorem pieces_whole {l : List Byte} (hne : l ≠ []) (hl : ∀ b ∈ l, isBlank b = false) :
    pieces l = [l] := by
  rw [pieces, List.splitOnP_eq_singleton hl]
  exact List.filter_cons_of_pos (decide_eq_true hne)

/-- A string that does not start with a blank starts as its first piece. -/
theorem pieces_head {b : Byte} {l : List Byte} (hb : isBlank b = false) :
    ∃ back rest, pieces (b :: l) = (b :: back) :: rest := by
  obtain ⟨first, others, hsplit⟩ := List.exists_cons_of_ne_nil (List.splitOnP_ne_nil isBlank l)
  refine ⟨first, others.filter (· ≠ []), ?_⟩
  rw [pieces, List.splitOnP_cons_eq_if_modifyHead, hb, hsplit]
  exact List.filter_cons_of_pos (decide_eq_true (List.cons_ne_nil b first))

/-- The pieces as strings. -/
def words (s : CStr) : List CStr :=
  (pieces s.bytes).attach.map fun t => ⟨t.1, fun h => s.noNul (mem_pieces t.2 0 h).1⟩

theorem map_bytes_words (s : CStr) : (words s).map CStr.bytes = pieces s.bytes := by
  rw [words, List.map_map]
  exact List.attach_map_subtype_val _

/-- `wordexp` splits ordinary strings at their blanks. -/
def SplitsAtBlanks (P : System) : Prop :=
  ∀ fs cwd s, Ordinary s → P.wordexp fs cwd s = some (words s)

/-! ## §3. The file that is named. -/

/-- The name of the file that an ordinary path leads to; none if the path is
    blank or the working directory cannot be had. -/
def named (P : System) (fs : FileSys) (cwd : Nat) (path : CStr) : Option CStr :=
  if path.bytes.all isBlank then none
  else if path.bytes.head? = some slash then some path
  else (P.getcwd fs cwd).map fun c => (c.append slashStr).append path

theorem named_cases {fs : FileSys} {cwd : Nat} {path s : CStr} (h : named P fs cwd path = some s) :
    path.bytes.head? = some slash ∧ s = path ∨ path.bytes.head? ≠ some slash ∧
      ∃ c, P.getcwd fs cwd = some c ∧ s = (c.append slashStr).append path := by
  unfold named at h
  split at h
  · cases h
  · split at h
    · rename_i habs
      exact .inl ⟨habs, (Option.some.inj h).symm⟩
    · rename_i hrel
      obtain ⟨c, hc, rfl⟩ := Option.map_eq_some_iff.mp h
      exact .inr ⟨hrel, c, hc, rfl⟩

/-- `abs_path` names the file it was given, or returns `NULL` and an error. -/
def NamesFile (P : System) (path : CStr) (w : World) : Prop :=
  Yields (absPath P path) w fun p w' =>
    match named P w.os.fs w.os.cwd path with
    | some s => OwnStr w.heap.blocks.length w'.heap p s
    | none => p = .null ∧ w'.thread.errCode.isSome

theorem OwnStr.unique {lo lo' : Nat} {h : Heap} {p : Ptr} {s s' : CStr} (ho : OwnStr lo h p s)
    (ho' : OwnStr lo' h p s') : s = s' := by
  have hload := ho.load
  rw [ho'.load] at hload
  exact (Result.ok.inj hload).1.symm

/-- The words of a path without a blank. -/
theorem words_whole {path : CStr} (hne : path.bytes ≠ [])
    (hblank : ∀ b ∈ path.bytes, isBlank b = false) : words path = [path] := by
  have hmap := map_bytes_words path
  rw [pieces_whole hne hblank] at hmap
  obtain ⟨t, ht, hbytes⟩ := List.map_eq_singleton_iff.mp hmap
  rw [ht, CStr.ext hbytes]

/-- Where the first word leads to the file named, there is no blank. -/
theorem no_blank_of_named {fs : FileSys} {cwd : Nat} {path t s : CStr} {rest : List CStr}
    (hwords : words path = t :: rest) (hnamed : named P fs cwd path = some s)
    (hfirst : t.bytes.head? = some slash ∧ s = t ∨
      t.bytes.head? ≠ some slash ∧ ∃ c, P.getcwd fs cwd = some c ∧ s = (c.append slashStr).append t) :
    ∀ b ∈ path.bytes, isBlank b = false := by
  have hpieces : pieces path.bytes = t.bytes :: rest.map CStr.bytes := by
    rw [← map_bytes_words, hwords, List.map_cons]
  have hclean : ∀ b ∈ t.bytes, isBlank b = false := fun b hb =>
    (mem_pieces (hpieces ▸ List.mem_cons_self) b hb).2
  intro b hb
  rcases named_cases hnamed with ⟨habs, rfl⟩ | ⟨-, c, hc, rfl⟩
  · -- the first word is absolute too
    obtain ⟨l, hl⟩ := List.head?_eq_some_iff.mp habs
    obtain ⟨back, others, hpieces'⟩ := pieces_head (b := slash) (l := l) rfl
    rw [← hl, hpieces] at hpieces'
    have hhead : t.bytes.head? = some slash := by
      rw [(List.cons.inj hpieces').1]
      rfl
    rcases hfirst with ⟨-, heq⟩ | ⟨hrel, -⟩
    · exact hclean b (heq ▸ hb)
    · exact absurd hhead hrel
  · rcases hfirst with ⟨-, heq⟩ | ⟨-, c', hc', heq⟩
    · exact hclean b (heq ▸ List.mem_append_right _ hb)
    · rw [hc] at hc'
      cases hc'
      -- behind the same directory the two paths are the same
      have hbytes : path.bytes = t.bytes := List.append_cancel_left (congrArg CStr.bytes heq)
      exact hclean b (hbytes ▸ hb)

/-- **The ordinary paths that `abs_path` names**: those with neither blanks nor
    the need of a working directory that cannot be had. -/
theorem absPath_names_iff (hroom : i.val + 2 < STACK_SIZE) (hrest : Rests i.val w.thread w.thread)
    (hgen : w.heap.Generous) (hsplit : SplitsAtBlanks P) {path : CStr} (hord : Ordinary path) :
    NamesFile P path w ↔ path.bytes ≠ [] ∧ (∀ b ∈ path.bytes, isBlank b = false) ∧
      (path.bytes.head? = some slash ∨ (P.getcwd w.os.fs w.os.cwd).isSome) := by
  have hwords := hsplit w.os.fs w.os.cwd path hord
  constructor
  · rintro ⟨p, w', hrun, hres⟩
    cases hpath : absPathOf P w.os.fs w.os.cwd path with
    | none => exact absurd hrun (absPath_nowhere hroom hrest hgen hwords hpath).not_ok
    | some r =>
      -- the code returns what the first word leads to
      obtain ⟨q, w₁, hrun', hown, -, -⟩ := absPath_yields hroom hrest hgen hpath
      rw [hrun] at hrun'
      cases hrun'
      obtain ⟨t, rest, hwords', hfirst⟩ := absPathOf_cases hpath
      have hsome : words path = t :: rest := Option.some.inj (hwords.symm.trans hwords')
      cases hnamed : named P w.os.fs w.os.cwd path with
      | none =>
        rw [hnamed] at hres
        exact absurd hres.1 hown.ne_null
      | some s =>
        rw [hnamed] at hres
        cases hown.unique hres
        refine ⟨?_, no_blank_of_named hsome hnamed hfirst, ?_⟩
        · intro hnil
          rw [named, hnil] at hnamed
          cases hnamed
        · rcases named_cases hnamed with ⟨habs, -⟩ | ⟨-, c, hc, -⟩
          · exact .inl habs
          · rw [hc]
            exact .inr rfl
  · rintro ⟨hne, hblank, hcwd⟩
    rw [words_whole hne hblank] at hwords
    have hsome : ¬path.bytes.all isBlank = true := by
      obtain ⟨b, l, hbytes⟩ := List.exists_cons_of_ne_nil hne
      intro hall
      have hb : b ∈ path.bytes := hbytes ▸ List.mem_cons_self
      have hyes := List.all_eq_true.mp hall b hb
      rw [hblank b hb] at hyes
      cases hyes
    have hnamed : named P w.os.fs w.os.cwd path = absPathOf P w.os.fs w.os.cwd path := by
      rw [named, if_neg hsome, absPathOf, hwords]
    obtain ⟨s, hs⟩ : ∃ s, absPathOf P w.os.fs w.os.cwd path = some s := by
      rw [absPathOf, hwords]
      by_cases habs : path.bytes.head? = some slash
      · exact ⟨path, if_pos habs⟩
      · obtain ⟨c, hc⟩ := Option.isSome_iff_exists.mp (hcwd.resolve_left habs)
        exact ⟨(c.append slashStr).append path, (if_neg habs).trans (by rw [hc]; rfl)⟩
    refine (absPath_yields hroom hrest hgen hs).mono ?_
    rintro p w' ⟨hown, -⟩
    rw [hnamed, hs]
    exact hown

/-- `housedSystem`, with words. -/
def wordySystem : System := { housedSystem with wordexp := fun _ _ s => some (words s) }

theorem absPath_names_name : NamesFile wordySystem xName (World.start emptyModules 0) :=
  (absPath_names_iff (P := wordySystem) (i := ⟨0, by decide⟩) (by decide)
    (rests_start emptyModules 0) (generous_start emptyModules 0) (fun _ _ _ _ => rfl)
    (by decide)).mpr ⟨by decide, by decide, .inr rfl⟩

/-- `x y`. -/
def xyName : CStr := ⟨ascii "x y", by decide⟩

/-- **Words are lost**: of `x y` only `x` is left. -/
theorem absPath_loses_words : Ordinary xyName ∧
    ¬NamesFile wordySystem xyName (World.start emptyModules 0) := by
  refine ⟨by decide, ?_⟩
  intro ⟨p, w', hrun, hres⟩
  have hpath : absPathOf wordySystem emptyModules 0 xyName =
      some ((tPath.append slashStr).append xName) := by rfl
  obtain ⟨q, w₁, hrun', hown, -, -⟩ := absPath_yields (i := ⟨0, by decide⟩) (by decide)
    (rests_start emptyModules 0) (generous_start emptyModules 0) hpath
  rw [hrun] at hrun'
  cases hrun'
  have hkept : OwnStr _ w'.heap p ((tPath.append slashStr).append xyName) := hres
  cases congrArg CStr.length (hown.unique hkept)

end Prom.Modules
