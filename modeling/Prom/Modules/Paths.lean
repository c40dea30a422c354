/-
  Prom.Modules.Paths — what the functions that build paths return.

  `OwnStr lo h p s` says that `p` is a string of the caller's own: a block no
  older than `lo` that starts with the bytes of `s` and a NUL.  `Calm d w w'`
  says that a call at depth `d` returned without an error and that only the
  heap has changed.  A call has `Made` a string or has `Failed`; either says
  which of the blocks that came during the call are left.

  Main results:
    * `expand_cases`, `absPath_cases` — whatever `malloc` answers, the word or
      path, or an error, and what is left on the heap.
    * `expand_yields`, `absPath_yields` — with memory granted, the word or path
      the system's answers lead to.
    * `absPath_nowhere` — where the words lead to no path, nothing is returned.
    * `getModPath_eq`, `getModPath_denied` — the path of a module.
-/
import Prom.Modules.Commands

namespace Prom.Modules

open Prom.C Exec Heap Dga Errm Posix

/-! ## §1. Returning. -/

/-- A call at depth `d` returned without an error; only the heap has changed. -/
structure Calm (d : Nat) (w w' : World) : Prop where
  thread : Rests d w.thread w'.thread
  noError : w'.thread.errCode = none
  os : w'.os = w.os
  inits : w'.inits = w.inits

/-- A block no older than `lo` with the string `s` at its start. -/
def OwnStr (lo : Nat) (h : Heap) (p : Ptr) (s : CStr) : Prop :=
  ∃ b rest, p = ⟨.heap b, 0⟩ ∧ lo ≤ b ∧ h.At b (strCells s ++ rest)

section Strings

variable {lo : Nat} {h h' : Heap} {p : Ptr} {s : CStr}

theorem loadStr_at {b : Nat} {rest : List Cell} (hat : h.At b (strCells s ++ rest)) :
    loadStr ⟨.heap b, 0⟩ h = .ok s h :=
  loadStr_eq hat.object (cstr_strCells s rest)

theorem loadStr_cells {b : Nat} (hat : h.At b (strCells s)) : loadStr ⟨.heap b, 0⟩ h = .ok s h := by
  rw [← List.append_nil (strCells s)] at hat
  exact loadStr_at hat

theorem OwnStr.load (ho : OwnStr lo h p s) : loadStr p h = .ok s h := by
  obtain ⟨b, rest, rfl, -, hat⟩ := ho
  exact loadStr_at hat

theorem OwnStr.ne_null (ho : OwnStr lo h p s) : p ≠ .null := by
  obtain ⟨b, rest, rfl, -, -⟩ := ho
  exact heap_ne_null b 0

theorem OwnStr.keeps (ho : OwnStr lo h p s) (hk : Keeps h h') : OwnStr lo h' p s := by
  obtain ⟨b, rest, hp, hlo, hat⟩ := ho
  exact ⟨b, rest, hp, hlo, hk.at_ b _ hat⟩

/-- An own string can be freed; what the caller had before is kept. -/
theorem OwnStr.free (ho : OwnStr h.blocks.length h' p s) (hk : Keeps h h') :
    ∃ h'', Heap.free p h' = .ok () h'' ∧ Keeps h h'' := by
  obtain ⟨b, rest, rfl, hlo, hat⟩ := ho
  exact ⟨h'.release b, free_eq hat, hk.release hlo⟩

/-- The string at a static or live address stays. -/
theorem loadStr_keeps (hk : Keeps h h') (hs : loadStr p h = .ok s h) : loadStr p h' = .ok s h' := by
  unfold loadStr at hs ⊢
  cases hobj : h.object p.base with
  | none =>
    rw [hobj] at hs
    cases hs
  | some cells =>
    -- only a heap block can have changed, and a live one has not
    have hobj' : h'.object p.base = some cells := by
      cases hb : p.base with
      | null =>
        rw [hb] at hobj
        cases hobj
      | handle i =>
        rw [hb] at hobj
        cases hobj
      | static o =>
        rw [hb] at hobj
        rwa [Heap.object, hk.statics]
      | heap b =>
        rw [hb] at hobj
        have hat : h.At b cells := Option.join_eq_some_iff.mp hobj
        exact (hk.at_ b cells hat).object
    rw [hobj] at hs
    rw [hobj']
    cases hstr : cstr (cells.drop p.off) with
    | none =>
      simp only [hstr] at hs
      cases hs
    | some s' =>
      simp only [hstr] at hs ⊢
      cases hs
      rfl

end Strings

/-- A call at depth `d` made the string `s`, in the only block that is left of
    it.  What `lost` says, if it is true, may be left too. -/
structure Made (d : Nat) (lost : Prop) (w : World) (s : CStr) (p : Ptr) (w' : World) : Prop where
  block : ∃ b back, p = ⟨.heap b, 0⟩ ∧ w.heap.blocks.length ≤ b ∧ w'.heap.At b (strCells s ++ back) ∧
    Leaves (fun c => c = b ∨ lost) w.heap w'.heap
  calm : Calm d w w'

/-- A call at depth `d` returned `NULL` with an error; no block is left. -/
structure Failed (d : Nat) (lost : Prop) (c : ErrorCode) (w : World) (p : Ptr) (w' : World) :
    Prop where
  null : p = .null
  leaves : Leaves (fun _ => lost) w.heap w'.heap
  thread : Rests d w.thread w'.thread
  code : w'.thread.errCode = some c
  os : w'.os = w.os
  inits : w'.inits = w.inits

theorem Made.own {d : Nat} {lost : Prop} {w w' : World} {s : CStr} {p : Ptr}
    (hm : Made d lost w s p w') : OwnStr w.heap.blocks.length w'.heap p s := by
  obtain ⟨b, back, hp, hlo, hat, -⟩ := hm.block
  exact ⟨b, back, hp, hlo, hat⟩

theorem Made.keeps {d : Nat} {lost : Prop} {w w' : World} {s : CStr} {p : Ptr}
    (hm : Made d lost w s p w') : Keeps w.heap w'.heap := by
  obtain ⟨b, back, -, -, -, hl⟩ := hm.block
  exact hl.keeps

/-! ## §2. Words. -/

/-- The blocks `wordexp` makes for strings. -/
def allocAll (h : Heap) (ss : List CStr) : Heap := ss.foldl (fun h s => h.alloc (strCells s)) h

/-- The addresses of `n` new blocks. -/
def newPtrs (from_ n : Nat) : List Ptr := (List.range' from_ n).map fun b => ⟨.heap b, 0⟩

theorem allocStrings_eq (ss : List CStr) (h : Heap) :
    allocStrings ss h = .ok (newPtrs h.blocks.length ss.length) (allocAll h ss) := by
  induction ss generalizing h with
  | nil => rfl
  | cons s rest ih =>
    have hrest := ih (h.alloc (strCells s))
    rw [length_alloc] at hrest
    rw [allocStrings, get_bind_apply, modify_bind_apply, bind_ok hrest]
    rfl

theorem allocAll_keeps (ss : List CStr) {h h' : Heap} (hk : Keeps h h') : Keeps h (allocAll h' ss) := by
  induction ss generalizing h' with
  | nil => exact hk
  | cons s rest ih => exact ih (hk.alloc (strCells s))

theorem length_allocAll (ss : List CStr) (h : Heap) :
    (allocAll h ss).blocks.length = h.blocks.length + ss.length := by
  induction ss generalizing h with
  | nil => rfl
  | cons s rest ih =>
    rw [allocAll, List.foldl_cons, ← allocAll, ih, length_alloc, List.length_cons]
    omega

theorem requests_allocAll (ss : List CStr) (h : Heap) :
    (allocAll h ss).requests = h.requests + ss.length := by
  induction ss generalizing h with
  | nil => rfl
  | cons s rest ih =>
    rw [allocAll, List.foldl_cons, ← allocAll, ih, List.length_cons]
    show h.requests + 1 + rest.length = _
    omega

theorem allocAll_leaves (ss : List CStr) {own : Nat → Prop} {h h' : Heap} (hl : Leaves own h h') :
    Leaves (fun b => own b ∨ h'.blocks.length ≤ b) h (allocAll h' ss) := by
  induction ss generalizing own h' with
  | nil => exact hl.weaken fun b hb => .inl hb
  | cons s rest ih =>
    refine (ih (hl.alloc (strCells s))).weaken fun b hb => ?_
    rw [length_alloc] at hb
    rcases hb with (hb | hb) | hb
    · exact .inl hb
    · exact .inr (Nat.le_of_eq hb.symm)
    · exact .inr (by omega)

/-- Every string has its block. -/
theorem allocAll_at {ss : List CStr} {h : Heap} {k : Nat} {s : CStr} (hk : ss[k]? = some s) :
    (allocAll h ss).At (h.blocks.length + k) (strCells s) := by
  induction ss generalizing h k with
  | nil => cases hk
  | cons s' rest ih =>
    cases k with
    | zero =>
      cases hk
      exact (allocAll_keeps rest (Keeps.refl _)).at_ _ _ (At_alloc_new h (strCells s))
    | succ k =>
      have hat := ih (h := h.alloc (strCells s')) hk
      rw [length_alloc, Nat.add_assoc, Nat.add_comm 1 k] at hat
      exact hat

/-- The array of words: the pointers and a null pointer. -/
def wordArray (ps : List Ptr) : List Cell := (ps.map encodePtr).flatten ++ encodePtr .null

theorem wordArray_element {ps : List Ptr} {k : Nat} {p : Ptr} (hk : ps[k]? = some p) :
    8 * k + 8 ≤ (wordArray ps).length ∧ slice (wordArray ps) (8 * k) 8 = encodePtr p := by
  have hparts : wordArray ps = (ps.map encodePtr ++ [encodePtr .null]).flatten := by
    rw [List.flatten_append, List.flatten_singleton, wordArray]
  have hwidth : ∀ e ∈ ps.map encodePtr ++ [encodePtr .null], e.length = 8 := by
    intro e he
    rcases List.mem_append.mp he with he | he
    · obtain ⟨q, -, rfl⟩ := List.mem_map.mp he
      exact length_encodePtr q
    · rw [List.mem_singleton.mp he]
      exact length_encodePtr _
  have hlt : k < ps.length := (List.getElem?_eq_some_iff.mp hk).1
  constructor
  · rw [hparts, length_elements hwidth, List.length_append, List.length_map]
    omega
  · rw [hparts]
    apply slice_elements hwidth
    rw [List.getElem?_append_left (by rwa [List.length_map]), List.getElem?_map, hk]
    rfl

theorem loadPtr_wordArray {h : Heap} {bw : Nat} {ps : List Ptr} (hat : h.At bw (wordArray ps))
    {k : Nat} {p : Ptr} (hk : ps[k]? = some p) :
    loadPtr (Ptr.add ⟨.heap bw, 0⟩ (8 * k)) h = .ok p h := by
  obtain ⟨hin, hslice⟩ := wordArray_element hk
  have hoff : Ptr.add ⟨.heap bw, 0⟩ (8 * k) = ⟨.heap bw, 8 * k⟩ := by
    rw [Ptr.add, Nat.zero_add]
  rw [hoff]
  exact loadAs_eq hat hin (by rw [hslice, decodePtr_encodePtr])

theorem newPtrs_get (base : Nat) {n k : Nat} (hk : k < n) : (newPtrs base n)[k]? = some ⟨.heap (base + k), 0⟩ := by
  rw [newPtrs, List.getElem?_map, List.getElem?_range' hk, Option.map_some, Nat.one_mul]

/-- Freeing `n` words of an array, from index `i` on. -/
theorem freeWords_eq {h : Heap} {base total bw : Nat} (hbw : base + total ≤ bw)
    (hat : h.At bw (wordArray (newPtrs base total))) (n i : Nat) (hn : i + n ≤ total)
    (hlive : ∀ k, i ≤ k → k < total → ∃ cs, h.At (base + k) cs) :
    freeWords ⟨.heap bw, 0⟩ n i h = .ok () (h.releaseRange (base + i) n) := by
  induction n generalizing h i with
  | zero => rfl
  | succ n ih =>
    obtain ⟨cs, hword⟩ := hlive i (Nat.le_refl i) (by omega)
    have hload := loadPtr_wordArray hat (newPtrs_get base (show i < total by omega))
    have hrest := ih (h := h.release (base + i)) ((At_release_ne (by omega)).mpr hat) (i + 1)
      (by omega) (fun k hik hkt => by
        obtain ⟨cs', hcs'⟩ := hlive k (by omega) hkt
        exact ⟨cs', (At_release_ne (by omega)).mpr hcs'⟩)
    rw [freeWords, bind_ok hload, bind_ok (free_eq hword), hrest, releaseRange_succ, Nat.add_assoc]

/-- Freeing a `wordexp_t`: the words it counts and their array. -/
theorem wordfree_eq {h : Heap} {base total : Nat}
    (hat : h.At (base + total) (wordArray (newPtrs base total)))
    (hlive : ∀ k, k < total → ∃ cs, h.At (base + k) cs) :
    wordfree (wordexpCells ⟨BitVec.ofNat 64 total, ⟨.heap (base + total), 0⟩⟩) h =
      .ok () ((h.releaseRange base (total % 2 ^ 64)).release (base + total)) := by
  have hwordc : slice (wordexpCells ⟨BitVec.ofNat 64 total, ⟨.heap (base + total), 0⟩⟩) 0 8 =
      encodeSize (BitVec.ofNat 64 total) :=
    slice_middle [] _ (encodePtr ⟨.heap (base + total), 0⟩ ++ fresh 8)
      (by rw [wordexpCells, List.nil_append, List.append_assoc]) rfl (length_encodeSize _)
  have hwordv : slice (wordexpCells ⟨BitVec.ofNat 64 total, ⟨.heap (base + total), 0⟩⟩) 8 8 =
      encodePtr ⟨.heap (base + total), 0⟩ :=
    slice_middle (encodeSize _) _ (fresh 8) rfl (length_encodeSize _) (length_encodePtr _)
  have hfew : total % 2 ^ 64 ≤ total := Nat.mod_le _ _
  have harr : (h.releaseRange base (total % 2 ^ 64)).At (base + total)
      (wordArray (newPtrs base total)) := At_releaseRange.mpr ⟨hat, by omega⟩
  rw [wordfree, hwordc, hwordv, decodeSize_encodeSize, decodePtr_encodePtr]
  simp only [BitVec.toNat_ofNat]
  rw [bind_ok (freeWords_eq (Nat.le_refl _) hat _ 0 (by omega) fun k _ hkt => hlive k hkt),
    Nat.add_zero]
  exact free_eq harr

/-- The words `ws` and the array of pointers to them are in new blocks. -/
structure WordsPut (h : Heap) (ws : List CStr) (h' : Heap) : Prop where
  array : h'.At (h.blocks.length + ws.length) (wordArray (newPtrs h.blocks.length ws.length))
  word : ∀ k s, ws[k]? = some s → h'.At (h.blocks.length + k) (strCells s)
  requests : h'.requests = h.requests + ws.length + 1
  leaves : Leaves (fun c => h.blocks.length ≤ c ∧ c ≤ h.blocks.length + ws.length) h h'

theorem wordsPut (h : Heap) (ws : List CStr) :
    WordsPut h ws ((allocAll h ws).alloc (wordArray (newPtrs h.blocks.length ws.length))) := by
  have hlen : (allocAll h ws).blocks.length = h.blocks.length + ws.length := length_allocAll ws h
  have hl := (allocAll_leaves ws (Leaves.refl h)).alloc (wordArray (newPtrs h.blocks.length ws.length))
  refine ⟨?_, fun k s hk => At_alloc_old (allocAll_at hk), ?_, hl.keeps, fun b cells hat => ?_⟩
  · rw [← hlen]
    exact At_alloc_new _ _
  · exact congrArg (· + 1) (requests_allocAll ws h)
  · have hlt := hat.lt
    rw [length_alloc] at hlt
    exact (hl.only b cells hat).imp id fun hb => ⟨hb.1, hb.1, by omega⟩

section WordsPut

variable {h h' : Heap} {ws : List CStr}

/-- The next request. -/
theorem WordsPut.grants_iff (hp : WordsPut h ws h') :
    h'.Grants ↔ h.grants (h.requests + ws.length + 1) = true := by
  rw [Grants, hp.requests, hp.leaves.keeps.grants]

/-- The first word, as the caller reads it. -/
theorem WordsPut.first {s : CStr} {rest : List CStr} (hp : WordsPut h (s :: rest) h') :
    loadPtr ⟨.heap (h.blocks.length + (s :: rest).length), 0⟩ h' = .ok ⟨.heap h.blocks.length, 0⟩ h' ∧
      loadStr ⟨.heap h.blocks.length, 0⟩ h' = .ok s h' :=
  ⟨loadPtr_wordArray hp.array (newPtrs_get h.blocks.length (Nat.succ_pos rest.length)),
    loadStr_cells (hp.word 0 s rfl)⟩

/-- The words are freed while nothing else has been. -/
theorem WordsPut.free (hp : WordsPut h ws h') {h'' : Heap}
    (hkeep : ∀ b cells, h'.At b cells → h''.At b cells) :
    wordfree
      (wordexpCells ⟨BitVec.ofNat 64 ws.length, ⟨.heap (h.blocks.length + ws.length), 0⟩⟩) h'' =
        .ok () ((h''.releaseRange h.blocks.length (ws.length % 2 ^ 64)).release
          (h.blocks.length + ws.length)) := by
  refine wordfree_eq (hkeep _ _ hp.array) fun k hk => ?_
  exact ⟨_, hkeep _ _ (hp.word k _ (List.getElem?_eq_getElem hk))⟩

end WordsPut

/-! ## §3. The functions that build paths. -/

variable {i : Fin STACK_SIZE} {w : World}

/-- **`emalloc`**: a new block, or `NULL` and an error. -/
theorem emalloc_cases (hrest : Rests i.val w.thread w.thread) (n : Nat) :
    Yields (emalloc n) w fun p w' =>
      (w.heap.Grants ∧ p = ⟨.heap w.heap.blocks.length, 0⟩ ∧ w'.heap = w.heap.alloc (fresh n) ∧
        Calm i.val w w') ∨
      (¬w.heap.Grants ∧ w'.heap = w.heap.deny ∧ Failed i.val False .NOT_ENOUGH_MEMORY w p w') := by
  refine edf_plain hrest ?_
  by_cases hg : w.heap.Grants
  · refine Yields.step (onHeap_eq (malloc_eq hg n)) ?_
    rw [if_neg (heap_ne_null _ _)]
    refine Yields.pure ⟨hrest.enter, fun t ht herr => .inl ⟨hg, rfl, rfl, ht, herr, rfl, rfl⟩⟩
  · refine Yields.step (onHeap_eq (malloc_denied hg n)) ?_
    rw [if_pos rfl]
    refine Yields.of_eq rfl ⟨hrest.enter.setErr _, fun t ht herr => .inr ⟨hg, rfl, rfl, ?_, ht, herr,
      rfl, rfl⟩⟩
    exact (Leaves.refl w.heap).deny

/-- `strcpy` into a new block that is large enough. -/
theorem strcpy_yields {cells : List Cell} {b : Nat} {s : CStr} (hat : w.heap.At b cells)
    (hfit : s.length + 1 ≤ cells.length) :
    ∃ rest, strcpy ⟨.heap b, 0⟩ s w =
      .ok () { w with heap := w.heap.put b (strCells s ++ rest) } := by
  have hin : 0 + (strCells s).length ≤ cells.length := by
    rw [length_strCells]
    omega
  refine ⟨cells.drop (0 + (strCells s).length), ?_⟩
  rw [strcpy, onHeap_eq (store_eq hat hin), splice, List.take_zero, List.nil_append]

/-- `snprintf` of a text that fits. -/
theorem snprintf_yields {cells : List Cell} {b n : Nat} {s : CStr} (hat : w.heap.At b cells)
    (hn : s.length + 1 ≤ n) (hfit : s.length + 1 ≤ cells.length) :
    ∃ rest, snprintf ⟨.heap b, 0⟩ n s w =
      .ok () { w with heap := w.heap.put b (strCells s ++ rest) } := by
  have hwhole : s.bytes.take (n - 1) = s.bytes :=
    List.take_of_length_le (by
      have : s.bytes.length = s.length := rfl
      omega)
  rw [snprintf, if_neg (by omega), hwhole]
  exact strcpy_yields hat hfit

/-- The words of a string and the array of pointers to them. -/
theorem wordexp_eq {P : System} {path : CStr} {words : List CStr}
    (h : P.wordexp w.os.fs w.os.cwd path = some words) :
    wordexp P path w =
      .ok (some ⟨BitVec.ofNat 64 words.length, ⟨.heap (w.heap.blocks.length + words.length), 0⟩⟩)
        { w with
          heap := (allocAll w.heap words).alloc
            (wordArray (newPtrs w.heap.blocks.length words.length)) } := by
  rw [wordexp, bind_ok (onOs_eq (get_apply _)), h]
  show (onHeap (allocStrings words) >>= _) w = _
  rw [bind_ok (onHeap_eq (allocStrings_eq _ _)), ← length_allocAll]
  rfl

/-- What `wordexp` and `emalloc` leave when the words are freed again; more than
    2^64 words are not all counted. -/
theorem words_freed {h h' : Heap} {own : Nat → Prop} {base total : Nat}
    (hbase : base = h.blocks.length)
    (hl : Leaves (fun c => own c ∨ base ≤ c ∧ c ≤ base + total) h h') :
    Leaves (fun c => own c ∨ 2 ^ 64 ≤ total) h
      ((h'.releaseRange base (total % 2 ^ 64)).release (base + total)) := by
  refine ((hl.releaseRange (Nat.le_of_eq hbase.symm)).release (by omega)).weaken ?_
  intro c ⟨⟨hc, hrange⟩, hne⟩
  rcases hc with hc | ⟨hlo, hhi⟩
  · exact .inl hc
  · right
    by_contra hlt
    rw [Nat.mod_eq_of_lt (by omega)] at hrange
    omega

/-- **`expand`**: a copy of the first word, or an error; the words are freed. -/
theorem expand_cases {P : System} (hroom : i.val + 1 < STACK_SIZE)
    (hrest : Rests i.val w.thread w.thread) {path s : CStr} {rest : List CStr}
    (hwords : P.wordexp w.os.fs w.os.cwd path = some (s :: rest)) :
    Yields (expand P path) w fun p w' =>
      w'.heap.requests = w.heap.requests + (s :: rest).length + 2 ∧
      ((w.heap.grants (w.heap.requests + (s :: rest).length + 1) = true ∧
          Made i.val (2 ^ 64 ≤ (s :: rest).length) w s p w') ∨
        (w.heap.grants (w.heap.requests + (s :: rest).length + 1) = false ∧
          Failed i.val (2 ^ 64 ≤ (s :: rest).length) .NOT_ENOUGH_MEMORY w p w')) := by
  let base := w.heap.blocks.length
  let total := (s :: rest).length
  let h₁ := (allocAll w.heap (s :: rest)).alloc (wordArray (newPtrs base total))
  let obj := wordexpCells ⟨BitVec.ofNat 64 total, ⟨.heap (base + total), 0⟩⟩
  have hput : WordsPut w.heap (s :: rest) h₁ := wordsPut w.heap (s :: rest)
  have hobj : obj.length = wordexpSize.toNat := length_wordexpCells _
  refine edf_static hobj (by decide) .wordfree hrest ?_
  refine Yields.step (wordexp_eq (w := w.enter i) hwords) ?_
  have hin : InFrame i (w.thread.stack i) w.thread (w.enter i).thread := hrest.enter
  refine Yields.step (InFrame.staticDefer (w := { w.enter i with heap := h₁ }) hin
    (hrest.2.2 i (Nat.le_refl _)) .wordfree hobj (by decide)) ?_
  have hin₂ := hin.setFrame (withObject (w.thread.stack i) .wordfree wordexpSize obj)
  obtain ⟨hptr, hstr⟩ := hput.first
  refine Yields.step (onHeap_eq hptr) (Yields.step (onHeap_eq hstr) ?_)
  refine (emalloc_cases (i := ⟨i.val + 1, hroom⟩) (hin₂.called hroom) (s.length + 1)).bind ?_
  intro p w₃ hcases
  rcases hcases with ⟨hg, hp, hheap₃, hcalm₃⟩ | ⟨hg, hheap₃, hfail⟩
  · refine Yields.step (errored_false hcalm₃.noError) ?_
    subst hp
    have hnew : w₃.heap.At h₁.blocks.length (fresh (s.length + 1)) := by
      rw [hheap₃]
      exact At_alloc_new _ _
    obtain ⟨back, hcopy⟩ := strcpy_yields (w := w₃) (s := s) hnew
      (Nat.le_of_eq (length_fresh _).symm)
    refine Yields.step hcopy (Yields.pure ⟨hin₂.back hcalm₃.thread, ?_⟩)
    intro t herr hpool
    -- `wordfree` runs last
    have hkeep : ∀ b cells, h₁.At b cells →
        (w₃.heap.put h₁.blocks.length (strCells s ++ back)).At b cells := by
      intro b cells hat
      rw [hheap₃]
      exact At_fill_old hat _ _
    have hl₃ : Leaves (fun c => c = h₁.blocks.length ∨ base ≤ c ∧ c ≤ base + total) w.heap
        (w₃.heap.put h₁.blocks.length (strCells s ++ back)) := by
      rw [hheap₃]
      exact (hput.leaves.fill _ _).weaken fun c hc => hc.symm
    rw [handle]
    refine Yields.step (onThread_eq hpool) (Yields.of_eq (onHeap_eq (hput.free hkeep)) ⟨rfl, ?_⟩)
    intro t' ht' herr'
    refine ⟨?_, .inl ⟨hput.grants_iff.mp hg, ⟨h₁.blocks.length, back, rfl, hput.leaves.keeps.length, ?_,
      words_freed rfl hl₃⟩, ht', ?_, hcalm₃.os, hcalm₃.inits⟩⟩
    · show (releaseRange _ base (total % 2 ^ 64)).requests = _
      rw [requests_releaseRange]
      show w₃.heap.requests = _
      rw [hheap₃]
      exact congrArg (· + 1) hput.requests
    · -- the copy's block is behind the words and their array
      have hafter : base + total < h₁.blocks.length := hput.array.lt
      have hfew : total % 2 ^ 64 ≤ total := Nat.mod_le _ _
      exact (At_release_ne (by omega)).mpr (At_releaseRange.mpr ⟨At_put_same hnew, by omega⟩)
    · show t'.errCode = none
      rw [herr', herr]
      exact hcalm₃.noError
  · -- the copy is refused; the words are freed all the same
    refine Yields.step (errored_true hfail.code) ?_
    refine Yields.pure ⟨hin₂.back hfail.thread, ?_⟩
    intro t herr hpool
    have hkeep : ∀ b cells, h₁.At b cells → w₃.heap.At b cells := by
      intro b cells hat
      rw [hheap₃]
      exact At_deny.mpr hat
    have hl₃ : Leaves (fun c => False ∨ base ≤ c ∧ c ≤ base + total) w.heap w₃.heap := by
      rw [hheap₃]
      exact hput.leaves.deny.weaken fun c hc => .inr hc
    rw [handle]
    refine Yields.step (onThread_eq hpool) (Yields.of_eq (onHeap_eq (hput.free hkeep)) ⟨rfl, ?_⟩)
    intro t' ht' herr'
    have hno := Bool.eq_false_iff.mpr fun hyes => hg (hput.grants_iff.mpr hyes)
    refine ⟨?_, .inr ⟨hno, rfl, (words_freed rfl hl₃).weaken fun c hc => hc.resolve_left id, ht', ?_,
      hfail.os, hfail.inits⟩⟩
    · show (releaseRange _ base (total % 2 ^ 64)).requests = _
      rw [requests_releaseRange, hheap₃]
      exact congrArg (· + 1) hput.requests
    · show t'.errCode = some .NOT_ENOUGH_MEMORY
      rw [herr', herr]
      exact hfail.code

/-- With memory granted. -/
theorem expand_yields {P : System} (hroom : i.val + 1 < STACK_SIZE)
    (hrest : Rests i.val w.thread w.thread) (hgen : w.heap.Generous) {path s : CStr}
    {rest : List CStr} (hwords : P.wordexp w.os.fs w.os.cwd path = some (s :: rest)) :
    Yields (expand P path) w fun p w' => OwnStr w.heap.blocks.length w'.heap p s ∧
      Keeps w.heap w'.heap ∧ Calm i.val w w' := by
  refine (expand_cases hroom hrest hwords).mono ?_
  intro p w' ⟨_, hcases⟩
  rcases hcases with ⟨-, hmade⟩ | ⟨hno, -⟩
  · exact ⟨hmade.own, hmade.keeps, hmade.calm⟩
  · rw [hgen _ (by omega)] at hno
    cases hno

/-- `expand` of what `wordexp` refuses. -/
theorem expand_refused {P : System} (hrest : Rests i.val w.thread w.thread) {path : CStr}
    (hwords : P.wordexp w.os.fs w.os.cwd path = none) :
    Yields (expand P path) w fun p w' => w'.heap = w.heap ∧ Failed i.val False .PARSING_ERROR w p w' := by
  have hwordexp : wordexp P path (w.enter i) = .ok none (w.enter i) := by
    rw [wordexp, bind_ok (onOs_eq (get_apply _)),
      show P.wordexp (w.enter i).os.fs (w.enter i).os.cwd path = none from hwords]
    rfl
  refine edf_plain hrest (Yields.step hwordexp ?_)
  exact Yields.of_eq rfl ⟨hrest.enter.setErr _, fun t ht herr =>
    ⟨rfl, rfl, Leaves.refl _, ht, herr, rfl, rfl⟩⟩

/-- A function that starts with `expand` and returns `NULL` on an error. -/
theorem edf_expand_refused {P : System} (hroom : i.val + 1 < STACK_SIZE)
    (hrest : Rests i.val w.thread w.thread) {path : CStr}
    (hwords : P.wordexp w.os.fs w.os.cwd path = none) (after : Ptr → Exec World Ptr) :
    Yields
      (edf do
        let p ← expand P path
        if ← errored then pure .null else after p)
      w (Failed i.val False .PARSING_ERROR w) := by
  have hin : InFrame i (w.thread.stack i) w.thread (w.enter i).thread := hrest.enter
  refine edf_plain hrest ((expand_refused (i := ⟨i.val + 1, hroom⟩) (w := w.enter i)
    (hin.called hroom) hwords).bind ?_)
  intro p w₁ ⟨_, hfail⟩
  refine Yields.step (errored_true hfail.code) (Yields.pure ⟨hin.back hfail.thread, ?_⟩)
  intro t ht herr
  exact ⟨rfl, hfail.leaves, ht, herr.trans hfail.code, hfail.os, hfail.inits⟩

/-- `expand` of what expands to no word. -/
theorem expand_empty {P : System} (hrest : Rests i.val w.thread w.thread) {path : CStr}
    (hwords : P.wordexp w.os.fs w.os.cwd path = some []) : Undefined (expand P path) w := by
  have hin : InFrame i (w.thread.stack i) w.thread (w.enter i).thread := hrest.enter
  let h₁ := w.heap.alloc (wordArray [])
  let obj := wordexpCells ⟨BitVec.ofNat 64 0, ⟨.heap w.heap.blocks.length, 0⟩⟩
  have hdefer := InFrame.staticDefer (w := { w.enter i with heap := h₁ }) hin
    (hrest.2.2 i (Nat.le_refl _)) .wordfree
    (show obj.length = wordexpSize.toNat from length_wordexpCells _) (by decide)
  -- the array holds the null pointer only
  have hptr : loadPtr ⟨.heap w.heap.blocks.length, 0⟩ h₁ = .ok .null h₁ :=
    loadAs_eq (At_alloc_new _ _) (Nat.le_refl 8) (decodePtr_encodePtr .null)
  refine edf_undefined hrest (Undefined.step (wordexp_eq (w := w.enter i) hwords) ?_)
  refine Undefined.step hdefer (Undefined.step (onHeap_eq hptr) ?_)
  exact Undefined.bind (.of_eq (onHeap_stop rfl)) _

/-! ## §4. Absolute paths. -/

/-- What `abs_path` is to return: the expanded path if it is absolute, else
    the path behind the working directory. -/
def absPathOf (P : System) (fs : FileSys) (cwd : Nat) (path : CStr) : Option CStr :=
  match P.wordexp fs cwd path with
  | some (t :: _) =>
    if t.bytes.head? = some slash then some t
    else (P.getcwd fs cwd).map fun c => (c.append slashStr).append t
  | _ => none

theorem getcwd_eq {P : System} (hg : w.heap.Grants) {c : CStr}
    (hcwd : P.getcwd w.os.fs w.os.cwd = some c) :
    getcwd P w = .ok ⟨.heap w.heap.blocks.length, 0⟩ { w with heap := w.heap.alloc (strCells c) } := by
  have hcopy : strcpy ⟨.heap w.heap.blocks.length, 0⟩ c
      { w with heap := w.heap.alloc (fresh (c.length + 1)) } =
        .ok () { w with heap := w.heap.alloc (strCells c) } := by
    have hin : 0 + (strCells c).length ≤ (fresh (c.length + 1)).length := by
      rw [length_strCells, length_fresh]
      omega
    have hall : splice (fresh (c.length + 1)) 0 (strCells c) = strCells c := by
      rw [splice_middle [] (fresh (c.length + 1)) [] (by simp) List.length_nil
        (by rw [length_fresh, length_strCells]), List.nil_append, List.append_nil]
    have hstore := store_alloc (h := w.heap) hin
    rw [hall] at hstore
    exact onHeap_eq hstore
  rw [getcwd, bind_ok (onOs_eq (get_apply _)), hcwd]
  show (onHeap (malloc (c.length + 1)) >>= _) w = _
  rw [bind_ok (onHeap_eq (malloc_eq hg _)), if_neg (heap_ne_null _ _), bind_ok hcopy]
  rfl

/-- **`abs_path_from_relative`**, the working directory being had: the path
    behind it, or an error; the working directory's block is freed. -/
theorem absPathFromRelative_cases {P : System} (hroom : i.val + 1 < STACK_SIZE)
    (hrest : Rests i.val w.thread w.thread) (path : CStr) {c : CStr}
    (hcwd : P.getcwd w.os.fs w.os.cwd = some c) (hg : w.heap.Grants) :
    Yields (absPathFromRelative P path) w fun p w' =>
      (w.heap.grants (w.heap.requests + 1) = true ∧
        Made i.val False w ((c.append slashStr).append path) p w') ∨
      (w.heap.grants (w.heap.requests + 1) = false ∧
        Failed i.val False .NOT_ENOUGH_MEMORY w p w') := by
  let h₁ := w.heap.alloc (strCells c)
  have hl₁ : Leaves (fun b => b = w.heap.blocks.length) w.heap h₁ :=
    ((Leaves.refl w.heap).alloc _).weaken fun b hb => hb.resolve_left id
  have hat₁ : h₁.At w.heap.blocks.length (strCells c) := At_alloc_new _ _
  have hlen₁ : h₁.blocks.length = w.heap.blocks.length + 1 := length_alloc _ _
  have hin : InFrame i (w.thread.stack i) w.thread (w.enter i).thread := hrest.enter
  refine edf_dyn hrest ?_
  refine Yields.step (getcwd_eq (w := w.enter i) hg hcwd) ?_
  refine Yields.step (InFrame.defer (w := { w.enter i with heap := h₁ }) hin
    (hrest.2.2 i (Nat.le_refl _)) .free _) ?_
  have hin₂ := hin.setFrame { w.thread.stack i with dyns := [(.free, ⟨.heap w.heap.blocks.length, 0⟩)] }
  have hstr : loadStr ⟨.heap w.heap.blocks.length, 0⟩ h₁ = .ok c h₁ :=
    loadStr_cells hat₁
  refine Yields.step (onHeap_eq hstr) ?_
  refine (emalloc_cases (i := ⟨i.val + 1, hroom⟩) (hin₂.called hroom) _).bind ?_
  intro p w₃ hcases
  rcases hcases with ⟨hg₃, hp, hheap₃, hcalm₃⟩ | ⟨hg₃, hheap₃, hfail⟩
  · refine Yields.step (errored_false hcalm₃.noError) ?_
    subst hp
    have hnew : w₃.heap.At h₁.blocks.length (fresh (path.length + 4 + c.length + 4)) := by
      rw [hheap₃]
      exact At_alloc_new _ _
    have hlen : ((c.append slashStr).append path).length + 1 ≤ path.length + 4 + c.length + 4 := by
      rw [CStr.length_append, CStr.length_append, show slashStr.length = 1 from rfl]
      omega
    obtain ⟨back, hprint⟩ := snprintf_yields (w := w₃) hnew hlen (by rw [length_fresh]; exact hlen)
    refine Yields.step hprint (Yields.pure ⟨.free, _, hin₂.back hcalm₃.thread, ?_⟩)
    intro t herr
    -- `free(cwd)` runs last
    have hcwd₃ : (w₃.heap.put h₁.blocks.length
        (strCells ((c.append slashStr).append path) ++ back)).At w.heap.blocks.length (strCells c) := by
      rw [hheap₃]
      exact At_fill_old hat₁ _ _
    have hl₃ : Leaves (fun b => b = w.heap.blocks.length ∨ b = h₁.blocks.length) w.heap
        (w₃.heap.put h₁.blocks.length (strCells ((c.append slashStr).append path) ++ back)) := by
      rw [hheap₃]
      exact hl₁.fill _ _
    refine Yields.of_eq (onHeap_eq (free_eq hcwd₃)) ⟨rfl, ?_⟩
    intro t' ht' herr'
    refine .inl ⟨hg₃, ⟨h₁.blocks.length, back, rfl, hl₁.keeps.length, ?_,
      (hl₃.release (Nat.le_refl _)).weaken fun b hb => .inl (hb.1.resolve_left hb.2)⟩, ht', ?_,
      hcalm₃.os, hcalm₃.inits⟩
    · exact (At_release_ne (by omega)).mpr (At_put_same hnew)
    · show t'.errCode = none
      rw [herr', herr]
      exact hcalm₃.noError
  · refine Yields.step (errored_true hfail.code) ?_
    refine Yields.pure ⟨.free, _, hin₂.back hfail.thread, ?_⟩
    intro t herr
    have hcwd₃ : w₃.heap.At w.heap.blocks.length (strCells c) := by
      rw [hheap₃]
      exact At_deny.mpr hat₁
    have hl₃ : Leaves (fun b => b = w.heap.blocks.length) w.heap w₃.heap := by
      rw [hheap₃]
      exact hl₁.deny
    refine Yields.of_eq (onHeap_eq (free_eq hcwd₃)) ⟨rfl, ?_⟩
    intro t' ht' herr'
    refine .inr ⟨Bool.eq_false_iff.mpr hg₃, rfl,
      (hl₃.release (Nat.le_refl _)).weaken fun b hb => hb.2 hb.1, ht', ?_, hfail.os, hfail.inits⟩
    show t'.errCode = some .NOT_ENOUGH_MEMORY
    rw [herr', herr]
    exact hfail.code

/-- Without a working directory the code takes the length of a null pointer. -/
theorem absPathFromRelative_stops {P : System} (hrest : Rests i.val w.thread w.thread) (path : CStr)
    (hcwd : P.getcwd w.os.fs w.os.cwd = none) : Undefined (absPathFromRelative P path) w := by
  have hget : getcwd P (w.enter i) = .ok .null (w.enter i) := by
    rw [getcwd, bind_ok (onOs_eq (get_apply _)),
      show P.getcwd (w.enter i).os.fs (w.enter i).os.cwd = none from hcwd]
    rfl
  have hdefer := InFrame.defer (w := w.enter i) hrest.enter (hrest.2.2 i (Nat.le_refl _)) .free .null
  refine edf_undefined hrest (Undefined.step hget (Undefined.step hdefer ?_))
  exact Undefined.bind (.of_eq (onHeap_stop rfl)) _

theorem absPathOf_cases {P : System} {fs : FileSys} {cwd : Nat} {path s : CStr}
    (h : absPathOf P fs cwd path = some s) :
    ∃ t rest, P.wordexp fs cwd path = some (t :: rest) ∧
      (t.bytes.head? = some slash ∧ s = t ∨ t.bytes.head? ≠ some slash ∧
        ∃ c, P.getcwd fs cwd = some c ∧ s = (c.append slashStr).append t) := by
  unfold absPathOf at h
  cases hwords : P.wordexp fs cwd path with
  | none =>
    rw [hwords] at h
    cases h
  | some words =>
    cases words with
    | nil =>
      rw [hwords] at h
      cases h
    | cons t rest =>
      rw [hwords] at h
      refine ⟨t, rest, rfl, ?_⟩
      by_cases habs : t.bytes.head? = some slash
      · simp only [if_pos habs] at h
        exact .inl ⟨habs, (Option.some.inj h).symm⟩
      · simp only [if_neg habs] at h
        obtain ⟨c, hc, rfl⟩ := Option.map_eq_some_iff.mp h
        exact .inr ⟨habs, c, hc, rfl⟩

/-- An absolute path starts with a slash. -/
theorem absPathOf_absolute {P : System} {fs : FileSys} {cwd : Nat} {path s : CStr}
    (hcwd : ∀ c, P.getcwd fs cwd = some c → c.bytes.head? = some slash)
    (h : absPathOf P fs cwd path = some s) : s.bytes.head? = some slash := by
  obtain ⟨t, rest, -, ⟨habs, rfl⟩ | ⟨-, c, hc, rfl⟩⟩ := absPathOf_cases h
  · exact habs
  · have hhead := hcwd c hc
    show ((c.bytes ++ [slash]) ++ t.bytes).head? = some slash
    rw [List.head?_append, List.head?_append, hhead]
    rfl

/-- The request `expand` makes for the copy of the first of `n` words, and those
    that `getcwd` and `abs_path_from_relative` make after it. -/
def copyRequest (h : Heap) (n : Nat) : Nat := h.requests + n + 1

/-- With memory granted neither it nor any request after it is refused. -/
theorem grants_copyRequest {h : Heap} (hgen : h.Generous) (n j : Nat) :
    h.grants (copyRequest h n + j) = true := by
  refine hgen _ ?_
  unfold copyRequest
  omega

/-- `abs_path` of a relative word, the working directory being had: the word is
    freed when the path has been made of it. -/
theorem absPath_relative {P : System} (hroom : i.val + 2 < STACK_SIZE)
    (hrest : Rests i.val w.thread w.thread) {path t c : CStr} {lost : Prop} {p : Ptr} {w₁ : World}
    (hrun : expand P path (w.enter i) = .ok p w₁) (hmade : Made (i.val + 1) lost (w.enter i) t p w₁)
    (habs : t.bytes.head? ≠ some slash) (hcwd : P.getcwd w.os.fs w.os.cwd = some c)
    (hg : w₁.heap.Grants) :
    Yields (absPath P path) w fun q w' =>
      (w₁.heap.grants (w₁.heap.requests + 1) = true ∧
        Made i.val lost w ((c.append slashStr).append t) q w') ∨
      (w₁.heap.grants (w₁.heap.requests + 1) = false ∧
        Failed i.val lost .NOT_ENOUGH_MEMORY w q w') := by
  have hin : InFrame i (w.thread.stack i) w.thread (w.enter i).thread := hrest.enter
  have hroom' : i.val + 1 < STACK_SIZE := by omega
  have hin₁ := hin.back hmade.calm.thread
  refine edf_dyn hrest (Yields.step hrun ?_)
  refine Yields.step (errored_false hmade.calm.noError) (Yields.step (onHeap_eq hmade.own.load) ?_)
  rw [if_pos habs]
  -- the word is freed when the path is made: it is deferred here
  refine Yields.step (InFrame.defer (w := w₁) hin₁ (hrest.2.2 i (Nat.le_refl _)) .free p) ?_
  have hin₂ := hin₁.setFrame { w.thread.stack i with dyns := [(.free, p)] }
  have hcwd₁ : P.getcwd w₁.os.fs w₁.os.cwd = some c := by
    rw [hmade.calm.os]
    exact hcwd
  obtain ⟨b, back, hp, hlo, hat, hl⟩ := hmade.block
  subst hp
  refine (absPathFromRelative_cases (i := ⟨i.val + 1, hroom'⟩)
    (w := w₁.withFrame i { w.thread.stack i with dyns := [(.free, ⟨.heap b, 0⟩)] }) hroom
    (hin₂.called hroom') t hcwd₁ hg).mono ?_
  intro q w₂ hcases
  rcases hcases with ⟨hg₂, hmade₂⟩ | ⟨hno, hfail₂⟩
  · refine ⟨.free, ⟨.heap b, 0⟩, hin₂.back hmade₂.calm.thread, ?_⟩
    intro t' herr
    refine Yields.of_eq (onHeap_eq (free_eq (hmade₂.keeps.at_ b _ hat))) ⟨rfl, ?_⟩
    intro t'' ht'' herr'
    obtain ⟨b', back', rfl, hlo', hat', hl'⟩ := hmade₂.block
    -- the path is in a newer block than the word
    have hne : b ≠ b' := by
      have hlt : b < w₁.heap.blocks.length := hat.lt
      have hle : w₁.heap.blocks.length ≤ b' := hlo'
      omega
    refine .inl ⟨hg₂, ⟨b', back', rfl, Nat.le_trans hl.keeps.length hlo',
      (At_release_ne hne).mpr hat', ?_⟩, ht'', ?_, hmade₂.calm.os.trans hmade.calm.os,
      hmade₂.calm.inits.trans hmade.calm.inits⟩
    · exact (hl.freed hl' hlo).weaken fun x hx => hx.imp (fun hb => hb.resolve_right id) id
    · exact herr'.trans (herr.trans hmade₂.calm.noError)
  · refine ⟨.free, ⟨.heap b, 0⟩, hin₂.back hfail₂.thread, ?_⟩
    intro t' herr
    refine Yields.of_eq (onHeap_eq (free_eq (hfail₂.leaves.keeps.at_ b _ hat))) ⟨rfl, ?_⟩
    intro t'' ht'' herr'
    refine .inr ⟨hno, hfail₂.null, ?_, ht'', herr'.trans (herr.trans hfail₂.code),
      hfail₂.os.trans hmade.calm.os, hfail₂.inits.trans hmade.calm.inits⟩
    exact (hl.freed hfail₂.leaves hlo).weaken fun x hx => hx.resolve_left id

/-- **`abs_path`** of a string with a word, the working directory being had where
    it is asked for: the path, or an error, and nothing else is left. -/
theorem absPath_cases {P : System} (hroom : i.val + 2 < STACK_SIZE)
    (hrest : Rests i.val w.thread w.thread) {path t : CStr} {rest : List CStr}
    (hwords : P.wordexp w.os.fs w.os.cwd path = some (t :: rest))
    (hcwd : t.bytes.head? ≠ some slash →
      w.heap.grants (copyRequest w.heap (t :: rest).length) = true →
      (P.getcwd w.os.fs w.os.cwd).isSome ∧
        w.heap.grants (copyRequest w.heap (t :: rest).length + 1) = true) :
    Yields (absPath P path) w fun p w' =>
      (w.heap.grants (copyRequest w.heap (t :: rest).length) = true ∧
        (t.bytes.head? ≠ some slash →
          w.heap.grants (copyRequest w.heap (t :: rest).length + 2) = true) ∧
        ∃ s, absPathOf P w.os.fs w.os.cwd path = some s ∧
          Made i.val (2 ^ 64 ≤ (t :: rest).length) w s p w') ∨
      (¬(w.heap.grants (copyRequest w.heap (t :: rest).length) = true ∧
        (t.bytes.head? ≠ some slash →
          w.heap.grants (copyRequest w.heap (t :: rest).length + 2) = true)) ∧
        Failed i.val (2 ^ 64 ≤ (t :: rest).length) .NOT_ENOUGH_MEMORY w p w') := by
  have hin : InFrame i (w.thread.stack i) w.thread (w.enter i).thread := hrest.enter
  have hroom' : i.val + 1 < STACK_SIZE := by omega
  have hexpand := expand_cases (i := ⟨i.val + 1, hroom'⟩) (w := w.enter i) hroom
    (hin.called hroom') hwords
  obtain ⟨p, w₁, hrun, hreq, hcases⟩ := hexpand
  rcases hcases with ⟨hg, hmade⟩ | ⟨hno, hfail⟩
  · have hgranted : w.heap.grants (copyRequest w.heap (t :: rest).length) = true := hg
    by_cases habs : t.bytes.head? = some slash
    · -- the word is returned as it is
      have hpath : absPathOf P w.os.fs w.os.cwd path = some t := by
        rw [absPathOf, hwords]
        exact if_pos habs
      refine edf_plain hrest (Yields.step hrun ?_)
      refine Yields.step (errored_false hmade.calm.noError) (Yields.step (onHeap_eq hmade.own.load) ?_)
      rw [if_neg (show ¬(t.bytes.head? ≠ some slash) from not_not_intro habs)]
      refine Yields.pure ⟨hin.back hmade.calm.thread, fun t' ht' herr => .inl ⟨hgranted,
        fun hrel => absurd habs hrel, t, hpath, hmade.block, ht', ?_, hmade.calm.os, hmade.calm.inits⟩⟩
      exact herr.trans hmade.calm.noError
    · obtain ⟨hc, hg₁⟩ := hcwd habs hgranted
      obtain ⟨c, hc⟩ := Option.isSome_iff_exists.mp hc
      have hpath : absPathOf P w.os.fs w.os.cwd path = some ((c.append slashStr).append t) := by
        rw [absPathOf, hwords]
        simp only [if_neg habs, hc, Option.map_some]
      -- the requests of the second half follow those of `expand`
      have hgrants : ∀ j, w₁.heap.grants (w₁.heap.requests + j) =
          w.heap.grants (copyRequest w.heap (t :: rest).length + 1 + j) := by
        intro j
        rw [hmade.keeps.grants, hreq]
        rfl
      refine (absPath_relative hroom hrest hrun hmade habs hc ((hgrants 0).trans hg₁)).mono ?_
      intro q w' hcases
      rw [hgrants 1] at hcases
      rcases hcases with ⟨hg₂, hmade₂⟩ | ⟨hno, hfail₂⟩
      · exact .inl ⟨hgranted, fun _ => hg₂, _, hpath, hmade₂⟩
      · exact .inr ⟨fun hyes => Bool.false_ne_true (hno.symm.trans (hyes.2 habs)), hfail₂⟩
  · -- `expand` fails and so does `abs_path`
    refine edf_plain hrest (Yields.step hrun (Yields.step (errored_true hfail.code) ?_))
    refine Yields.pure ⟨hin.back hfail.thread, fun t' ht' herr => .inr ⟨fun hyes => ?_, rfl,
      hfail.leaves, ht', herr.trans hfail.code, hfail.os, hfail.inits⟩⟩
    exact Bool.false_ne_true (hno.symm.trans hyes.1)

/-- With memory granted, where there is a path to return. -/
theorem absPath_yields {P : System} (hroom : i.val + 2 < STACK_SIZE)
    (hrest : Rests i.val w.thread w.thread) (hgen : w.heap.Generous) {path s : CStr}
    (hpath : absPathOf P w.os.fs w.os.cwd path = some s) :
    Yields (absPath P path) w fun p w' => OwnStr w.heap.blocks.length w'.heap p s ∧
      Keeps w.heap w'.heap ∧ Calm i.val w w' := by
  obtain ⟨t, rest, hwords, hcases⟩ := absPathOf_cases hpath
  have hgrants := grants_copyRequest hgen (t :: rest).length
  refine (absPath_cases hroom hrest hwords fun hrel _ => ⟨?_, hgrants 1⟩).mono ?_
  · rcases hcases with ⟨habs, -⟩ | ⟨-, c, hc, -⟩
    · exact absurd habs hrel
    · rw [hc]
      rfl
  · intro p w' houtcome
    rcases houtcome with ⟨_, _, s', hs', hmade⟩ | ⟨hno, _⟩
    · rw [hpath] at hs'
      cases hs'
      exact ⟨hmade.own, hmade.keeps, hmade.calm⟩
    · exact absurd ⟨hgrants 0, fun _ => hgrants 2⟩ hno

/-- `abs_path` of what `wordexp` refuses: an error, and nothing is left. -/
theorem absPath_refused {P : System} (hroom : i.val + 1 < STACK_SIZE)
    (hrest : Rests i.val w.thread w.thread) {path : CStr}
    (hwords : P.wordexp w.os.fs w.os.cwd path = none) :
    Yields (absPath P path) w (Failed i.val False .PARSING_ERROR w) :=
  edf_expand_refused hroom hrest hwords _

/-- `abs_path` of what expands to no word. -/
theorem absPath_empty {P : System} (hroom : i.val + 1 < STACK_SIZE)
    (hrest : Rests i.val w.thread w.thread) {path : CStr}
    (hwords : P.wordexp w.os.fs w.os.cwd path = some []) : Undefined (absPath P path) w := by
  have hin : InFrame i (w.thread.stack i) w.thread (w.enter i).thread := hrest.enter
  refine edf_undefined hrest (Undefined.bind ?_ _)
  exact expand_empty (i := ⟨i.val + 1, hroom⟩) (w := w.enter i) (hin.called hroom) hwords

/-- `abs_path` of a relative path, without a working directory. -/
theorem absPath_homeless {P : System} (hroom : i.val + 2 < STACK_SIZE)
    (hrest : Rests i.val w.thread w.thread) (hgen : w.heap.Generous) {path t : CStr}
    {rest : List CStr} (hwords : P.wordexp w.os.fs w.os.cwd path = some (t :: rest))
    (hrel : t.bytes.head? ≠ some slash) (hcwd : P.getcwd w.os.fs w.os.cwd = none) :
    Undefined (absPath P path) w := by
  have hin : InFrame i (w.thread.stack i) w.thread (w.enter i).thread := hrest.enter
  have hroom' : i.val + 1 < STACK_SIZE := by omega
  obtain ⟨q, w₁, hexpand, hown, hk, hcalm⟩ := expand_yields (i := ⟨i.val + 1, hroom'⟩)
    (w := w.enter i) hroom (hin.called hroom') hgen hwords
  have hin₁ := hin.back hcalm.thread
  have hdefer := InFrame.defer (w := w₁) hin₁ (hrest.2.2 i (Nat.le_refl _)) .free q
  have hin₂ := hin₁.setFrame { w.thread.stack i with dyns := [(.free, q)] }
  refine edf_undefined hrest (Undefined.step hexpand ?_)
  refine Undefined.step (errored_false hcalm.noError) (Undefined.step (onHeap_eq hown.load) ?_)
  rw [if_pos hrel]
  refine Undefined.step hdefer ?_
  exact absPathFromRelative_stops (P := P) (i := ⟨i.val + 1, hroom'⟩)
    (w := w₁.withFrame i { w.thread.stack i with dyns := [(.free, q)] }) (hin₂.called hroom') t
    (by rw [← hcwd]; exact congrArg (fun s : Os => P.getcwd s.fs s.cwd) hcalm.os)

/-- Where the words lead nowhere. -/
theorem absPath_nowhere {P : System} (hroom : i.val + 2 < STACK_SIZE)
    (hrest : Rests i.val w.thread w.thread) (hgen : w.heap.Generous) {path : CStr} {l : List CStr}
    (hwords : P.wordexp w.os.fs w.os.cwd path = some l)
    (hpath : absPathOf P w.os.fs w.os.cwd path = none) : Undefined (absPath P path) w := by
  cases l with
  | nil => exact absPath_empty (by omega) hrest hwords
  | cons t rest =>
    rw [absPathOf, hwords] at hpath
    by_cases habs : t.bytes.head? = some slash
    · simp only [if_pos habs] at hpath
      cases hpath
    · simp only [if_neg habs] at hpath
      exact absPath_homeless hroom hrest hgen hwords habs (Option.map_eq_none_iff.mp hpath)

/-! ## §5. The path of a module. -/

/-- **`get_mod_path`**: the name behind the directory's path. -/
theorem getModPath_eq (hg : w.heap.Grants) (modulesPath name : CStr) :
    ∃ rest, getModPath modulesPath name w =
      .ok ⟨.heap w.heap.blocks.length, 0⟩
        { w with
          heap := w.heap.alloc (strCells (modulesPath.append name) ++ rest)
          thread := { w.thread with errCode := none } } := by
  let w₁ : World := { w with thread := { w.thread with errCode := none } }
  let n := modulesPath.length + name.length + 4
  -- the `+ 4` of the source leaves room for the NUL
  have hlen : (modulesPath.append name).length + 1 ≤ n := by
    rw [CStr.length_append]
    omega
  have hmalloc : onHeap (malloc n) w₁ = .ok ⟨.heap w.heap.blocks.length, 0⟩ _ :=
    onHeap_eq (malloc_eq hg n)
  obtain ⟨rest, hprint⟩ := snprintf_yields (s := modulesPath.append name)
    (w := { w₁ with heap := w.heap.alloc (fresh n) }) (At_alloc_new _ _) hlen
    (by rw [length_fresh]; exact hlen)
  refine ⟨rest, ?_⟩
  rw [getModPath, bind_ok (onThread_eq (errmClear_eq _))]
  show (onHeap (malloc n) >>= _) w₁ = _
  rw [bind_ok hmalloc, if_neg (heap_ne_null _ _)]
  show (snprintf ⟨.heap w.heap.blocks.length, 0⟩ n (modulesPath.append name) >>= _)
    { w₁ with heap := w.heap.alloc (fresh n) } = _
  rw [bind_ok hprint]
  show Result.ok _ { w₁ with heap := (w.heap.alloc (fresh n)).put w.heap.blocks.length _ } = _
  rw [put_alloc]

theorem getModPath_denied (hg : ¬w.heap.Grants) (modulesPath name : CStr) :
    getModPath modulesPath name w =
      .ok .null
        { w with
          heap := w.heap.deny
          thread := { w.thread with errCode := some .NOT_ENOUGH_MEMORY } } := by
  let w₁ : World := { w with thread := { w.thread with errCode := none } }
  let n := modulesPath.length + name.length + 4
  have hmalloc : onHeap (malloc n) w₁ = .ok .null _ := onHeap_eq (malloc_denied hg n)
  rw [getModPath, bind_ok (onThread_eq (errmClear_eq _))]
  show (onHeap (malloc n) >>= _) w₁ = _
  rw [bind_ok hmalloc, if_pos rfl]
  rfl

end Prom.Modules
