/-
  Prom.Dga.SizeArithmetic — whether a block is as large as its header says.

  `_dga_new` and `dga_resize` compute the size of their block modulo 2^64 and
  do not look whether the product or the sum wrapped.  The header then speaks
  of more elements than the block has room for.

  The programs here create, resize, grow and shrink any number of arrays, with
  any arguments and any pattern of refused requests.  After a refusal the
  program goes on with the pointer it had, whose header now holds the length
  that was asked for.

  Main results:
    * `exact_iff_room` — the size asked for is enough exactly when it did not
      wrap.
    * `new_covers_iff`, `resize_covers_iff` — one granted operation leaves a
      large enough block exactly when the exact size is below 2^64.
    * `covers_iff_exact` — so along every run.
    * `new_wraps` — `dga_new(1ul << 61, long)` returns a block of a header
      only.
    * `refused_keeps_iff` — what a refused resize leaves of the array.
-/
import Prom.Dga.Refinement

namespace Prom.Dga

open Prom.C Exec Heap

/-! ## §1. Statements. -/

/-- The block of the array `p` has room for the header and for as many
    elements as the header says, counted over the integers. -/
def Covered (h : Heap) (p : Ptr) : Prop :=
  ∃ b cells len szt, p = arrayPtr b ∧ h.At b cells ∧ dgaLen p h = .ok len h ∧
    loadSize (sztField ⟨.heap b, 0⟩) h = .ok szt h ∧
    headerSize + szt.toNat * len.toNat ≤ cells.length

/-- The operations that set a length. -/
def Cmd.sizing : Cmd → Bool
  | new _ _ _ | resize _ _ | grow _ _ | shrink _ _ => true
  | _ => false

/-- The operation has an array to work on: creating needs none, the others
    need a variable that holds one.  (A refused `_dga_new` gives none.) -/
def Usable (m : Machine) : Cmd → Prop
  | .new _ _ _ => True
  | c => ∃ b, m.vars c.target = some (arrayPtr b)

/-- If its request is granted, the operation returns an array whose block
    covers it. -/
def Covers (c : Cmd) (m : Machine) : Prop :=
  m.heap.Grants → ∃ p m', c.exec m = .ok p m' ∧ Covered m'.heap p

/-- Every operation of a run returns a covered array when its request is
    granted. -/
def CoversAlong : List Cmd → Machine → Prop
  | [], _ => True
  | c :: cs, m => Usable m c → Covers c m ∧ ∀ p m', c.exec m = .ok p m' → CoversAlong cs m'

/-- `n` elements of `szt` bytes and a header are fewer than 2^64 bytes. -/
def Exact (szt n : Size) : Prop := headerSize + szt.toNat * n.toNat < 2 ^ 64

instance (szt n : Size) : Decidable (Exact szt n) := inferInstanceAs (Decidable (_ < _))

/-- The header of the array in a variable. -/
def HeaderOf (m : Machine) (x : Var) (len szt : Size) : Prop :=
  ∃ b cap data, m.vars x = some (arrayPtr b) ∧ Headed m.heap b len szt cap data

/-- The exact size of the array the operation makes is below 2^64; the length
    it makes is the wrapped sum or difference. -/
def ExactStep (m : Machine) : Cmd → Prop
  | .new _ n szt => Exact szt n
  | .resize x k => ∀ len szt, HeaderOf m x len szt → Exact szt k
  | .grow x n => ∀ len szt, HeaderOf m x len szt → Exact szt (len + n)
  | .shrink x n => ∀ len szt, HeaderOf m x len szt → Exact szt (len - n)
  | _ => True

/-- Every granted operation of a run makes an array of less than 2^64 bytes. -/
def ExactAlong : List Cmd → Machine → Prop
  | [], _ => True
  | c :: cs, m => Usable m c →
      (m.heap.Grants → ExactStep m c) ∧ ∀ p m', c.exec m = .ok p m' → ExactAlong cs m'

/-! ## §2. One array. -/

/-- The size asked for is enough exactly when it did not wrap. -/
theorem exact_iff_room (szt n : Size) :
    Exact szt n ↔ headerSize + szt.toNat * n.toNat ≤ (allocBytes szt n).toNat := by
  constructor
  · intro h
    exact Nat.le_of_eq (allocBytes_toNat ⟨n.isLt, h⟩).symm
  · intro h
    exact Nat.lt_of_le_of_lt h (allocBytes szt n).isLt

theorem HeaderOf.unique {m : Machine} {x : Var} {len szt len' szt' : Size}
    (h : HeaderOf m x len szt) (h' : HeaderOf m x len' szt') : len = len' ∧ szt = szt' := by
  obtain ⟨b, cap, data, hv, hb⟩ := h
  obtain ⟨b', cap', data', hv', hb'⟩ := h'
  have hbb := arrayPtr_inj (Option.some.inj (hv.symm.trans hv'))
  subst hbb
  -- both headers are what the same loads return
  have hlen := (loadSize_len hb).symm.trans (loadSize_len hb')
  have hszt := (loadSize_szt hb).symm.trans (loadSize_szt hb')
  injection hlen with hlen
  injection hszt with hszt
  exact ⟨hlen, hszt⟩

/-- For a block with a header, being covered is a matter of its length. -/
theorem covered_iff {h : Heap} {b : Nat} {len szt : Size} {cap data : List Cell}
    (hb : Headed h b len szt cap data) :
    Covered h (arrayPtr b) ↔ szt.toNat * len.toNat ≤ data.length := by
  constructor
  · rintro ⟨b', cells, len', szt', hp, hat, hlen, hszt, hroom⟩
    have hbb := arrayPtr_inj hp
    subst hbb
    rw [dgaLen_eq hb] at hlen
    rw [loadSize_szt hb] at hszt
    injection hlen with hlen
    injection hszt with hszt
    rw [← hlen, ← hszt, hat.unique hb.at_, length_blockCells hb.cap8] at hroom
    omega
  · intro hroom
    refine ⟨b, _, len, szt, rfl, hb.at_, dgaLen_eq hb, loadSize_szt hb, ?_⟩
    rw [length_blockCells hb.cap8]
    omega

/-- A block too short for a header covers nothing. -/
theorem not_covered_of_short {h : Heap} {b : Nat} {cells : List Cell} (hat : h.At b cells)
    (hshort : cells.length < headerSize) : ¬Covered h (arrayPtr b) := by
  rintro ⟨b', cells', len, szt, hp, hat', -, -, hroom⟩
  have hbb := arrayPtr_inj hp
  subst hbb
  rw [hat.unique hat'] at hshort
  omega

/-- **A granted `_dga_new` covers its array exactly when its size did not
    wrap.** -/
theorem new_covers_iff {h : Heap} (hg : h.Grants) (n szt : Size) :
    (∃ p h', dgaNew n szt h = .ok p h' ∧ Covered h' p) ↔ Exact szt n := by
  by_cases hk : (allocBytes szt n).toNat < headerSize
  · -- not even a header: writing it leaves the block
    obtain ⟨h', hstop⟩ := dgaNew_overrun hg n szt hk
    rw [exact_iff_room]
    constructor
    · rintro ⟨p, h'', hok, -⟩
      rw [hstop] at hok
      cases hok
    · intro hroom
      omega
  · obtain ⟨k, hk'⟩ := Nat.le.dest (Nat.not_lt.mp hk)
    have hrun := dgaNew_granted hg n szt hk'.symm
    have hb : Headed (h.alloc (blockCells n (fresh 8) szt (fresh k))) h.blocks.length n szt
        (fresh 8) (fresh k) := ⟨At_alloc_new _ _, length_fresh 8⟩
    have hiff := covered_iff hb
    rw [length_fresh] at hiff
    rw [exact_iff_room, ← hk', Nat.add_le_add_iff_left, ← hiff]
    constructor
    · rintro ⟨p, h', hok, hcov⟩
      rw [hrun] at hok
      cases hok
      exact hcov
    · intro hcov
      exact ⟨_, _, hrun, hcov⟩

/-- **A granted `dga_resize` covers its array exactly when its size did not
    wrap.** -/
theorem resize_covers_iff {h : Heap} {b : Nat} {len szt : Size} {cap data : List Cell}
    (hb : Headed h b len szt cap data) (hg : h.Grants) (k : Size) :
    (∃ p h', dgaResize (arrayPtr b) k h = .ok p h' ∧ Covered h' p) ↔ Exact szt k := by
  have hrun := dgaResize_granted hb hg k
  -- the call returns, so the array it returns is the one in question
  have hcov : (∃ p h', dgaResize (arrayPtr b) k h = .ok p h' ∧ Covered h' p) ↔
      Covered ((h.release b).alloc
        (resized (blockCells k cap szt data) (allocBytes szt k).toNat)) (arrayPtr h.blocks.length) := by
    constructor
    · rintro ⟨p, h', hok, hcov⟩
      rw [hrun] at hok
      cases hok
      exact hcov
    · intro hcov
      exact ⟨_, _, hrun, hcov⟩
  have hat := At_alloc_new (h.release b)
    (resized (blockCells k cap szt data) (allocBytes szt k).toNat)
  rw [length_release] at hat
  rw [hcov, exact_iff_room]
  by_cases hk : (allocBytes szt k).toNat < headerSize
  · constructor
    · intro hcov
      exact absurd hcov (not_covered_of_short hat (by rwa [length_resized]))
    · intro hroom
      omega
  · obtain ⟨j, hj⟩ := Nat.le.dest (Nat.not_lt.mp hk)
    rw [← hj] at hat ⊢
    rw [resized_blockCells hb.cap8] at hat ⊢
    rw [covered_iff ⟨hat, hb.cap8⟩, length_resized, Nat.add_le_add_iff_left]

/-! ## §3. Runs. -/

/-- Each array has a header and a block of its own. -/
structure Tidy (m : Machine) : Prop where
  apart : Apart m
  headed : ∀ x b, m.vars x = some (arrayPtr b) → ∃ len szt, HeaderOf m x len szt

/-- What one operation contributes to a run: it covers its array exactly when
    its size is exact, and then the arrays stay tidy. -/
structure StepFacts (m : Machine) (c : Cmd) : Prop where
  covers : Covers c m ↔ (m.heap.Grants → ExactStep m c)
  tidy : (m.heap.Grants → ExactStep m c) → ∀ p m', c.exec m = .ok p m' → Tidy m'

theorem HeaderOf.elsewhere {m : Machine} {h' : Heap} {vars' : Var → Option Ptr} {x : Var}
    {len szt : Size} (hh : HeaderOf m x len szt) (hvar : vars' x = m.vars x)
    (hkeep : ∀ b cells, m.vars x = some (arrayPtr b) → m.heap.At b cells → h'.At b cells) :
    HeaderOf ⟨h', vars'⟩ x len szt := by
  obtain ⟨b, cap, data, hv, hb⟩ := hh
  exact ⟨b, cap, data, hvar.trans hv, hkeep b _ hv hb.at_, hb.cap8⟩

/-- A new block with a header in `x`, everything else kept. -/
theorem Tidy.install {m : Machine} (ht : Tidy m) {x : Var} {h' : Heap} {len szt : Size}
    {cap data : List Cell} (hnew : Headed h' m.heap.blocks.length len szt cap data)
    (hkeep : ∀ y b cells, y ≠ x → m.vars y = some (arrayPtr b) → m.heap.At b cells → h'.At b cells) :
    Tidy ⟨h', Function.update m.vars x (some (arrayPtr m.heap.blocks.length))⟩ := by
  refine ⟨ht.apart.assign x hnew.at_.lt, ?_⟩
  intro y b hv
  by_cases hy : y = x
  · subst hy
    exact ⟨len, szt, m.heap.blocks.length, cap, data, Function.update_self _ _ _, hnew⟩
  · have hother := Function.update_of_ne hy (some (arrayPtr m.heap.blocks.length)) m.vars
    simp only [hother] at hv
    obtain ⟨len', szt', hh⟩ := ht.headed y b hv
    exact ⟨len', szt', hh.elsewhere hother fun b' cells hv' hat => hkeep y b' cells hy hv' hat⟩

theorem new_facts {m : Machine} (ht : Tidy m) (x : Var) (n szt : Size) :
    StepFacts m (.new x n szt) := by
  have hexec : ∀ {p h'}, dgaNew n szt m.heap = .ok p h' →
      (Cmd.new x n szt).exec m = .ok p ⟨h', Function.update m.vars x (some p)⟩ := by
    intro p h' hrun
    rw [Cmd.exec, bind_ok (zoom_ok hrun)]
    rfl
  constructor
  · -- the machine returns what `_dga_new` returns, on the same heap
    apply forall_congr'
    intro hg
    rw [ExactStep, ← new_covers_iff hg]
    constructor
    · rintro ⟨p, m', hrun, hcov⟩
      cases hnew : dgaNew n szt m.heap with
      | ok p' h' =>
        rw [hexec hnew] at hrun
        cases hrun
        exact ⟨_, _, rfl, hcov⟩
      | stop e h' =>
        rw [Cmd.exec, bind_stop (zoom_stop hnew)] at hrun
        cases hrun
    · rintro ⟨p, h', hnew, hcov⟩
      exact ⟨p, _, hexec hnew, hcov⟩
  · intro hexact p m' hrun
    by_cases hg : m.heap.Grants
    · have hroom := allocBytes_toNat ⟨n.isLt, hexact hg⟩
      have hnew := dgaNew_granted hg n szt hroom
      rw [hexec hnew] at hrun
      cases hrun
      exact ht.install ⟨At_alloc_new _ _, length_fresh 8⟩ fun y b cells _ _ hat => At_alloc_old hat
    · -- a refusal leaves `x` with no array
      rw [hexec (dgaNew_denied hg n szt)] at hrun
      cases hrun
      have hother : ∀ y b, Function.update m.vars x (some (Ptr.null.add headerSize)) y =
          some (arrayPtr b) → y ≠ x := by
        intro y b hv hy
        subst hy
        rw [Function.update_self] at hv
        cases hv
      constructor
      · constructor
        · intro y b hv
          have hne := hother y b hv
          exact ht.apart.live y b ((Function.update_of_ne hne _ _).symm.trans hv)
        · intro y z b hv₁ hv₂
          exact ht.apart.inj y z b
            ((Function.update_of_ne (hother y b hv₁) _ _).symm.trans hv₁)
            ((Function.update_of_ne (hother z b hv₂) _ _).symm.trans hv₂)
      · intro y b hv
        have hupd := Function.update_of_ne (hother y b hv) (some (Ptr.null.add headerSize)) m.vars
        obtain ⟨len', szt', hh⟩ := ht.headed y b (hupd.symm.trans hv)
        exact ⟨len', szt', hh.elsewhere hupd fun b' cells _ hat => hat⟩

theorem resize_facts {m : Machine} (ht : Tidy m) {x : Var} {b : Nat}
    (hv : m.vars x = some (arrayPtr b)) (k : Size) : StepFacts m (.resize x k) := by
  obtain ⟨len, szt, hh⟩ := ht.headed x b hv
  obtain ⟨b', cap, data, hv', hb⟩ := id hh
  have hbb := arrayPtr_inj (Option.some.inj (hv'.symm.trans hv))
  subst hbb
  -- the element size is the one in the header
  have hexact : ExactStep m (.resize x k) ↔ Exact szt k := by
    constructor
    · intro h
      exact h len szt hh
    · intro h len' szt' hh'
      rwa [(hh'.unique hh).2]
  have hgranted : m.heap.Grants → (Cmd.resize x k).exec m = .ok (arrayPtr m.heap.blocks.length)
      ⟨(m.heap.release b').alloc
          (resized (blockCells k cap szt data) (allocBytes szt k).toNat),
        Function.update m.vars x (some (arrayPtr m.heap.blocks.length))⟩ := by
    intro hg
    rw [Cmd.exec, bind_ok (var_eq hv'), bind_ok (zoom_ok (dgaResize_granted hb hg k)),
      keep_ne_null (arrayPtr_ne_null _)]
    rfl
  constructor
  · apply forall_congr'
    intro hg
    rw [hexact, ← resize_covers_iff hb hg, hgranted hg, dgaResize_granted hb hg]
    constructor
    · rintro ⟨p, m', hrun, hcov⟩
      cases hrun
      exact ⟨_, _, rfl, hcov⟩
    · rintro ⟨p, h', hrun, hcov⟩
      cases hrun
      exact ⟨_, _, rfl, hcov⟩
  · intro hstep p m' hrun
    by_cases hg : m.heap.Grants
    · have hroom := allocBytes_toNat ⟨k.isLt, hexact.mp (hstep hg)⟩
      rw [hgranted hg, hroom, resized_blockCells hb.cap8] at hrun
      cases hrun
      have hat := At_alloc_new (m.heap.release b')
        (blockCells k cap szt (resized data (szt.toNat * k.toNat)))
      rw [length_release] at hat
      refine ht.install ⟨hat, hb.cap8⟩ ?_
      intro y b cells hne hvy hcells
      exact At_alloc_old ((At_release_ne (ht.apart.block_ne hv' hvy hne)).mpr hcells)
    · -- a refusal leaves the block, with the length asked for in its header
      rw [Cmd.exec, bind_ok (var_eq hv'), bind_ok (zoom_ok (dgaResize_denied hb hg k))] at hrun
      cases hrun
      refine ⟨ht.apart.same (length_put m.heap b' _), ?_⟩
      intro y b hvy
      by_cases hy : y = x
      · subst hy
        exact ⟨k, szt, b', cap, data, hv', At_put_same hb.at_, hb.cap8⟩
      · obtain ⟨len', szt', hh'⟩ := ht.headed y b hvy
        refine ⟨len', szt', hh'.elsewhere rfl ?_⟩
        intro b'' cells hvy' hat
        exact (At_put_ne (ht.apart.block_ne hv' hvy' hy)).mpr hat

/-- Growing and shrinking are resizes to a length computed from the header. -/
theorem relative_facts {m : Machine} (ht : Tidy m) {x : Var} {b : Nat}
    (hv : m.vars x = some (arrayPtr b)) {c : Cmd} {op : Ptr → Exec Heap Ptr} {f : Size → Size}
    (hc : c.exec = do let p ← var x; keep x (← zoom heapLens (op p)))
    (hop : ∀ {b len szt cap data}, Headed m.heap b len szt cap data →
      op (arrayPtr b) m.heap = dgaResize (arrayPtr b) (f len) m.heap)
    (hexact : ExactStep m c ↔ ∀ len szt, HeaderOf m x len szt → Exact szt (f len)) :
    StepFacts m c := by
  obtain ⟨len, szt, hh⟩ := ht.headed x b hv
  obtain ⟨b', cap, data, hv', hb⟩ := id hh
  have hf := resize_facts ht hv (f len)
  -- `op` is a resize to `f len`
  have hexec : c.exec m = (Cmd.resize x (f len)).exec m := by
    rw [hc, Cmd.exec, bind_ok (var_eq hv'), bind_ok (var_eq hv')]
    apply Exec.bind_congr
    simp only [zoom, heapLens, hop hb]
  have hstep : ExactStep m c ↔ ExactStep m (.resize x (f len)) := by
    rw [hexact]
    constructor
    · intro h len' szt' hh'
      rw [(hh'.unique hh).2]
      exact h len szt hh
    · intro h len' szt' hh'
      rw [(hh'.unique hh).1, (hh'.unique hh).2]
      exact h len szt hh
  constructor
  · rw [Covers, hexec, hstep]
    exact hf.covers
  · rw [hexec, hstep]
    exact hf.tidy

theorem step_facts {m : Machine} (ht : Tidy m) {c : Cmd} (hc : c.sizing = true)
    (hu : Usable m c) : StepFacts m c := by
  cases c with
  | new x n szt => exact new_facts ht x n szt
  | resize x k =>
    obtain ⟨b, hv⟩ := hu
    exact resize_facts ht hv k
  | grow x n =>
    obtain ⟨b, hv⟩ := hu
    exact relative_facts ht hv rfl (fun hb => dgaGrow_eq hb n) Iff.rfl
  | shrink x n =>
    obtain ⟨b, hv⟩ := hu
    exact relative_facts ht hv rfl (fun hb => dgaShrink_eq hb n) Iff.rfl
  | write x i v => cases hc
  | dup y x => cases hc
  | free x => cases hc

theorem Tidy.start (h : Heap) : Tidy (Machine.start h) := by
  refine ⟨Apart.start h, ?_⟩
  intro x b hv
  cases hv

theorem run_covers_iff {cs : List Cmd} (hcs : ∀ c ∈ cs, c.sizing = true) {m : Machine}
    (ht : Tidy m) : CoversAlong cs m ↔ ExactAlong cs m := by
  induction cs generalizing m with
  | nil => exact Iff.rfl
  | cons c cs ih =>
    have htail : ∀ c' ∈ cs, c'.sizing = true := fun c' h => hcs c' (List.mem_cons_of_mem c h)
    apply forall_congr'
    intro hu
    have hf := step_facts ht (hcs c List.mem_cons_self) hu
    rw [hf.covers]
    -- an exact step keeps the arrays tidy, so the rest of the run agrees
    apply and_congr_right
    intro hexact
    apply forall_congr'
    intro p
    apply forall_congr'
    intro m'
    apply forall_congr'
    intro hrun
    exact ih htail (hf.tidy hexact p m' hrun)

/-- **The representation invariant under `size_t` arithmetic.**  Along every
    run, each granted operation returns an array whose block holds its header
    and all its elements, if and only if each granted operation makes an array
    of less than 2^64 bytes. -/
theorem covers_iff_exact (h : Heap) (cs : List Cmd) (hcs : ∀ c ∈ cs, c.sizing = true) :
    CoversAlong cs (Machine.start h) ↔ ExactAlong cs (Machine.start h) :=
  run_covers_iff hcs (Tidy.start h)

/-- A heap that grants every request. -/
def emptyHeap : Heap := ⟨[], [], fun _ => true, 0⟩

/-- Growing an array of two longs by one is exact and covered. -/
theorem small_array_covered : CoversAlong [.new 0 2 8, .grow 0 1] (Machine.start emptyHeap) := by
  rw [covers_iff_exact _ _ (by decide)]
  intro _
  refine ⟨fun _ => (by decide : Exact 8 2), ?_⟩
  intro p m' hrun _
  have hnew := dgaNew_granted (show emptyHeap.Grants from rfl) 2 8
    (show (allocBytes 8 2).toNat = headerSize + 16 by decide)
  rw [Cmd.exec, bind_ok (zoom_ok hnew)] at hrun
  cases hrun
  refine ⟨fun _ len szt hh => ?_, fun _ _ _ => trivial⟩
  have hhead : HeaderOf ⟨emptyHeap.alloc (blockCells 2 (fresh 8) 8 (fresh 16)),
      Function.update (fun _ => none) 0 (some (arrayPtr 0))⟩ 0 2 8 :=
    ⟨0, fresh 8, fresh 16, rfl, At_alloc_new _ _, length_fresh 8⟩
  rw [(hh.unique hhead).1, (hh.unique hhead).2]
  decide

/-- **`dga_new(1ul << 61, long)` asks for a header only** and returns an array
    of 2^61 elements on it. -/
theorem new_wraps :
    ¬CoversAlong [.new 0 (BitVec.ofNat 64 (2 ^ 61)) 8] (Machine.start emptyHeap) := by
  rw [run_covers_iff (by decide) (Tidy.start emptyHeap)]
  intro hexact
  have hsize : Exact 8 (BitVec.ofNat 64 (2 ^ 61)) := (hexact trivial).1 rfl
  exact absurd hsize (by decide)

/-! ## §4. A refused resize. -/

/-- The call returns `NULL` and leaves the array what it was: its block is
    live, with the same length and the same elements, and as large as its
    header says if it was so before. -/
def FailsKeeping (op : Exec Heap Ptr) (h : Heap) (b : Nat) (len szt : Size)
    (cap data : List Cell) : Prop :=
  ∃ h', op h = .ok .null h' ∧ dgaLen (arrayPtr b) h' = .ok len h' ∧
    Headed h' b len szt cap data ∧ (Covered h (arrayPtr b) → Covered h' (arrayPtr b))

section Refused

variable {h : Heap} {b : Nat} {len szt : Size} {cap data : List Cell}

/-- The length is written before the request: only a resize to the length there
    is leaves the array alone. -/
theorem dgaResize_keeps_iff (hb : Headed h b len szt cap data) (hg : ¬h.Grants) (m : Size) :
    FailsKeeping (dgaResize (arrayPtr b) m) h b len szt cap data ↔ m = len := by
  have hrun := dgaResize_denied hb hg m
  have hb' : Headed (h.put b (blockCells m cap szt data)).deny b m szt cap data :=
    ⟨At_put_same hb.at_, hb.cap8⟩
  constructor
  · rintro ⟨h', hok, hlen, -⟩
    rw [hrun] at hok
    cases hok
    rw [dgaLen_eq hb'] at hlen
    injection hlen
  · rintro rfl
    refine ⟨_, hrun, dgaLen_eq hb', hb', fun hcov => ?_⟩
    rw [covered_iff hb']
    exact (covered_iff hb).mp hcov

/-- **What a refused resize leaves.**  It returns `NULL` and leaves the array as
    it was exactly when no other length was asked for. -/
theorem refused_keeps_iff (hb : Headed h b len szt cap data) (hg : ¬h.Grants) :
    (∀ m, FailsKeeping (dgaResize (arrayPtr b) m) h b len szt cap data ↔ m = len) ∧
      (∀ n, FailsKeeping (dgaGrow (arrayPtr b) n) h b len szt cap data ↔ n = 0) ∧
      (∀ n, FailsKeeping (dgaShrink (arrayPtr b) n) h b len szt cap data ↔ n = 0) := by
  refine ⟨dgaResize_keeps_iff hb hg, fun n => ?_, fun n => ?_⟩
  · -- growing by `n` is a resize to `len + n`, and that is `len` only for 0
    have hkeeps := dgaResize_keeps_iff hb hg (len + n)
    rw [FailsKeeping] at hkeeps ⊢
    rw [dgaGrow_eq hb, hkeeps]
    constructor
    · intro h
      bv_omega
    · rintro rfl
      exact BitVec.add_zero len
  · have hkeeps := dgaResize_keeps_iff hb hg (len - n)
    rw [FailsKeeping] at hkeeps ⊢
    rw [dgaShrink_eq hb, hkeeps]
    constructor
    · intro h
      bv_omega
    · rintro rfl
      exact BitVec.sub_zero len

end Refused

/-- An array of one long on a heap that grants nothing more. -/
def oneLong : Heap := ⟨[some (blockCells 1 (fresh 8) 8 (fresh 8))], [], fun _ => false, 1⟩

theorem oneLong_headed : Headed oneLong 0 1 8 (fresh 8) (fresh 8) := ⟨rfl, length_fresh 8⟩

theorem refused_keeps_zero : FailsKeeping (dgaGrow (arrayPtr 0) 0) oneLong 0 1 8 (fresh 8) (fresh 8) :=
  ((refused_keeps_iff oneLong_headed (by decide)).2.1 0).mpr rfl

/-- **A refused `dga_grow(arr, 1)`** leaves an array that says it has two
    elements, in a block with room for one. -/
theorem refused_grow_overruns :
    ¬(∀ (h : Heap) (b : Nat) (len szt : Size) (cap data : List Cell),
        Headed h b len szt cap data → ¬h.Grants →
        ∀ n, FailsKeeping (dgaGrow (arrayPtr b) n) h b len szt cap data) ∧
      Covered oneLong (arrayPtr 0) ∧
      ∃ h', dgaGrow (arrayPtr 0) 1 oneLong = .ok .null h' ∧ dgaLen (arrayPtr 0) h' = .ok 2 h' ∧
        ¬Covered h' (arrayPtr 0) := by
  have hb' : Headed (oneLong.put 0 (blockCells 2 (fresh 8) 8 (fresh 8))).deny 0 2 8 (fresh 8)
      (fresh 8) := ⟨rfl, length_fresh 8⟩
  have hrun : dgaGrow (arrayPtr 0) 1 oneLong =
      .ok .null (oneLong.put 0 (blockCells 2 (fresh 8) 8 (fresh 8))).deny := by
    rw [dgaGrow_eq oneLong_headed]
    exact dgaResize_denied oneLong_headed (by decide) 2
  refine ⟨fun hkeeps => ?_, (covered_iff oneLong_headed).mpr (by decide), _, hrun, dgaLen_eq hb', ?_⟩
  · obtain ⟨h', hok, hlen, -⟩ := hkeeps oneLong 0 1 8 _ _ oneLong_headed (by decide) 1
    rw [hrun] at hok
    cases hok
    rw [dgaLen_eq hb'] at hlen
    injection hlen with hlen
    exact absurd hlen (by decide)
  · rw [covered_iff hb']
    decide

end Prom.Dga
