/-
  Prom.C.Heap — malloc, realloc, free, and access to what they return.

  A heap is a list of blocks, a freed one being `none`; a new block comes at
  the end, so a block number is never used twice.  Which requests are granted
  is decided by `grants`, request by request; a granted request yields a block
  of exactly the number of bytes asked for.  A granted `realloc` always moves.

  An access outside a live block, a write to a static object, a `free` of
  anything but the start of a live block, and reading a cell as something it
  does not hold are undefined behaviour.

  Main results:
    * `load_eq`, `store_eq`, `malloc_eq`, `realloc_eq`, `free_eq` — what each
      operation does to a live block.
    * `At_put_ne`, `At_alloc_old`, `At_release_ne` — what it leaves alone.
-/
import Prom.C.Cell
import Prom.C.Exec

namespace Prom.C

/-- The memory of a process. -/
structure Heap where
  blocks : List (Option (List Cell))
  /-- The static objects; they are read only. -/
  statics : List (List Cell)
  /-- Whether the `i`-th request for memory is granted. -/
  grants : Nat → Bool
  /-- The requests made so far. -/
  requests : Nat

namespace Heap

open Exec

/-! ## §1. States. -/

/-- Block `b` is live and holds these cells. -/
def At (h : Heap) (b : Nat) (cells : List Cell) : Prop := h.blocks[b]? = some (some cells)

/-- The next request will be granted. -/
def Grants (h : Heap) : Prop := h.grants h.requests = true

instance (h : Heap) : Decidable h.Grants := inferInstanceAs (Decidable (_ = _))

/-- Block `b` now holds these cells. -/
def put (h : Heap) (b : Nat) (cells : List Cell) : Heap :=
  { h with blocks := h.blocks.set b (some cells) }

/-- A request was granted with a new block. -/
def alloc (h : Heap) (cells : List Cell) : Heap :=
  { h with blocks := h.blocks ++ [some cells], requests := h.requests + 1 }

/-- A request was refused. -/
def deny (h : Heap) : Heap := { h with requests := h.requests + 1 }

/-- Block `b` is freed. -/
def release (h : Heap) (b : Nat) : Heap := { h with blocks := h.blocks.set b none }

/-- The cells a pointer points into. -/
def object (h : Heap) : Base → Option (List Cell)
  | .null => none
  | .heap b => h.blocks[b]?.join
  | .static o => h.statics[o]?
  | .handle _ => none

theorem At.lt {h : Heap} {b : Nat} {cells : List Cell} (hat : h.At b cells) :
    b < h.blocks.length :=
  (List.getElem?_eq_some_iff.mp hat).1

theorem At.unique {h : Heap} {b : Nat} {cells cells' : List Cell} (hat : h.At b cells)
    (hat' : h.At b cells') : cells = cells' :=
  Option.some.inj (Option.some.inj (hat.symm.trans hat'))

theorem At.object {h : Heap} {b : Nat} {cells : List Cell} (hat : h.At b cells) :
    h.object (.heap b) = some cells := by
  rw [Heap.object, show h.blocks[b]? = some (some cells) from hat, Option.join_some]

theorem At_put_same {h : Heap} {b : Nat} {cells new : List Cell} (hat : h.At b cells) :
    (h.put b new).At b new :=
  List.getElem?_set_self hat.lt

theorem At_put_ne {h : Heap} {b b' : Nat} {cells new : List Cell} (hne : b ≠ b') :
    (h.put b new).At b' cells ↔ h.At b' cells := by
  rw [At, At, put, List.getElem?_set_ne hne]

@[simp] theorem release_put (h : Heap) (b : Nat) (cells : List Cell) :
    (h.put b cells).release b = h.release b := by
  simp only [put, release, List.set_set]

theorem At_alloc_new (h : Heap) (cells : List Cell) : (h.alloc cells).At h.blocks.length cells :=
  List.getElem?_concat_length

/-- Writing to the newest block. -/
theorem put_alloc (h : Heap) (cells new : List Cell) :
    (h.alloc cells).put h.blocks.length new = h.alloc new := by
  simp only [alloc, put, List.set_append_right _ _ (Nat.le_refl _), Nat.sub_self, List.set_cons_zero]

theorem At_alloc_old {h : Heap} {b : Nat} {cells new : List Cell} (hat : h.At b cells) :
    (h.alloc new).At b cells :=
  (List.getElem?_append_left hat.lt).trans hat

theorem At_alloc_iff {h : Heap} {b : Nat} {cells new : List Cell} (hne : b ≠ h.blocks.length) :
    (h.alloc new).At b cells ↔ h.At b cells := by
  constructor
  · intro hat
    have hlt : b < h.blocks.length := by
      have := hat.lt
      simp only [alloc, List.length_append, List.length_singleton] at this
      omega
    exact (List.getElem?_append_left hlt).symm.trans hat
  · exact At_alloc_old

theorem At_release_ne {h : Heap} {b b' : Nat} {cells : List Cell} (hne : b ≠ b') :
    (h.release b).At b' cells ↔ h.At b' cells := by
  rw [At, At, release, List.getElem?_set_ne hne]

theorem not_At_release (h : Heap) (b : Nat) (cells : List Cell) : ¬(h.release b).At b cells := by
  intro hat
  have hlt : b < h.blocks.length := by simpa only [release, List.length_set] using hat.lt
  rw [At, release, List.getElem?_set_self hlt] at hat
  cases hat

@[simp] theorem At_deny {h : Heap} {b : Nat} {cells : List Cell} :
    h.deny.At b cells ↔ h.At b cells := Iff.rfl

@[simp] theorem length_put (h : Heap) (b : Nat) (cells : List Cell) :
    (h.put b cells).blocks.length = h.blocks.length := List.length_set

@[simp] theorem length_alloc (h : Heap) (cells : List Cell) :
    (h.alloc cells).blocks.length = h.blocks.length + 1 := List.length_append

@[simp] theorem length_release (h : Heap) (b : Nat) :
    (h.release b).blocks.length = h.blocks.length := List.length_set

@[simp] theorem grants_put (h : Heap) (b : Nat) (cells : List Cell) :
    (h.put b cells).Grants ↔ h.Grants := Iff.rfl

@[simp] theorem grants_release (h : Heap) (b : Nat) : (h.release b).Grants ↔ h.Grants := Iff.rfl

/-- Every request from now on will be granted. -/
def Generous (h : Heap) : Prop := ∀ i, h.requests ≤ i → h.grants i = true

theorem Generous.grants {h : Heap} (hg : h.Generous) : h.Grants := hg h.requests (Nat.le_refl _)

/-- `h'` still has every live block of `h`. -/
structure Keeps (h h' : Heap) : Prop where
  at_ : ∀ b cells, h.At b cells → h'.At b cells
  length : h.blocks.length ≤ h'.blocks.length
  statics : h'.statics = h.statics
  grants : h'.grants = h.grants
  requests : h.requests ≤ h'.requests

theorem Keeps.refl (h : Heap) : Keeps h h :=
  ⟨fun _ _ hat => hat, Nat.le_refl _, rfl, rfl, Nat.le_refl _⟩

theorem Keeps.trans {h h' h'' : Heap} (hk : Keeps h h') (hk' : Keeps h' h'') : Keeps h h'' :=
  ⟨fun b cells hat => hk'.at_ b cells (hk.at_ b cells hat), Nat.le_trans hk.length hk'.length,
    hk'.statics.trans hk.statics, hk'.grants.trans hk.grants, Nat.le_trans hk.requests hk'.requests⟩

theorem Keeps.generous {h h' : Heap} (hk : Keeps h h') (hg : h.Generous) : h'.Generous := by
  intro i hi
  rw [hk.grants]
  exact hg i (Nat.le_trans hk.requests hi)

theorem Keeps.alloc {h h' : Heap} (hk : Keeps h h') (cells : List Cell) :
    Keeps h (h'.alloc cells) :=
  ⟨fun b cs hat => At_alloc_old (hk.at_ b cs hat), by rw [length_alloc]; exact Nat.le_succ_of_le hk.length,
    hk.statics, hk.grants, Nat.le_succ_of_le hk.requests⟩

/-- Blocks that came after `h` may be written to. -/
theorem Keeps.put {h h' : Heap} (hk : Keeps h h') {b : Nat} (hb : h.blocks.length ≤ b)
    (cells : List Cell) : Keeps h (h'.put b cells) := by
  refine ⟨fun b' cs hat => ?_, by rw [length_put]; exact hk.length, hk.statics, hk.grants,
    hk.requests⟩
  have hne : b ≠ b' := by
    have := hat.lt
    omega
  exact (At_put_ne hne).mpr (hk.at_ b' cs hat)

/-- Blocks that came after `h` may be freed. -/
theorem Keeps.release {h h' : Heap} (hk : Keeps h h') {b : Nat} (hb : h.blocks.length ≤ b) :
    Keeps h (h'.release b) := by
  refine ⟨fun b' cs hat => ?_, by rw [length_release]; exact hk.length, hk.statics, hk.grants,
    hk.requests⟩
  have hne : b ≠ b' := by
    have := hat.lt
    omega
  exact (At_release_ne hne).mpr (hk.at_ b' cs hat)

theorem Keeps.deny {h h' : Heap} (hk : Keeps h h') : Keeps h h'.deny :=
  ⟨hk.at_, hk.length, hk.statics, hk.grants, Nat.le_succ_of_le hk.requests⟩

/-- Of what came after `h`, only the blocks of `own` are live. -/
structure Leaves (own : Nat → Prop) (h h' : Heap) : Prop where
  keeps : Keeps h h'
  only : ∀ b cells, h'.At b cells → h.At b cells ∨ h.blocks.length ≤ b ∧ own b

theorem Leaves.refl (h : Heap) : Leaves (fun _ => False) h h :=
  ⟨Keeps.refl h, fun _ _ hat => .inl hat⟩

theorem Leaves.weaken {own own' : Nat → Prop} {h h' : Heap} (hl : Leaves own h h')
    (hown : ∀ b, own b → own' b) : Leaves own' h h' :=
  ⟨hl.keeps, fun b cells hat => (hl.only b cells hat).imp id fun hb => ⟨hb.1, hown b hb.2⟩⟩

theorem Leaves.trans {own own' : Nat → Prop} {h h' h'' : Heap} (hl : Leaves own h h')
    (hl' : Leaves own' h' h'') : Leaves (fun b => own b ∨ own' b) h h'' := by
  refine ⟨hl.keeps.trans hl'.keeps, fun b cells hat => ?_⟩
  rcases hl'.only b cells hat with hold | ⟨hlo, hb⟩
  · exact (hl.only b cells hold).imp id fun hb => ⟨hb.1, .inl hb.2⟩
  · exact .inr ⟨Nat.le_trans hl.keeps.length hlo, .inr hb⟩

theorem Leaves.alloc {own : Nat → Prop} {h h' : Heap} (hl : Leaves own h h') (cells : List Cell) :
    Leaves (fun b => own b ∨ b = h'.blocks.length) h (h'.alloc cells) := by
  refine ⟨hl.keeps.alloc cells, fun b cs hat => ?_⟩
  by_cases hb : b = h'.blocks.length
  · exact .inr ⟨hb ▸ hl.keeps.length, .inr hb⟩
  · exact (hl.only b cs ((At_alloc_iff hb).mp hat)).imp id fun ho => ⟨ho.1, .inl ho.2⟩

theorem Leaves.put {own : Nat → Prop} {h h' : Heap} (hl : Leaves own h h') {b : Nat}
    (hb : h.blocks.length ≤ b) (hown : own b) (cells : List Cell) : Leaves own h (h'.put b cells) := by
  refine ⟨hl.keeps.put hb cells, fun c cs hat => ?_⟩
  by_cases hc : b = c
  · subst hc
    exact .inr ⟨hb, hown⟩
  · exact hl.only c cs ((At_put_ne hc).mp hat)

theorem Leaves.release {own : Nat → Prop} {h h' : Heap} (hl : Leaves own h h') {b : Nat}
    (hb : h.blocks.length ≤ b) : Leaves (fun c => own c ∧ c ≠ b) h (h'.release b) := by
  refine ⟨hl.keeps.release hb, fun c cs hat => ?_⟩
  have hc : b ≠ c := by
    rintro rfl
    exact not_At_release h' b cs hat
  exact (hl.only c cs ((At_release_ne hc).mp hat)).imp id fun ho => ⟨ho.1, ho.2, Ne.symm hc⟩

/-- A new block that is written to. -/
theorem Leaves.fill {own : Nat → Prop} {h h' : Heap} (hl : Leaves own h h') (cells cells' : List Cell) :
    Leaves (fun b => own b ∨ b = h'.blocks.length) h
      ((h'.alloc cells).put h'.blocks.length cells') :=
  (hl.alloc cells).put hl.keeps.length (.inr rfl) cells'

theorem At_fill_old {h : Heap} {b : Nat} {cs : List Cell} (hat : h.At b cs) (cells cells' : List Cell) :
    ((h.alloc cells).put h.blocks.length cells').At b cs :=
  (At_put_ne (Nat.ne_of_gt hat.lt)).mpr (At_alloc_old hat)

/-- A block is freed after the work it was made for. -/
theorem Leaves.freed {own : Nat → Prop} {lost : Prop} {h h' h'' : Heap} {b : Nat}
    (hl : Leaves (fun c => c = b ∨ lost) h h') (hl' : Leaves own h' h'') (hb : h.blocks.length ≤ b) :
    Leaves (fun c => own c ∨ lost) h (h''.release b) := by
  refine ((hl.trans hl').release hb).weaken ?_
  intro c ⟨hc, hne⟩
  rcases hc with (heq | hlost) | hown
  · exact absurd heq hne
  · exact .inr hlost
  · exact .inl hown

theorem Leaves.deny {own : Nat → Prop} {h h' : Heap} (hl : Leaves own h h') : Leaves own h h'.deny :=
  ⟨hl.keeps.deny, hl.only⟩

/-- The blocks of a list are freed, one after the other. -/
def releaseAll (h : Heap) (bs : List Nat) : Heap := bs.foldl release h

theorem releaseAll_concat (h : Heap) (bs : List Nat) (b : Nat) :
    h.releaseAll (bs ++ [b]) = (h.releaseAll bs).release b :=
  List.foldl_concat release h b bs

@[simp] theorem requests_releaseAll (h : Heap) (bs : List Nat) :
    (h.releaseAll bs).requests = h.requests := by
  induction bs generalizing h with
  | nil => rfl
  | cons b bs ih => exact ih (h.release b)

theorem At_releaseAll {h : Heap} {bs : List Nat} {b : Nat} {cells : List Cell} :
    (h.releaseAll bs).At b cells ↔ h.At b cells ∧ b ∉ bs := by
  induction bs generalizing h with
  | nil => exact ⟨fun hat => ⟨hat, List.not_mem_nil⟩, fun hat => hat.1⟩
  | cons c bs ih =>
    show ((h.release c).releaseAll bs).At b cells ↔ _
    rw [ih, List.mem_cons, not_or]
    by_cases hc : c = b
    · subst hc
      exact ⟨fun hat => absurd hat.1 (not_At_release h c cells), fun hat => absurd rfl hat.2.1⟩
    · rw [At_release_ne hc]
      exact and_congr_right fun _ => ⟨fun hb => ⟨Ne.symm hc, hb⟩, fun hb => hb.2⟩

theorem Leaves.releaseAll {own : Nat → Prop} {h h' : Heap} (hl : Leaves own h h') {bs : List Nat}
    (hb : ∀ b ∈ bs, h.blocks.length ≤ b) :
    Leaves (fun c => own c ∧ c ∉ bs) h (h'.releaseAll bs) := by
  induction bs generalizing own h' with
  | nil => exact hl.weaken fun c hc => ⟨hc, List.not_mem_nil⟩
  | cons b bs ih =>
    have hrest : Leaves _ h ((h'.release b).releaseAll bs) :=
      ih (hl.release (hb b List.mem_cons_self)) fun c hc => hb c (List.mem_cons_of_mem b hc)
    refine hrest.weaken ?_
    intro c hc
    refine ⟨hc.1.1, ?_⟩
    rw [List.mem_cons, not_or]
    exact ⟨hc.1.2, hc.2⟩

/-- The blocks from `base` on, `n` of them, are freed. -/
def releaseRange (h : Heap) (base n : Nat) : Heap := (List.range' base n).foldl release h

theorem releaseRange_succ (h : Heap) (base n : Nat) :
    h.releaseRange base (n + 1) = (h.release base).releaseRange (base + 1) n := rfl

theorem releaseRange_eq (h : Heap) (base n : Nat) :
    h.releaseRange base n = h.releaseAll (List.range' base n) := rfl

@[simp] theorem requests_releaseRange (h : Heap) (base n : Nat) :
    (h.releaseRange base n).requests = h.requests :=
  requests_releaseAll h (List.range' base n)

theorem At_releaseRange {h : Heap} {base n b : Nat} {cells : List Cell} :
    (h.releaseRange base n).At b cells ↔ h.At b cells ∧ ¬(base ≤ b ∧ b < base + n) := by
  rw [releaseRange_eq, At_releaseAll, List.mem_range'_1]

theorem Leaves.releaseRange {own : Nat → Prop} {h h' : Heap} (hl : Leaves own h h') {base n : Nat}
    (hb : h.blocks.length ≤ base) :
    Leaves (fun c => own c ∧ ¬(base ≤ c ∧ c < base + n)) h (h'.releaseRange base n) := by
  have hlater : ∀ c ∈ List.range' base n, h.blocks.length ≤ c :=
    fun c hc => Nat.le_trans hb (List.mem_range'_1.mp hc).1
  refine (hl.releaseAll hlater).weaken ?_
  intro c ⟨hc, hout⟩
  exact ⟨hc, fun hin => hout (List.mem_range'_1.mpr hin)⟩

/-! ## §2. Requests. -/

/-- `malloc(n)`. -/
def malloc (n : Nat) : Exec Heap Ptr := fun h =>
  if h.Grants then .ok ⟨.heap h.blocks.length, 0⟩ (h.alloc (fresh n)) else .ok .null h.deny

/-- The cells of the block that starts at `p`. -/
def start? (h : Heap) (p : Ptr) : Option (Nat × List Cell) :=
  match p.base, p.off with
  | .heap b, 0 => h.blocks[b]?.join.map fun cells => (b, cells)
  | _, _ => none

/-- `realloc(p, n)`. -/
def realloc (p : Ptr) (n : Nat) : Exec Heap Ptr := fun h =>
  if p = .null then malloc n h
  else match h.start? p with
    | some (b, cells) =>
      if h.Grants then
        .ok ⟨.heap h.blocks.length, 0⟩ ((h.release b).alloc (resized cells n))
      else .ok .null h.deny
    | none => .stop .undefined h

/-- `free(p)`. -/
def free (p : Ptr) : Exec Heap Unit := fun h =>
  if p = .null then .ok () h
  else match h.start? p with
    | some (b, _) => .ok () (h.release b)
    | none => .stop .undefined h

theorem start?_eq {h : Heap} {b : Nat} {cells : List Cell} (hat : h.At b cells) :
    h.start? ⟨.heap b, 0⟩ = some (b, cells) := by
  show h.blocks[b]?.join.map (fun cells => (b, cells)) = some (b, cells)
  rw [show h.blocks[b]? = some (some cells) from hat, Option.join_some, Option.map_some]

theorem heap_ne_null (b n : Nat) : (⟨.heap b, n⟩ : Ptr) ≠ .null := by
  intro h
  cases h

theorem malloc_eq {h : Heap} (hg : h.Grants) (n : Nat) :
    malloc n h = .ok ⟨.heap h.blocks.length, 0⟩ (h.alloc (fresh n)) :=
  if_pos hg

theorem malloc_denied {h : Heap} (hg : ¬h.Grants) (n : Nat) : malloc n h = .ok .null h.deny :=
  if_neg hg

theorem realloc_eq {h : Heap} {b : Nat} {cells : List Cell} (hat : h.At b cells) (hg : h.Grants)
    (n : Nat) :
    realloc ⟨.heap b, 0⟩ n h =
      .ok ⟨.heap h.blocks.length, 0⟩ ((h.release b).alloc (resized cells n)) := by
  simp only [realloc, if_neg (heap_ne_null b 0), start?_eq hat, if_pos hg]

theorem realloc_denied {h : Heap} {b : Nat} {cells : List Cell} (hat : h.At b cells)
    (hg : ¬h.Grants) (n : Nat) : realloc ⟨.heap b, 0⟩ n h = .ok .null h.deny := by
  simp only [realloc, if_neg (heap_ne_null b 0), start?_eq hat, if_neg hg]

theorem free_eq {h : Heap} {b : Nat} {cells : List Cell} (hat : h.At b cells) :
    free ⟨.heap b, 0⟩ h = .ok () (h.release b) := by
  simp only [free, if_neg (heap_ne_null b 0), start?_eq hat]

theorem free_null (h : Heap) : free .null h = .ok () h := rfl

/-! ## §3. Access. -/

/-- Read `n` bytes. -/
def load (p : Ptr) (n : Nat) : Exec Heap (List Cell) := fun h =>
  match h.object p.base with
  | some cells =>
    if p.off + n ≤ cells.length then .ok (slice cells p.off n) h else .stop .undefined h
  | none => .stop .undefined h

/-- Write the cells `new`. -/
def store (p : Ptr) (new : List Cell) : Exec Heap Unit := fun h =>
  match p.base with
  | .heap b =>
    match h.object (.heap b) with
    | some cells =>
      if p.off + new.length ≤ cells.length then .ok () (h.put b (splice cells p.off new))
      else .stop .undefined h
    | none => .stop .undefined h
  | _ => .stop .undefined h

/-- Read a value of a given representation. -/
def loadAs {α : Type} (decode : List Cell → Option α) (p : Ptr) (n : Nat) : Exec Heap α := do
  match decode (← load p n) with
  | some a => pure a
  | none => fail .undefined

/-- Read a `size_t`. -/
def loadSize (p : Ptr) : Exec Heap Size := loadAs decodeSize p 8

/-- Read a pointer. -/
def loadPtr (p : Ptr) : Exec Heap Ptr := loadAs decodePtr p 8

/-- Write a `size_t`. -/
def storeSize (p : Ptr) (n : Size) : Exec Heap Unit := store p (encodeSize n)

/-- Write a pointer. -/
def storePtr (p : Ptr) (q : Ptr) : Exec Heap Unit := store p (encodePtr q)

/-- Read a string. -/
def loadStr (p : Ptr) : Exec Heap CStr := fun h =>
  match h.object p.base with
  | some cells =>
    match cstr (cells.drop p.off) with
    | some s => .ok s h
    | none => .stop .undefined h
  | none => .stop .undefined h

/-- `(char *)p - n`; the result may not lie before the object. -/
def ptrSub (p : Ptr) (n : Nat) : Exec Heap Ptr :=
  if n ≤ p.off then pure ⟨p.base, p.off - n⟩ else fail .undefined

theorem load_eq {h : Heap} {b : Nat} {cells : List Cell} (hat : h.At b cells) {off n : Nat}
    (hin : off + n ≤ cells.length) :
    load ⟨.heap b, off⟩ n h = .ok (slice cells off n) h := by
  simp only [load, hat.object, if_pos hin]

theorem load_outside {h : Heap} {b : Nat} {cells : List Cell} (hat : h.At b cells) {off n : Nat}
    (hout : cells.length < off + n) : load ⟨.heap b, off⟩ n h = .stop .undefined h := by
  simp only [load, hat.object, if_neg (Nat.not_le.mpr hout)]

/-- Reading a part of what can be read. -/
theorem load_part {h : Heap} {p : Ptr} {n : Nat} {cells : List Cell} (hload : load p n h = .ok cells h)
    {k m : Nat} (hin : k + m ≤ n) : load (p.add k) m h = .ok (slice cells k m) h := by
  unfold load at hload ⊢
  cases hobj : h.object p.base with
  | none =>
    rw [hobj] at hload
    cases hload
  | some all =>
    rw [hobj] at hload
    rw [show h.object (p.add k).base = _ from hobj]
    simp only at hload ⊢
    split at hload
    · rename_i hfits
      cases hload
      have hoff : (p.add k).off = p.off + k := rfl
      rw [if_pos (by omega), slice_slice _ _ hin, hoff]
    · cases hload

theorem store_eq {h : Heap} {b : Nat} {cells new : List Cell} (hat : h.At b cells) {off : Nat}
    (hin : off + new.length ≤ cells.length) :
    store ⟨.heap b, off⟩ new h = .ok () (h.put b (splice cells off new)) := by
  simp only [store, hat.object, if_pos hin]

/-- Writing into the newest block. -/
theorem store_alloc {h : Heap} {cells new : List Cell} {off : Nat}
    (hin : off + new.length ≤ cells.length) :
    store ⟨.heap h.blocks.length, off⟩ new (h.alloc cells) =
      .ok () (h.alloc (splice cells off new)) := by
  rw [store_eq (At_alloc_new h cells) hin, put_alloc]

theorem store_outside {h : Heap} {b : Nat} {cells new : List Cell} (hat : h.At b cells)
    {off : Nat} (hout : cells.length < off + new.length) :
    store ⟨.heap b, off⟩ new h = .stop .undefined h := by
  simp only [store, hat.object, if_neg (Nat.not_le.mpr hout)]

theorem loadAs_eq {α : Type} {decode : List Cell → Option α} {h : Heap} {b : Nat}
    {cells : List Cell} {a : α} (hat : h.At b cells) {off n : Nat} (hin : off + n ≤ cells.length)
    (hdec : decode (slice cells off n) = some a) :
    loadAs decode ⟨.heap b, off⟩ n h = .ok a h := by
  rw [loadAs, bind_ok (load_eq hat hin), hdec]
  rfl

theorem loadStr_eq {h : Heap} {p : Ptr} {cells : List Cell} {s : CStr}
    (hobj : h.object p.base = some cells) (hstr : cstr (cells.drop p.off) = some s) :
    loadStr p h = .ok s h := by
  simp only [loadStr, hobj, hstr]

theorem ptrSub_eq {p : Ptr} {n : Nat} (hle : n ≤ p.off) (h : Heap) :
    ptrSub p n h = .ok ⟨p.base, p.off - n⟩ h := by
  rw [ptrSub, if_pos hle, pure_apply]

end Heap

end Prom.C
