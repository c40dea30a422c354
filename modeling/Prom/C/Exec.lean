/-
  Prom.C.Exec — running C-like code over an explicit state.

  A computation takes a state and either returns a value and the next state,
  or stops: by `abort()`, by `exit(status)`, by undefined behaviour, or
  because the fuel given to a loop ran out.  A stop keeps the state it
  happened in.

  The program logic is one predicate, total correctness at a state:

      Yields m s Q   —  m, started in s, returns some a in some s' with Q a s'

  with one rule per way of building a computation.  `loop` is a loop with a
  bound on its passes; its rule asks for a measure that falls.  `Lens` and
  `zoom` run a computation over one component of a larger state.  `Undefined`
  is the predicate for a computation that goes wrong, with rules of its own;
  `Ends` allows for both, and `WrongIff` says when it is which.  `Returns` is partial correctness.  `Within` says
  what a computation leaves alone, and `Keeps` what it keeps, however it ends.

  Main results:
    * `Yields.bind`, `Yields.mono` — the structural rules.
    * `Yields.loop` — an invariant and a measure carry a loop to its exit.
    * `Yields.forUp` — a loop that counts up.
    * `Undefined.loop` — or to the pass that goes wrong.
    * `Ends.loop` — or to either.
    * `WrongIff.bind`, `WrongIff.forUp` — when a computation goes wrong.
    * `Ends.over`, `Yields.over` — a loop that works through a list.
    * `Returns.bind`, `Returns.loop` — what holds if a computation returns.
    * `Returns.passes` — what holds at the start of every pass of a loop.
    * `Within.bind`, `Within.loop` — what is left alone.
    * `Keeps.bind`, `Keeps.loop` — what is kept, and when nothing goes wrong.
    * `Simulates.bind` — computations simulate each other step by step.
-/
import Mathlib.Tactic.Common

namespace Prom.C

/-! ## §1. Computations. -/

/-- Why a computation stopped. -/
inductive Fault where
  /-- `abort()`. -/
  | abort
  /-- `exit(status)`. -/
  | exit (status : Int)
  /-- Undefined behaviour. -/
  | undefined
  /-- A loop ran out of fuel. -/
  | fuel
  deriving Repr, DecidableEq

/-- The outcome of a computation. -/
inductive Result (σ α : Type) where
  | ok (a : α) (s : σ)
  | stop (f : Fault) (s : σ)
  deriving Repr, DecidableEq

/-- The state a computation ends in. -/
def Result.state {σ α : Type} : Result σ α → σ
  | .ok _ s => s
  | .stop _ s => s

/-- A computation over states `σ`. -/
def Exec (σ α : Type) : Type := σ → Result σ α

namespace Exec

variable {σ τ α β : Type}

instance : Monad (Exec σ) where
  pure a := fun s => .ok a s
  bind m f := fun s =>
    match m s with
    | .ok a s' => f a s'
    | .stop e s' => .stop e s'

/-- Read the state. -/
def get : Exec σ σ := fun s => .ok s s

/-- Change the state. -/
def modify (f : σ → σ) : Exec σ Unit := fun s => .ok () (f s)

/-- Stop. -/
def fail (f : Fault) : Exec σ α := fun s => .stop f s

@[simp] theorem pure_apply (a : α) (s : σ) : (pure a : Exec σ α) s = .ok a s := rfl

@[simp] theorem get_apply (s : σ) : (get : Exec σ σ) s = .ok s s := rfl

@[simp] theorem modify_apply (f : σ → σ) (s : σ) : modify f s = .ok () (f s) := rfl

@[simp] theorem fail_apply (f : Fault) (s : σ) : (fail f : Exec σ α) s = .stop f s := rfl

/-- A first part that returns hands over to the second. -/
theorem bind_ok {m : Exec σ α} {s s' : σ} {a : α} (h : m s = .ok a s') (f : α → Exec σ β) :
    (m >>= f) s = f a s' := by
  show (match m s with
    | .ok a s' => f a s'
    | .stop e s' => .stop e s') = _
  rw [h]

/-- A first part that stops stops the whole. -/
theorem bind_stop {m : Exec σ α} {s s' : σ} {e : Fault} (h : m s = .stop e s')
    (f : α → Exec σ β) : (m >>= f) s = .stop e s' := by
  show (match m s with
    | .ok a s' => f a s'
    | .stop e s' => .stop e s') = _
  rw [h]

/-- Only the first part's outcome matters to the rest. -/
theorem bind_congr {m m' : Exec σ α} {s : σ} (h : m s = m' s) (f : α → Exec σ β) :
    (m >>= f) s = (m' >>= f) s := by
  cases hm : m s with
  | ok a s' => rw [bind_ok hm, bind_ok (h ▸ hm)]
  | stop e s' => rw [bind_stop hm, bind_stop (h ▸ hm)]

@[simp] theorem pure_bind_apply (a : α) (f : α → Exec σ β) (s : σ) :
    (pure a >>= f) s = f a s := rfl

@[simp] theorem get_bind_apply (f : σ → Exec σ β) (s : σ) : (get >>= f) s = f s s := rfl

@[simp] theorem modify_bind_apply (g : σ → σ) (f : Unit → Exec σ β) (s : σ) :
    (modify g >>= f) s = f () (g s) := rfl

theorem bind_assoc_apply {γ : Type} (m : Exec σ α) (f : α → Exec σ β) (g : β → Exec σ γ) (s : σ) :
    (m >>= f >>= g) s = (m >>= fun a => f a >>= g) s := by
  show (match (m >>= f) s with
    | .ok a s' => g a s'
    | .stop e s' => .stop e s') = _
  cases h : m s with
  | ok a s' => rw [bind_ok h, bind_ok h]; rfl
  | stop e s' => rw [bind_stop h, bind_stop h]

/-! ## §2. Total correctness. -/

/-- `m`, started in `s`, returns, and `Q` holds of the value and the state. -/
def Yields (m : Exec σ α) (s : σ) (Q : α → σ → Prop) : Prop :=
  ∃ a s', m s = .ok a s' ∧ Q a s'

theorem Yields.of_eq {m : Exec σ α} {s s' : σ} {a : α} {Q : α → σ → Prop} (h : m s = .ok a s')
    (hQ : Q a s') : Yields m s Q :=
  ⟨a, s', h, hQ⟩

theorem Yields.pure {a : α} {s : σ} {Q : α → σ → Prop} (h : Q a s) :
    Yields (pure a : Exec σ α) s Q :=
  ⟨a, s, rfl, h⟩

/-- Sequencing: what the first part yields is where the second starts. -/
theorem Yields.bind {m : Exec σ α} {f : α → Exec σ β} {s : σ} {P : α → σ → Prop}
    {Q : β → σ → Prop} (hm : Yields m s P) (hf : ∀ a s', P a s' → Yields (f a) s' Q) :
    Yields (m >>= f) s Q := by
  obtain ⟨a, s', hrun, hP⟩ := hm
  obtain ⟨b, s'', hrun', hQ⟩ := hf a s' hP
  exact ⟨b, s'', (bind_ok hrun f).trans hrun', hQ⟩

/-- Sequencing after a first part whose run is known. -/
theorem Yields.step {m : Exec σ α} {f : α → Exec σ β} {s s' : σ} {a : α} {Q : β → σ → Prop}
    (hm : m s = .ok a s') (hf : Yields (f a) s' Q) : Yields (m >>= f) s Q := by
  obtain ⟨b, s'', hrun, hQ⟩ := hf
  exact ⟨b, s'', (bind_ok hm f).trans hrun, hQ⟩

theorem Yields.mono {m : Exec σ α} {s : σ} {P Q : α → σ → Prop} (hm : Yields m s P)
    (h : ∀ a s', P a s' → Q a s') : Yields m s Q := by
  obtain ⟨a, s', hrun, hP⟩ := hm
  exact ⟨a, s', hrun, h a s' hP⟩

/-- Run `m` from `s` and test what it returns. -/
def check (m : Exec σ α) (s : σ) (test : α → σ → Bool) : Bool :=
  match m s with
  | .ok a s' => test a s'
  | .stop _ _ => false

theorem Yields.of_check {m : Exec σ α} {s : σ} {p : α → σ → Bool} (h : check m s p = true) :
    Yields m s fun a s' => p a s' = true := by
  cases hrun : m s with
  | ok a s' =>
    rw [check, hrun] at h
    exact ⟨a, s', hrun, h⟩
  | stop f s' =>
    rw [check, hrun] at h
    cases h

theorem test_of_check {m : Exec σ α} {s s' : σ} {a : α} {p : α → σ → Bool} (hrun : m s = .ok a s')
    (h : check m s p = true) : p a s' = true := by
  rw [check, hrun] at h
  exact h

/-! ## §3. Loops. -/

/-- Pass after pass of `body`: `inl` starts the next pass, `inr` leaves the
    loop.  The fuel bounds the passes. -/
def loop : Nat → (α → Exec σ (α ⊕ β)) → α → Exec σ β
  | 0, _, _ => fail .fuel
  | fuel + 1, body, a => do
    match ← body a with
    | .inl a' => loop fuel body a'
    | .inr b => Pure.pure b

theorem loop_next {fuel : Nat} {body : α → Exec σ (α ⊕ β)} {a a' : α} {s s' : σ}
    (h : body a s = .ok (.inl a') s') : loop (fuel + 1) body a s = loop fuel body a' s' := by
  rw [loop, bind_ok h]

theorem loop_exit {fuel : Nat} {body : α → Exec σ (α ⊕ β)} {a : α} {b : β} {s s' : σ}
    (h : body a s = .ok (.inr b) s') : loop (fuel + 1) body a s = .ok b s' := by
  rw [loop, bind_ok h]
  rfl

/-- A loop whose first pass stops. -/
theorem loop_stop {fuel : Nat} (hfuel : 0 < fuel) {body : α → Exec σ (α ⊕ β)} {a : α} {e : Fault}
    {s s' : σ} (h : body a s = .stop e s') : loop fuel body a s = .stop e s' := by
  obtain ⟨n, rfl⟩ := Nat.exists_eq_succ_of_ne_zero (show fuel ≠ 0 by omega)
  rw [loop, bind_stop h]

/-- A loop that leaves at once. -/
theorem loop_zero {fuel : Nat} (hfuel : 0 < fuel) {body : α → Exec σ (α ⊕ β)} {a : α} {b : β}
    {s s' : σ} (h : body a s = .ok (.inr b) s') : loop fuel body a s = .ok b s' := by
  obtain ⟨n, rfl⟩ := Nat.exists_eq_succ_of_ne_zero (show fuel ≠ 0 by omega)
  exact loop_exit h

/-- A loop that leaves after one pass. -/
theorem loop_one {fuel : Nat} (hfuel : 1 < fuel) {body : α → Exec σ (α ⊕ β)} {a a' : α} {b : β}
    {s s' s'' : σ} (h : body a s = .ok (.inl a') s') (h' : body a' s' = .ok (.inr b) s'') :
    loop fuel body a s = .ok b s'' := by
  obtain ⟨n, rfl⟩ := Nat.exists_eq_succ_of_ne_zero (show fuel ≠ 0 by omega)
  rw [loop_next h]
  exact loop_zero (by omega) h'

/-- The values and states the passes of a loop start with. -/
def passes : Nat → (α → Exec σ (α ⊕ β)) → α → σ → List (α × σ)
  | 0, _, _, _ => []
  | fuel + 1, body, a, s =>
    (a, s) ::
      match body a s with
      | .ok (.inl a') s' => passes fuel body a' s'
      | _ => []

theorem passes_next {fuel : Nat} {body : α → Exec σ (α ⊕ β)} {a a' : α} {s s' : σ}
    (h : body a s = .ok (.inl a') s') :
    passes (fuel + 1) body a s = (a, s) :: passes fuel body a' s' := by
  rw [passes, h]

theorem passes_exit {fuel : Nat} {body : α → Exec σ (α ⊕ β)} {a : α} {b : β} {s s' : σ}
    (h : body a s = .ok (.inr b) s') : passes (fuel + 1) body a s = [(a, s)] := by
  rw [passes, h]

theorem passes_stop {fuel : Nat} {body : α → Exec σ (α ⊕ β)} {a : α} {e : Fault} {s s' : σ}
    (h : body a s = .stop e s') : passes (fuel + 1) body a s = [(a, s)] := by
  rw [passes, h]

/-- **A loop whose measure falls leaves through its exit.**  `I n` is the
    invariant with `n` passes at most still to come. -/
theorem Yields.loop {body : α → Exec σ (α ⊕ β)} {I : Nat → α → σ → Prop} {Q : β → σ → Prop}
    (hbody : ∀ n a s, I n a s → Yields (body a) s fun r s' =>
      match r with
      | .inl a' => ∃ m, m < n ∧ I m a' s'
      | .inr b => Q b s')
    {n fuel : Nat} (hfuel : n < fuel) {a : α} {s : σ} (hI : I n a s) :
    Yields (Exec.loop fuel body a) s Q := by
  induction fuel generalizing n a s with
  | zero => omega
  | succ fuel ih =>
    obtain ⟨r, s', hrun, hr⟩ := hbody n a s hI
    cases r with
    | inl a' =>
      obtain ⟨m, hm, hI'⟩ := hr
      obtain ⟨b, s'', hrest, hQ⟩ := ih (n := m) (by omega) hI'
      exact ⟨b, s'', (loop_next hrun).trans hrest, hQ⟩
    | inr b => exact ⟨b, s', loop_exit hrun, hr⟩

/-- `for (i = start; i < stop; i++) body(i);` -/
def forUp (start stop : Int) (body : Int → Exec σ Unit) : Exec σ Unit :=
  loop ((stop - start).toNat + 1)
    (fun i => if i < stop then body i >>= fun _ => pure (.inl (i + 1)) else pure (.inr ())) start

/-- A loop that counts up, by what holds before each of its numbers. -/
theorem Yields.forUp {start stop : Int} {body : Int → Exec σ Unit} {I : Int → σ → Prop}
    (hbody : ∀ i s, start ≤ i → i < stop → I i s → Yields (body i) s fun _ s' => I (i + 1) s')
    {s : σ} (hI : I start s) :
    Yields (Exec.forUp start stop body) s fun _ s' =>
      ∃ i, (stop ≤ start ∧ i = start ∨ start < stop ∧ i = stop) ∧ I i s' := by
  refine Yields.loop
    (I := fun n i s => (i = start ∨ start < i ∧ i ≤ stop) ∧ n = (stop - i).toNat ∧ I i s)
    (fun n i s hi => ?_) (Nat.lt_succ_self _) ⟨.inl rfl, rfl, hI⟩
  obtain ⟨hrange, rfl, hi⟩ := hi
  by_cases hlt : i < stop
  · rw [if_pos hlt]
    refine (hbody i s (by omega) hlt hi).bind fun _ s' hnext => .pure ?_
    exact ⟨(stop - (i + 1)).toNat, by omega, by omega, rfl, hnext⟩
  · rw [if_neg hlt]
    exact .pure ⟨i, by omega, hi⟩

/-! ## §4. Undefined behaviour. -/

/-- `m`, started in `s`, goes wrong. -/
def Undefined (m : Exec σ α) (s : σ) : Prop := ∃ s', m s = .stop .undefined s'

theorem Undefined.of_eq {m : Exec σ α} {s s' : σ} (h : m s = .stop .undefined s') : Undefined m s :=
  ⟨s', h⟩

/-- The first part goes wrong. -/
theorem Undefined.bind {m : Exec σ α} {s : σ} (hm : Undefined m s) (f : α → Exec σ β) :
    Undefined (m >>= f) s :=
  hm.elim fun _ h => .of_eq (bind_stop h f)

/-- The first part returns, and the rest goes wrong. -/
theorem Undefined.step {m : Exec σ α} {f : α → Exec σ β} {s s' : σ} {a : α}
    (hm : m s = .ok a s') (hf : Undefined (f a) s') : Undefined (m >>= f) s :=
  hf.elim fun _ h => .of_eq ((bind_ok hm f).trans h)

theorem Undefined.not_ok {m : Exec σ α} {s s' : σ} {a : α} (hm : Undefined m s) : m s ≠ .ok a s' := by
  obtain ⟨s'', hstop⟩ := hm
  rw [hstop]
  rintro ⟨⟩

/-- What goes wrong does not return. -/
theorem Undefined.not_yields {m : Exec σ α} {s : σ} {Q : α → σ → Prop} (hm : Undefined m s) :
    ¬Yields m s Q :=
  fun ⟨_, _, hrun, _⟩ => hm.not_ok hrun

/-- **A loop that cannot be left goes wrong**: each pass does, or comes nearer
    to one that does. -/
theorem Undefined.loop {body : α → Exec σ (α ⊕ β)} {I : Nat → α → σ → Prop}
    (hbody : ∀ n a s, I n a s → Undefined (body a) s ∨
      ∃ m a' s', body a s = .ok (.inl a') s' ∧ m < n ∧ I m a' s')
    {n fuel : Nat} (hfuel : n < fuel) {a : α} {s : σ} (hI : I n a s) :
    Undefined (Exec.loop fuel body a) s := by
  induction fuel generalizing n a s with
  | zero => omega
  | succ fuel ih =>
    rcases hbody n a s hI with hstop | ⟨m, a', s', hrun, hm, hI'⟩
    · exact hstop.bind _
    · obtain ⟨s'', hrest⟩ := ih (n := m) (by omega) hI'
      exact .of_eq ((loop_next hrun).trans hrest)

/-- `m`, started in `s`, goes wrong if `bad`, and returns with `Q` if not. -/
structure WrongIff (bad : Prop) (m : Exec σ α) (s : σ) (Q : α → σ → Prop) : Prop where
  wrong : bad → Undefined m s
  right : ¬bad → Yields m s Q

theorem WrongIff.undefined_iff {bad : Prop} {m : Exec σ α} {s : σ} {Q : α → σ → Prop}
    (h : WrongIff bad m s Q) : Undefined m s ↔ bad :=
  ⟨fun hwrong => by_contra fun hno => hwrong.not_yields (h.right hno), h.wrong⟩

/-- What never goes wrong. -/
theorem WrongIff.of_yields {m : Exec σ α} {s : σ} {Q : α → σ → Prop} (h : Yields m s Q) :
    WrongIff False m s Q :=
  ⟨False.elim, fun _ => h⟩

theorem WrongIff.mono {bad : Prop} {m : Exec σ α} {s : σ} {P Q : α → σ → Prop}
    (h : WrongIff bad m s P) (hPQ : ∀ a s', P a s' → Q a s') : WrongIff bad m s Q :=
  ⟨h.wrong, fun hno => (h.right hno).mono hPQ⟩

theorem WrongIff.congr {bad bad' : Prop} {m : Exec σ α} {s : σ} {Q : α → σ → Prop}
    (h : WrongIff bad m s Q) (hiff : bad ↔ bad') : WrongIff bad' m s Q :=
  ⟨fun hbad => h.wrong (hiff.mpr hbad), fun hno => h.right (mt hiff.mp hno)⟩

/-- One after the other. -/
theorem WrongIff.bind {bad bad' : Prop} {m : Exec σ α} {f : α → Exec σ β} {s : σ}
    {P : α → σ → Prop} {Q : β → σ → Prop} (hm : WrongIff bad m s P)
    (hf : ∀ a s', P a s' → WrongIff bad' (f a) s' Q) : WrongIff (bad ∨ bad') (m >>= f) s Q := by
  by_cases hbad : bad
  · exact ⟨fun _ => (hm.wrong hbad).bind f, fun hno => absurd (.inl hbad) hno⟩
  · obtain ⟨a, s', hrun, hP⟩ := hm.right hbad
    exact ⟨fun h => Undefined.step hrun ((hf a s' hP).wrong (h.resolve_left hbad)),
      fun hno => Yields.step hrun ((hf a s' hP).right fun h => hno (.inr h))⟩

/-- The second part does not go wrong. -/
theorem WrongIff.bind_yields {bad : Prop} {m : Exec σ α} {f : α → Exec σ β} {s : σ}
    {P : α → σ → Prop} {Q : β → σ → Prop} (hm : WrongIff bad m s P)
    (hf : ∀ a s', P a s' → Yields (f a) s' Q) : WrongIff bad (m >>= f) s Q :=
  (hm.bind fun a s' hP => .of_yields (hf a s' hP)).congr (or_iff_left id)

/-- The first part returns. -/
theorem WrongIff.step {bad : Prop} {m : Exec σ α} {f : α → Exec σ β} {s s' : σ} {a : α}
    {Q : β → σ → Prop} (hm : m s = .ok a s') (hf : WrongIff bad (f a) s' Q) :
    WrongIff bad (m >>= f) s Q :=
  ⟨fun hbad => Undefined.step hm (hf.wrong hbad), fun hno => Yields.step hm (hf.right hno)⟩

/-- A loop that counts up goes wrong at one of its numbers. -/
theorem WrongIff.forUp {start stop : Int} {body : Int → Exec σ Unit} (bad : Int → Prop)
    {I : Int → σ → Prop}
    (hbody : ∀ i s, start ≤ i → i < stop → I i s →
      WrongIff (bad i) (body i) s fun _ s' => I (i + 1) s')
    {s : σ} (hI : I start s) :
    WrongIff (∃ i, start ≤ i ∧ i < stop ∧ bad i) (Exec.forUp start stop body) s fun _ s' =>
      ∃ i, (stop ≤ start ∧ i = start ∨ start < stop ∧ i = stop) ∧ I i s' := by
  constructor
  · rintro ⟨k, hstart, hstop, hbad⟩
    -- the numbers up to `k` come first
    refine Undefined.loop (I := fun n i s => (start ≤ i ∧ i ≤ k) ∧ n = (stop - i).toNat ∧ I i s)
      (fun n i s hi => ?_) (Nat.lt_succ_self _) ⟨⟨Int.le_refl _, hstart⟩, rfl, hI⟩
    obtain ⟨⟨hfrom, hto⟩, rfl, hi⟩ := hi
    have hlt : i < stop := by omega
    rw [if_pos hlt]
    by_cases hbadi : bad i
    · exact .inl (((hbody i s hfrom hlt hi).wrong hbadi).bind _)
    · obtain ⟨_, s', hrun, hnext⟩ := (hbody i s hfrom hlt hi).right hbadi
      have hne : i ≠ k := fun h => hbadi (h ▸ hbad)
      exact .inr ⟨(stop - (i + 1)).toNat, i + 1, s', bind_ok hrun _, by omega,
        ⟨by omega, by omega⟩, rfl, hnext⟩
  · intro hno
    exact Yields.forUp (fun i s hfrom hto hi => (hbody i s hfrom hto hi).right fun hbad =>
      hno ⟨i, hfrom, hto, hbad⟩) hI

/-- `m`, started in `s`, returns with `Q` or goes wrong with `E`. -/
def Ends (m : Exec σ α) (s : σ) (Q : α → σ → Prop) (E : σ → Prop) : Prop :=
  Yields m s Q ∨ ∃ s', m s = .stop .undefined s' ∧ E s'

/-- **A loop whose measure falls** leaves through its exit or goes wrong. -/
theorem Ends.loop {body : α → Exec σ (α ⊕ β)} {I : Nat → α → σ → Prop} {Q : β → σ → Prop}
    {E : σ → Prop}
    (hbody : ∀ n a s, I n a s → Ends (body a) s (fun r s' =>
      match r with
      | .inl a' => ∃ m, m < n ∧ I m a' s'
      | .inr b => Q b s') E)
    {n fuel : Nat} (hfuel : n < fuel) {a : α} {s : σ} (hI : I n a s) :
    Ends (Exec.loop fuel body a) s Q E := by
  induction fuel generalizing n a s with
  | zero => omega
  | succ fuel ih =>
    rcases hbody n a s hI with ⟨r, s', hrun, hr⟩ | ⟨s', hstop, hE⟩
    · cases r with
      | inl a' =>
        obtain ⟨m, hm, hI'⟩ := hr
        rcases ih (n := m) (by omega) hI' with ⟨b, s'', hrest, hQ⟩ | ⟨s'', hrest, hE⟩
        · exact .inl ⟨b, s'', (loop_next hrun).trans hrest, hQ⟩
        · exact .inr ⟨s'', (loop_next hrun).trans hrest, hE⟩
      | inr b => exact .inl ⟨b, s', loop_exit hrun, hr⟩
    · exact .inr ⟨s', bind_stop hstop _, hE⟩

theorem Ends.yields {m : Exec σ α} {s : σ} {Q : α → σ → Prop} (h : Ends m s Q fun _ => False) :
    Yields m s Q :=
  h.resolve_right fun ⟨_, _, hfalse⟩ => hfalse

/-- **A loop that works through a list**, an element a pass; `I done rest` holds
    between the passes. -/
theorem Ends.over {γ : Type} {body : α → Exec σ (α ⊕ β)} {xs : List γ}
    {I : List γ → List γ → α → σ → Prop} {Q : β → σ → Prop} {E : σ → Prop}
    (hnext : ∀ done x rest a s, xs = done ++ x :: rest → I done (x :: rest) a s →
      Ends (body a) s (fun r s' =>
        match r with
        | .inl a' => I (done ++ [x]) rest a' s'
        | .inr b => Q b s') E)
    (hexit : ∀ a s, I xs [] a s → Ends (body a) s (fun r s' => ∃ b, r = .inr b ∧ Q b s') E)
    {fuel : Nat} (hfuel : xs.length < fuel) {a : α} {s : σ} (hI : I [] xs a s) :
    Ends (Exec.loop fuel body a) s Q E := by
  refine Ends.loop (I := fun n a s => ∃ done rest, xs = done ++ rest ∧ n = rest.length ∧ I done rest a s)
    ?_ hfuel ⟨[], xs, rfl, rfl, hI⟩
  rintro n a s ⟨done, rest, rfl, rfl, hI⟩
  cases rest with
  | nil =>
    rw [List.append_nil] at hexit
    refine (hexit a s hI).imp_left fun hyields => hyields.mono ?_
    rintro r s' ⟨b, rfl, hQ⟩
    exact hQ
  | cons x rest =>
    refine (hnext done x rest a s rfl hI).imp_left fun hyields => hyields.mono fun r s' hr => ?_
    cases r with
    | inl a' =>
      refine ⟨rest.length, Nat.lt_succ_self _, done ++ [x], rest, ?_, rfl, hr⟩
      rw [List.append_assoc, List.singleton_append]
    | inr b => exact hr

theorem Yields.over {γ : Type} {body : α → Exec σ (α ⊕ β)} {xs : List γ}
    {I : List γ → List γ → α → σ → Prop} {Q : β → σ → Prop}
    (hnext : ∀ done x rest a s, xs = done ++ x :: rest → I done (x :: rest) a s →
      Yields (body a) s fun r s' =>
        match r with
        | .inl a' => I (done ++ [x]) rest a' s'
        | .inr b => Q b s')
    (hexit : ∀ a s, I xs [] a s → Yields (body a) s fun r s' => ∃ b, r = .inr b ∧ Q b s')
    {fuel : Nat} (hfuel : xs.length < fuel) {a : α} {s : σ} (hI : I [] xs a s) :
    Yields (Exec.loop fuel body a) s Q :=
  (Ends.over (fun done x rest a s hsplit h => .inl (hnext done x rest a s hsplit h))
    (fun a s h => .inl (hexit a s h)) hfuel hI).yields

/-! ## §5. Partial correctness. -/

/-- If `m`, started in `s`, returns, then `Q` holds of the value and the
    state. -/
def Returns (m : Exec σ α) (s : σ) (Q : α → σ → Prop) : Prop := ∀ a s', m s = .ok a s' → Q a s'

theorem Returns.pure {a : α} {s : σ} {Q : α → σ → Prop} (h : Q a s) :
    Returns (pure a : Exec σ α) s Q := by
  rintro _ _ ⟨⟩
  exact h

theorem Returns.fail (f : Fault) (s : σ) (Q : α → σ → Prop) :
    Returns (fail f : Exec σ α) s Q := by
  rintro _ _ ⟨⟩

theorem Returns.of_eq {m : Exec σ α} {s s' : σ} {a : α} {Q : α → σ → Prop} (h : m s = .ok a s')
    (hQ : Q a s') : Returns m s Q := by
  intro b s'' hrun
  rw [h] at hrun
  cases hrun
  exact hQ

theorem Returns.bind {m : Exec σ α} {f : α → Exec σ β} {s : σ} {P : α → σ → Prop}
    {Q : β → σ → Prop} (hm : Returns m s P) (hf : ∀ a s', P a s' → Returns (f a) s' Q) :
    Returns (m >>= f) s Q := by
  intro b s'' hrun
  cases hfirst : m s with
  | ok a s' =>
    rw [bind_ok hfirst] at hrun
    exact hf a s' (hm a s' hfirst) b s'' hrun
  | stop e s' =>
    rw [bind_stop hfirst] at hrun
    cases hrun

/-- Sequencing after a first part whose run is known. -/
theorem Returns.step {m : Exec σ α} {f : α → Exec σ β} {s s' : σ} {a : α} {Q : β → σ → Prop}
    (hm : m s = .ok a s') (hf : Returns (f a) s' Q) : Returns (m >>= f) s Q := by
  intro b s'' hrun
  rw [bind_ok hm] at hrun
  exact hf b s'' hrun

theorem Returns.mono {m : Exec σ α} {s : σ} {P Q : α → σ → Prop} (hm : Returns m s P)
    (h : ∀ a s', P a s' → Q a s') : Returns m s Q :=
  fun a s' hrun => h a s' (hm a s' hrun)

/-- What goes wrong does not return. -/
theorem Undefined.returns {m : Exec σ α} {s : σ} {Q : α → σ → Prop} (hm : Undefined m s) :
    Returns m s Q :=
  fun _ _ hrun => absurd hrun hm.not_ok

/-- **What each pass keeps**, the loop does, as far as to its exit. -/
theorem Returns.loop {body : α → Exec σ (α ⊕ β)} {I : α → σ → Prop} {Q : β → σ → Prop}
    (hbody : ∀ a s, I a s → Returns (body a) s fun r s' =>
      match r with
      | .inl a' => I a' s'
      | .inr b => Q b s')
    {fuel : Nat} {a : α} {s : σ} (hI : I a s) : Returns (Exec.loop fuel body a) s Q := by
  induction fuel generalizing a s with
  | zero => exact .fail .fuel s Q
  | succ fuel ih =>
    refine Returns.bind (hbody a s hI) fun r s' hr => ?_
    cases r with
    | inl a' => exact ih hr
    | inr b => exact .pure hr

/-- **What each pass keeps** holds whenever a pass starts, whether the loop is
    left or not. -/
theorem Returns.passes {body : α → Exec σ (α ⊕ β)} {I : α → σ → Prop}
    (hbody : ∀ a s, I a s → Returns (body a) s fun r s' =>
      match r with
      | .inl a' => I a' s'
      | .inr _ => True)
    {fuel : Nat} {a : α} {s : σ} (hI : I a s) : ∀ x ∈ Exec.passes fuel body a s, I x.1 x.2 := by
  induction fuel generalizing a s with
  | zero => exact fun x hx => absurd hx List.not_mem_nil
  | succ fuel ih =>
    intro x hx
    rcases List.mem_cons.mp hx with rfl | hx
    · exact hI
    · cases hrun : body a s with
      | ok r s' =>
        rw [hrun] at hx
        cases r with
        | inl a' => exact ih (hbody a s hI (.inl a') s' hrun) x hx
        | inr b => exact absurd hx List.not_mem_nil
      | stop e s' =>
        rw [hrun] at hx
        exact absurd hx List.not_mem_nil

/-- The parts of a sequence that has returned. -/
theorem ok_of_bind {m : Exec σ α} {f : α → Exec σ β} {s s'' : σ} {b : β}
    (h : (m >>= f) s = .ok b s'') : ∃ a s', m s = .ok a s' ∧ f a s' = .ok b s'' := by
  cases hm : m s with
  | ok a s' => exact ⟨a, s', rfl, (bind_ok hm f).symm.trans h⟩
  | stop e s' =>
    rw [bind_stop hm] at h
    cases h

/-! ## §6. What is left alone. -/

/-- However `m` ends, `R` relates the states before and after. -/
def Within (R : σ → σ → Prop) (m : Exec σ α) : Prop := ∀ s, R s (m s).state

section Within

variable {R : σ → σ → Prop}

theorem Within.pure (hrefl : ∀ s, R s s) (a : α) : Within R (pure a : Exec σ α) := hrefl

theorem Within.fail (hrefl : ∀ s, R s s) (f : Fault) : Within R (fail f : Exec σ α) := hrefl

theorem Within.bind (htrans : ∀ s s' s'', R s s' → R s' s'' → R s s'') {m : Exec σ α}
    {f : α → Exec σ β} (hm : Within R m) (hf : ∀ a, Within R (f a)) : Within R (m >>= f) := by
  intro s
  have hfirst := hm s
  cases hrun : m s with
  | ok a s' =>
    rw [hrun] at hfirst
    rw [bind_ok hrun]
    exact htrans s s' _ hfirst (hf a s')
  | stop e s' =>
    rw [hrun] at hfirst
    rw [bind_stop hrun]
    exact hfirst

/-- What each pass leaves alone, the loop does. -/
theorem Within.loop (hrefl : ∀ s, R s s) (htrans : ∀ s s' s'', R s s' → R s' s'' → R s s'')
    {body : α → Exec σ (α ⊕ β)} (hbody : ∀ a, Within R (body a)) (fuel : Nat) (a : α) :
    Within R (loop fuel body a) := by
  induction fuel generalizing a with
  | zero => exact Within.fail hrefl .fuel
  | succ fuel ih =>
    refine Within.bind htrans (hbody a) fun r => ?_
    cases r with
    | inl a' => exact ih a'
    | inr b => exact Within.pure hrefl b

end Within

/-! ## §7. What is kept on every way out. -/

/-- However a computation ended, `I` holds, and if it went wrong, `E`. -/
def KeptBy (I E : σ → Prop) : Result σ α → Prop
  | .ok _ s => I s
  | .stop f s => I s ∧ (f = .undefined → E s)

/-- Started with `I`, `m` ends with `I`, and goes wrong only with `E`. -/
def Keeps (I E : σ → Prop) (m : Exec σ α) : Prop := ∀ s, I s → KeptBy I E (m s)

section Keeps

variable {I E : σ → Prop}

theorem Keeps.pure (a : α) : Keeps I E (pure a : Exec σ α) := fun _ hs => hs

theorem KeptBy.bind {m : Exec σ α} {f : α → Exec σ β} {s : σ} (hm : KeptBy I E (m s))
    (hf : ∀ a, Keeps I E (f a)) : KeptBy I E ((m >>= f) s) := by
  cases hrun : m s with
  | ok a s' =>
    rw [hrun] at hm
    rw [bind_ok hrun]
    exact hf a s' hm
  | stop e s' =>
    rw [hrun] at hm
    rw [bind_stop hrun]
    exact hm

theorem Keeps.bind {m : Exec σ α} {f : α → Exec σ β} (hm : Keeps I E m)
    (hf : ∀ a, Keeps I E (f a)) : Keeps I E (m >>= f) :=
  fun s hs => (hm s hs).bind hf

/-- What each pass keeps, the loop does. -/
theorem Keeps.loop {body : α → Exec σ (α ⊕ β)} (hbody : ∀ a, Keeps I E (body a)) (fuel : Nat)
    (a : α) : Keeps I E (loop fuel body a) := by
  induction fuel generalizing a with
  | zero => exact fun s hs => ⟨hs, by rintro ⟨⟩⟩
  | succ fuel ih =>
    refine Keeps.bind (hbody a) fun r => ?_
    cases r with
    | inl a' => exact ih a'
    | inr b => exact .pure b

end Keeps

/-! ## §8. Components of a state. -/

/-- A component of a state. -/
structure Lens (σ τ : Type) where
  get : σ → τ
  set : σ → τ → σ
  get_set : ∀ s t, get (set s t) = t
  set_get : ∀ s, set s (get s) = s
  set_set : ∀ s t t', set (set s t) t' = set s t'

/-- Run a computation on one component. -/
def zoom (l : Lens σ τ) (m : Exec τ α) : Exec σ α := fun s =>
  match m (l.get s) with
  | .ok a t => .ok a (l.set s t)
  | .stop e t => .stop e (l.set s t)

theorem zoom_ok {l : Lens σ τ} {m : Exec τ α} {s : σ} {a : α} {t : τ}
    (h : m (l.get s) = .ok a t) : zoom l m s = .ok a (l.set s t) := by
  simp only [zoom, h]

theorem zoom_stop {l : Lens σ τ} {m : Exec τ α} {s : σ} {e : Fault} {t : τ}
    (h : m (l.get s) = .stop e t) : zoom l m s = .stop e (l.set s t) := by
  simp only [zoom, h]

/-- What is left alone by work on one component. -/
theorem Within.zoom {R : σ → σ → Prop} {R' : τ → τ → Prop} {l : Lens σ τ} {m : Exec τ α}
    (hm : Within R' m) (hset : ∀ s t, R' (l.get s) t → R s (l.set s t)) : Within R (zoom l m) := by
  intro s
  have hfirst := hm (l.get s)
  cases hrun : m (l.get s) with
  | ok a t =>
    rw [hrun] at hfirst
    rw [zoom_ok hrun]
    exact hset s t hfirst
  | stop e t =>
    rw [hrun] at hfirst
    rw [zoom_stop hrun]
    exact hset s t hfirst

theorem Yields.zoom {l : Lens σ τ} {m : Exec τ α} {s : σ} {Q : α → σ → Prop}
    (h : Yields m (l.get s) fun a t => Q a (l.set s t)) : Yields (zoom l m) s Q := by
  obtain ⟨a, t, hrun, hQ⟩ := h
  exact ⟨a, l.set s t, zoom_ok hrun, hQ⟩

theorem Returns.zoom {l : Lens σ τ} {m : Exec τ α} {s : σ} {Q : α → σ → Prop}
    (h : Returns m (l.get s) fun a t => Q a (l.set s t)) : Returns (zoom l m) s Q := by
  intro a s' hrun
  cases hm : m (l.get s) with
  | ok b t =>
    rw [zoom_ok hm] at hrun
    cases hrun
    exact h a t hm
  | stop e t =>
    rw [zoom_stop hm] at hrun
    cases hrun

theorem KeptBy.zoom {I E : σ → Prop} {l : Lens σ τ} {m : Exec τ α} {s : σ}
    (h : KeptBy (fun t => I (l.set s t)) (fun t => E (l.set s t)) (m (l.get s))) :
    KeptBy I E (zoom l m s) := by
  cases hrun : m (l.get s) with
  | ok a t =>
    rw [hrun] at h
    rw [zoom_ok hrun]
    exact h
  | stop e t =>
    rw [hrun] at h
    rw [zoom_stop hrun]
    exact h

theorem Undefined.zoom {l : Lens σ τ} {m : Exec τ α} {s : σ} (h : Undefined m (l.get s)) :
    Undefined (zoom l m) s :=
  h.elim fun _ hstop => .of_eq (zoom_stop hstop)

theorem WrongIff.zoom {bad : Prop} {l : Lens σ τ} {m : Exec τ α} {s : σ} {Q : α → σ → Prop}
    (h : WrongIff bad m (l.get s) fun a t => Q a (l.set s t)) : WrongIff bad (zoom l m) s Q :=
  ⟨fun hbad => (h.wrong hbad).zoom, fun hno => (h.right hno).zoom⟩

/-! ## §9. Simulation. -/

/-- `m` simulates `n`: started in states related by `R` they return the same
    value in states related by `S`, or stop for the same reason in states
    related by `E`. -/
def Simulates (R : σ → τ → Prop) (m : Exec σ α) (n : Exec τ α) (S E : σ → τ → Prop) : Prop :=
  ∀ s t, R s t →
    match n t with
    | .ok a t' => ∃ s', m s = .ok a s' ∧ S s' t'
    | .stop e t' => ∃ s', m s = .stop e s' ∧ E s' t'

variable {R S T E : σ → τ → Prop}

theorem Simulates.pure (a : α) (h : ∀ s t, R s t → S s t) :
    Simulates R (pure a : Exec σ α) (pure a : Exec τ α) S E :=
  fun s t hst => ⟨s, rfl, h s t hst⟩

/-- Computations simulate step by step. -/
theorem Simulates.bind {m : Exec σ α} {n : Exec τ α} {f : α → Exec σ β} {g : α → Exec τ β}
    (hm : Simulates R m n S E) (hf : ∀ a, Simulates S (f a) (g a) T E) :
    Simulates R (m >>= f) (n >>= g) T E := by
  intro s t hst
  have hmn := hm s t hst
  cases hn : n t with
  | ok a t' =>
    rw [hn] at hmn
    obtain ⟨s', hrun, hS⟩ := hmn
    rw [bind_ok hn, bind_ok hrun]
    exact hf a s' t' hS
  | stop e t' =>
    rw [hn] at hmn
    obtain ⟨s', hrun, hE⟩ := hmn
    rw [bind_stop hn]
    exact ⟨s', bind_stop hrun f, hE⟩

/-- A step of the simulating side alone. -/
theorem Simulates.left (a : α) (R' : σ → τ → Prop) {m : Exec σ α} {f : α → Exec σ β}
    {n : Exec τ β} (hm : ∀ s t, R s t → ∃ s', m s = .ok a s' ∧ R' s' t)
    (hf : Simulates R' (f a) n S E) : Simulates R (m >>= f) n S E := by
  intro s t hst
  obtain ⟨s', hrun, hR'⟩ := hm s t hst
  rw [bind_ok hrun]
  exact hf s' t hR'

theorem Simulates.modify {f : σ → σ} {g : τ → τ} (h : ∀ s t, R s t → S (f s) (g t)) :
    Simulates R (modify f) (modify g) S E :=
  fun s t hst => ⟨f s, rfl, h s t hst⟩

end Exec

end Prom.C
