/-
  Prom.Errm.Survival — whether an error outlives the handlers.

  An edf function stores the value of its body, runs the handlers, and returns
  the value.  The error code is not stored: it is one variable of the thread,
  which every edf function clears when it is entered, those a handler calls
  among them.

  Main results:
    * `openCall_coded` — the error code after a run is what the log says.
    * `error_survives_iff` — the caller sees the code the body left exactly
      when there was none or no handler cleared it.
-/
import Prom.Errm.OpenPrograms

namespace Prom.Errm

open Prom.C Exec

section Survival

variable {W F R H D A : Type}

/-! ## §1. The error code and the log. -/

/-- The error code after what the log says has happened to it. -/
def codeAfter : Option ErrorCode → List (Mark H) → Option ErrorCode
  | c, [] => c
  | _, .raised c :: ms => codeAfter (some c) ms
  | _, .cleared :: ms => codeAfter none ms
  | c, .registered _ _ _ :: ms => codeAfter c ms
  | c, .ran _ _ _ :: ms => codeAfter c ms

theorem codeAfter_append (c : Option ErrorCode) (ms ms' : List (Mark H)) :
    codeAfter c (ms ++ ms') = codeAfter (codeAfter c ms) ms' := by
  induction ms generalizing c with
  | nil => rfl
  | cons m ms ih =>
    cases m with
    | registered i h v => exact ih c
    | ran i h v => exact ih c
    | raised c' => exact ih (some c')
    | cleared => exact ih none

/-- Every error raised is cleared again. -/
def ErrorFree (ms : List (Mark H)) : Prop :=
  ∀ front c back, ms = front ++ .raised c :: back → Mark.cleared ∈ back

theorem ErrorFree.tail {m : Mark H} {ms : List (Mark H)} (h : ErrorFree (m :: ms)) : ErrorFree ms :=
  fun front c back heq => h (m :: front) c back (congrArg (m :: ·) heq)

/-- What leaves no error leaves the code alone, or clears it. -/
theorem codeAfter_errorFree {ms : List (Mark H)} (h : ErrorFree ms) (c : Option ErrorCode) :
    (Mark.cleared ∈ ms → codeAfter c ms = none) ∧ (Mark.cleared ∉ ms → codeAfter c ms = c) := by
  induction ms generalizing c with
  | nil => exact ⟨fun hmem => absurd hmem List.not_mem_nil, fun _ => rfl⟩
  | cons m ms ih =>
    have hrest := ih h.tail
    cases m with
    | registered i g v =>
      refine ⟨fun hmem => (hrest c).1 ?_, fun hnot => (hrest c).2 fun hmem => hnot (.tail _ hmem)⟩
      cases hmem with
      | tail _ hmem => exact hmem
    | ran i g v =>
      refine ⟨fun hmem => (hrest c).1 ?_, fun hnot => (hrest c).2 fun hmem => hnot (.tail _ hmem)⟩
      cases hmem with
      | tail _ hmem => exact hmem
    | raised c' =>
      -- the error raised here is cleared in what follows
      have hcleared : Mark.cleared ∈ ms := h [] c' ms rfl
      exact ⟨fun _ => (hrest (some c')).1 hcleared, fun hnot => absurd (.tail _ hcleared) hnot⟩
    | cleared =>
      refine ⟨fun _ => ?_, fun hnot => absurd (.head _) hnot⟩
      by_cases hmem : Mark.cleared ∈ ms
      · exact (hrest none).1 hmem
      · exact (hrest none).2 hmem

/-- The log tells how the error code has changed. -/
def Coded (s s' : Traced W H) : Prop :=
  ∃ ms, s'.log = s.log ++ ms ∧ s'.thread.errCode = codeAfter s.thread.errCode ms

theorem Coded.refl (s : Traced W H) : Coded s s := ⟨[], (List.append_nil _).symm, rfl⟩

theorem Coded.trans {s s' s'' : Traced W H} (h : Coded s s') (h' : Coded s' s'') : Coded s s'' := by
  obtain ⟨ms, hlog, hcode⟩ := h
  obtain ⟨ms', hlog', hcode'⟩ := h'
  refine ⟨ms ++ ms', ?_, ?_⟩
  · rw [hlog', hlog, List.append_assoc]
  · rw [hcode', hcode, codeAfter_append]

/-- A change of the frames alone. -/
theorem Coded.thread {s : Traced W H} {t' : Thread H} (h : t'.errCode = s.thread.errCode) :
    Coded s (tracedThread.set s t') := ⟨[], (List.append_nil _).symm, h⟩

/-! ## §2. Steps. -/

/-- A mark that does not concern the error code. -/
theorem markFrame_coded {m : Fin STACK_SIZE → Mark H} (hm : ∀ i c, codeAfter c [m i] = c)
    (s : Traced W H) : Returns (markFrame m) s fun _ s' => Coded s s' := by
  refine Returns.bind (Returns.zoom fun i t hrun => ?_) fun _ s' hs' => hs'
  obtain ⟨-, rfl⟩ := currStackframe_inv hrun
  exact .of_eq rfl ⟨[m i], rfl, (hm i _).symm⟩

theorem defer_errCode (handle : H) (arg : Ptr) (t : Thread H) :
    Returns (defer handle arg) t fun _ t' => t'.errCode = t.errCode := by
  intro u t' hrun
  obtain ⟨i, t₁, hframe, -⟩ := ok_of_bind hrun
  rw [defer_inv (currStackframe_inv hframe).1 hrun, setFrame_errCode]

theorem staticDefer_errCode (handle : H) (n : Size) (obj : List Cell) (t : Thread H) :
    Returns (staticDefer handle n obj) t fun _ t' => t'.errCode = t.errCode := by
  intro u t' hrun
  obtain ⟨i, t₁, hframe, -⟩ := ok_of_bind hrun
  exact (staticDefer_onlyFrame (currStackframe_inv hframe).1 handle n obj u t' hrun).errCode

theorem storeArg_errCode (size : H → Size) (h : H) (n : Nat) (c : Cell) (arg : Arg) (t : Thread H) :
    Returns (storeArg size h n c arg) t fun _ t' => t'.errCode = t.errCode := by
  cases arg with
  | ptr p => exact .pure rfl
  | pool i off =>
    intro u t' hrun
    obtain ⟨-, -, rfl⟩ := storeArg_inv hrun
    rfl

theorem openRegister_coded {size : H → Size} (d : Deferral H size) (s : Traced W H) :
    Returns (openRegister d) s fun _ s' => Coded s s' := by
  cases d with
  | defer h arg =>
    refine Returns.bind (Returns.zoom fun u t' hrun => ?_) fun _ s' hs' => hs'
    exact (markFrame_coded (fun _ _ => rfl) _).mono fun _ s' hs' =>
      (Coded.thread (defer_errCode h arg s.thread u t' hrun)).trans hs'
  | staticDefer h obj =>
    refine Returns.bind (Returns.zoom fun u t' hrun => ?_) fun _ s' hs' => hs'
    exact (markFrame_coded (fun _ _ => rfl) _).mono fun _ s' hs' =>
      (Coded.thread (staticDefer_errCode h (size h) obj.cells s.thread u t' hrun)).trans hs'

theorem perform_coded {callF : F → Exec (Traced W H) R} {act : D → Exec (Traced W H) Unit}
    (hcall : ∀ f s, Returns (callF f) s fun _ s' => Coded s s')
    (hact : ∀ d s, Returns (act d) s fun _ s' => Coded s s') (p : Code W F R D A) (s : Traced W H) :
    Returns (perform callF act p) s fun _ s' => Coded s s' := by
  refine perform_keeps (I := fun s' => Coded s s') ?_ ?_ ?_ ?_ ?_ p (.refl s)
  · intro s₁ w hs₁
    exact hs₁.trans ⟨[], (List.append_nil _).symm, rfl⟩
  · intro s₁ c hs₁
    exact hs₁.trans ⟨[.raised c], rfl, rfl⟩
  · intro s₁ hs₁
    exact hs₁.trans ⟨[.cleared], rfl, rfl⟩
  · intro f s₁ hs₁
    exact (hcall f s₁).mono fun _ s₂ hs₂ => hs₁.trans hs₂
  · intro d s₁ hs₁
    exact (hact d s₁).mono fun _ s₂ hs₂ => hs₁.trans hs₂

/-! ## §3. Handlers and calls. -/

theorem openHandler_coded (P : OpenProgram W F R H) {callF : F → Exec (Traced W H) R}
    (hcall : ∀ f s, Returns (callF f) s fun _ s' => Coded s s') (h : H) (arg : Arg) (s : Traced W H) :
    Returns (openHandler P callF h arg) s fun _ s' => Coded s s' := by
  refine Returns.bind (readArg_same P.size h arg s) fun v s₁ hs₁ => ?_
  subst hs₁
  refine Returns.bind (markFrame_coded (fun _ _ => rfl) s₁) fun _ s₂ hs₂ => ?_
  refine (perform_coded hcall (fun d s₃ => ?_) (P.handler h v) s₂).mono fun _ s' hs' => hs₂.trans hs'
  -- a handler may register and write to its object, neither sets the code
  cases d with
  | register d => exact openRegister_coded d s₃
  | store n c =>
    exact Returns.zoom fun _ t' hrun => .thread (storeArg_errCode P.size h n c arg s₃.thread _ t' hrun)

theorem runDefers_coded (P : OpenProgram W F R H) {callF : F → Exec (Traced W H) R}
    (hcall : ∀ f s, Returns (callF f) s fun _ s' => Coded s s') (s : Traced W H) :
    Returns (runDefers tracedThread (openHandler P callF)) s fun _ s' => Coded s s' := by
  intro u s' hrun
  obtain ⟨i, hcurr⟩ := runDefers_curr hrun
  -- one handler, once its entry is off the frame
  have hhandler : ∀ (s₁ : Traced W H) (fr : Frame H) (h : H) (arg : Arg), Coded s s₁ →
      Returns (openHandler P callF h arg) (tracedThread.set s₁ (s₁.thread.setFrame i fr))
        fun _ s' => Coded s s' := fun s₁ fr h arg hs₁ =>
    (openHandler_coded P hcall h arg _).mono fun _ s' hs' => (hs₁.trans (.thread rfl)).trans hs'
  refine runDefers_keeps (I := fun s' => Coded s s') ?_ ?_ ?_ hcurr (.refl s) u s' hrun
  · exact fun s₁ h off rest hs₁ _ => hhandler s₁ _ h (.pool i off) hs₁
  · exact fun s₁ hs₁ _ => hs₁.trans (.thread rfl)
  · exact fun s₁ h p rest hs₁ _ => hhandler s₁ _ h (.ptr p) hs₁

/-- **The error code after a call** is what the log says. -/
theorem openCall_coded (P : OpenProgram W F R H) (fuel : Nat) (f : F) (s : Traced W H) :
    Returns (openCall P fuel f) s fun _ s' => Coded s s' := by
  induction fuel generalizing f s with
  | zero => exact .fail .fuel s _
  | succ fuel ih =>
    intro r s' hrun
    -- the mark for `errm_clear`, the body, the handlers, and the leaving
    obtain ⟨_, s₀, hmark, hrun⟩ := ok_of_bind hrun
    cases hmark
    obtain ⟨-, s₁, s₂, hbody, hdefers, rfl⟩ := edfFunc_parts hrun
    have hentered : Coded s (entered tracedThread { s with log := s.log ++ [.cleared] }) :=
      ⟨[.cleared], rfl, rfl⟩
    have hs₁ := perform_coded ih openRegister_coded (P.body f) _ r s₁ hbody
    have hs₂ := runDefers_coded P ih s₁ () s₂ hdefers
    exact ((hentered.trans hs₁).trans hs₂).trans (.thread rfl)

/-! ## §4. What the caller sees. -/

/-- **When the error survives.**  Take any program, any edf function of it and
    any call that returns: the body returns in `s₁`, its handlers are run, and
    `ms` is what they do.  If they leave no error of their own, the caller sees
    the code that the body left if and only if that was no error, or no handler
    cleared it: none called `errm_clear`, nor any edf function. -/
theorem error_survives_iff (P : OpenProgram W F R H) (fuel : Nat) (f : F) (s s' : Traced W H) (r : R)
    (hrun : openCall P (fuel + 1) f s = .ok r s') :
    ∃ s₁ s₂ ms,
      perform (openCall P fuel) openRegister (P.body f)
        (entered tracedThread { s with log := s.log ++ [.cleared] }) = .ok r s₁ ∧
      runDefers tracedThread (openHandler P (openCall P fuel)) s₁ = .ok () s₂ ∧
      s₂.log = s₁.log ++ ms ∧
      (ErrorFree ms → (s'.thread.errCode = s₁.thread.errCode ↔
        s₁.thread.errCode = none ∨ Mark.cleared ∉ ms)) := by
  obtain ⟨_, s₀, hmark, hrun⟩ := ok_of_bind hrun
  cases hmark
  obtain ⟨-, s₁, s₂, hbody, hdefers, rfl⟩ := edfFunc_parts hrun
  -- after the body only the handlers touch the code
  obtain ⟨ms, hlog, hcode⟩ := runDefers_coded P (openCall_coded P fuel) s₁ () s₂ hdefers
  refine ⟨s₁, s₂, ms, hbody, hdefers, hlog, fun hfree => ?_⟩
  obtain ⟨hgone, hkept⟩ := codeAfter_errorFree hfree s₁.thread.errCode
  show s₂.thread.errCode = s₁.thread.errCode ↔ _
  rw [hcode]
  -- errors raised were cleared, so a clear leaves none
  by_cases hcleared : Mark.cleared ∈ ms
  · rw [hgone hcleared]
    exact ⟨fun heq => .inl heq.symm, fun hor => hor.elim Eq.symm fun hnot => absurd hcleared hnot⟩
  · exact ⟨fun _ => .inr hcleared, fun _ => hkept hcleared⟩

end Survival

/-- `some b` defers handler `b` and fails; `none` does nothing.  Handler `true`
    calls `none`, handler `false` does nothing. -/
def failing : OpenProgram Unit (Option Bool) Unit Bool where
  size _ := 8
  size_lt _ := pointer_lt
  body
    | some b => .act (.defer b .null) <| .error .NOT_ENOUGH_MEMORY <| .ret ()
    | none => .ret ()
  handler
    | true, _ => .call none fun _ => .ret ()
    | false, _ => .ret ()

/-- A call that returns with this error code. -/
theorem leaves_code {m : Exec (Traced Unit Bool) Unit} {s : Traced Unit Bool} {c : Option ErrorCode}
    (h : check m s (fun _ s' => s'.thread.errCode = c) = true) :
    ∃ s', m s = .ok () s' ∧ s'.thread.errCode = c := by
  obtain ⟨_, s', hrun, hcode⟩ := Yields.of_check h
  exact ⟨s', hrun, of_decide_eq_true hcode⟩

/-- The error survives a handler that calls nothing. -/
theorem quiet_handler_survives :
    ∃ s', openCall failing 2 (some false) ⟨.start Bool, (), []⟩ = .ok () s' ∧
      ∃ s₁, perform (openCall failing 1) openRegister (failing.body (some false))
          (entered tracedThread ⟨.start Bool, (), [.cleared]⟩) = .ok () s₁ ∧
        s'.thread.errCode = s₁.thread.errCode := by
  obtain ⟨s', hrun, -⟩ : ∃ s', openCall failing 2 (some false) ⟨.start Bool, (), []⟩ = .ok () s' ∧
      s'.thread.errCode = some .NOT_ENOUGH_MEMORY := leaves_code (by decide +kernel)
  obtain ⟨s₁, s₂, ms, hbody, hdefers, hlog, hsurvives⟩ :=
    error_survives_iff failing 1 (some false) _ s' () hrun
  -- the log after the body, and after the handlers
  have hlog₁ := of_decide_eq_true (test_of_check (p := fun _ s => s.log.length = 3) hbody
    (by decide +kernel))
  have hlog₂ := of_decide_eq_true (test_of_check
    (p := fun _ s => s.log.drop 3 = [.ran bottomFrame false (.ptr .null)])
    ((bind_ok hbody fun _ => runDefers tracedThread (openHandler failing (openCall failing 1))).trans
      hdefers) (by decide +kernel))
  have hms : ms = [.ran bottomFrame false (.ptr .null)] := by
    rw [hlog, ← hlog₁, List.drop_left] at hlog₂
    exact hlog₂
  subst hms
  refine ⟨s', hrun, s₁, hbody, (hsurvives ?_).mpr (.inr (by decide))⟩
  intro front c back heq
  have hmem : Mark.raised c ∈ front ++ .raised c :: back := List.mem_append_right _ (.head _)
  rw [← heq] at hmem
  cases List.mem_singleton.mp hmem

/-- **A handler that calls an edf function hides the error**, although the
    function has none. -/
theorem calling_handler_hides :
    (∃ s₁, perform (openCall failing 1) openRegister (failing.body (some true))
        (entered tracedThread ⟨.start Bool, (), [.cleared]⟩) = .ok () s₁ ∧
      s₁.thread.errCode = some .NOT_ENOUGH_MEMORY) ∧
    (∃ s₂, openCall failing 1 none ⟨.start Bool, (), []⟩ = .ok () s₂ ∧ s₂.thread.errCode = none) ∧
    ∃ s', openCall failing 2 (some true) ⟨.start Bool, (), []⟩ = .ok () s' ∧
      s'.thread.errCode = none :=
  ⟨leaves_code (by decide +kernel), leaves_code (by decide +kernel), leaves_code (by decide +kernel)⟩

end Prom.Errm
