import Terminal.Parser.Chunks

/-!
# What a conpty forwards

The terminal gets the sequences that the engine does not know, from the cache of earlier strings
and the current run. A code unit is forwarded at most once, an unhandled sequence whole.
-/

namespace Terminal.Parser

open StateMachine List

/-! ## The forwarded text -/

def passText : Call → List Wchar
  | .passThroughString string => string
  | _ => []

def passed (calls : List Call) : List Wchar := calls.flatMap passText

def forwardable : Call → Bool
  | .escDispatch _ | .csiDispatch _ _ | .oscDispatch _ _ _ => true
  | _ => false

def Unhandled (E : Engine) (old new : List Call) : Prop :=
  ∃ h c, old <+: h ∧ h ++ [c] <+: new ∧ forwardable c = true ∧ (E.dispatch (h ++ [c])).success = false

/-- The log grows, and everything that could be forwarded is handled. -/
inductive Handled (E : Engine) (old : List Call) : List Call → Prop
  | refl : Handled E old old
  | step {new : List Call} (h : Handled E old new) (c : Call)
      (hc : forwardable c = true → (E.dispatch (new ++ [c])).success = true) : Handled E old (new ++ [c])

section

variable {E : Engine} {a b c : List Call}

theorem passed_append (a b : List Call) : passed (a ++ b) = passed a ++ passed b := by simp [passed]

theorem Handled.grows (h : Handled E a b) : a <+: b := by
  induction h with
  | refl => exact prefix_refl a
  | step _ _ _ ih => exact ih.trans (prefix_append _ _)

theorem Handled.trans (h : Handled E a b) (h' : Handled E b c) : Handled E a c := by
  induction h' with
  | refl => exact h
  | step _ d hd ih => exact ih.step d hd

theorem Handled.not_unhandled (h : Handled E a b) : ¬Unhandled E a b := by
  induction h with
  | refl =>
    rintro ⟨h, c, hold, hnew, -, -⟩
    have h1 := hold.length_le
    have h2 := hnew.length_le
    rw [length_append, length_singleton] at h2
    omega
  | @step new hprev d hd ih =>
    rintro ⟨h, c, hold, hnew, hc, hfail⟩
    rcases prefix_concat_iff.mp hnew with heq | hpre
    · obtain ⟨rfl, hcd⟩ := append_inj' heq rfl
      obtain rfl := singleton_inj.mp hcd
      rw [hd hc] at hfail
      exact absurd hfail (by decide)
    · exact ih ⟨h, c, hold, hpre, hc, hfail⟩

end

/-! ## Steps of the machine -/

/-- What only `ProcessString` and the engine's callbacks change. -/
structure Frame (m m' : StateMachine) : Prop where
  string : m'.currentString = m.currentString
  offset : m'.runOffset = m.runOffset
  size : m'.runSize = m.runSize
  flag : m'.processingIndividually = m.processingIndividually
  callback : m'.onCsiCompleteCallback = m.onCsiCompleteCallback
  output : m'.isEngineForInput = m.isEngineForInput

theorem Frame.refl (m : StateMachine) : Frame m m := ⟨rfl, rfl, rfl, rfl, rfl, rfl⟩

theorem Frame.trans {m₁ m₂ m₃ : StateMachine} (h : Frame m₁ m₂) (h' : Frame m₂ m₃) : Frame m₁ m₃ :=
  ⟨h'.string.trans h.string, h'.offset.trans h.offset, h'.size.trans h.size, h'.flag.trans h.flag,
    h'.callback.trans h.callback, h'.output.trans h.output⟩

theorem Frame.currentRun {m m' : StateMachine} (h : Frame m m') : m'.currentRun = m.currentRun := by
  unfold StateMachine.currentRun
  rw [h.size, h.string, h.offset]

def flushText (m : StateMachine) : List Wchar := m.cachedSequence.getD [] ++ m.currentRun

structure Silent (E : Engine) (m m' : StateMachine) : Prop where
  frame : Frame m m'
  handled : Handled E m.calls m'.calls
  passed : passed m'.calls = passed m.calls
  cached : m'.cachedSequence = m.cachedSequence

structure Flushed (m m' : StateMachine) : Prop where
  frame : Frame m m'
  grows : m.calls <+: m'.calls
  passed : passed m'.calls = passed m.calls ++ flushText m
  cached : m'.cachedSequence = none

theorem Silent.refl (E : Engine) (m : StateMachine) : Silent E m m := ⟨Frame.refl m, .refl, rfl, rfl⟩

theorem Silent.trans {E : Engine} {m₁ m₂ m₃ : StateMachine} (h : Silent E m₁ m₂)
    (h' : Silent E m₂ m₃) : Silent E m₁ m₃ :=
  ⟨h.frame.trans h'.frame, h.handled.trans h'.handled, h'.passed.trans h.passed, h'.cached.trans h.cached⟩

theorem Silent.flushed {E : Engine} {m₁ m₂ m₃ : StateMachine} (h : Silent E m₁ m₂)
    (h' : Flushed m₂ m₃) : Flushed m₁ m₃ where
  frame := h.frame.trans h'.frame
  grows := h.handled.grows.trans h'.grows
  passed := by rw [h'.passed, h.passed, flushText, flushText, h.cached, h.frame.currentRun]
  cached := h'.cached

/-- No soft font, no macro, and what is written arrives. -/
structure Plain (D : List Call → Reply) : Prop where
  handler : ∀ h k, (D h).handler = some k → k = .engine ∨ ∃ buffer, k = .passthrough buffer
  macroText : ∀ h, (D h).macroText = none
  written : ∀ h string, (D (h ++ [.passThroughString string])).success = true

/-- The same of the whole engine, and when it flushes. -/
structure Conpty (E : Engine) : Prop where
  handler : ∀ h k, (E.dispatch h).handler = some k → k = .engine ∨ ∃ buffer, k = .passthrough buffer
  macroText : ∀ h, (E.dispatch h).macroText = none
  written : ∀ h string, (E.dispatch (h ++ [.passThroughString string])).success = true
  terminator : ∀ h, (E.dispatch (h ++ [.escDispatch (VTID.fromString ['\\'])])).success = true
  unhandled : ∀ c r, forwardable c = true → E.flushes c r = !r.success
  bell : ∀ c r, forwardable c = false → E.flushes c r = true → c = .execute BEL

theorem conpty_outputEngine {D : List Call → Reply} (hD : Plain D)
    (inject : List Wchar → StateMachine → StateMachine) : Conpty (outputEngine true D inject) where
  handler h k hk := by
    simp only [outputEngine] at hk
    split at hk <;> try split at hk
    all_goals first
      | exact hD.handler _ k hk
      | exact Or.inl (by simpa using hk.symm)
  macroText h := by
    simp only [outputEngine]
    split <;> try split
    all_goals first
      | exact hD.macroText _
      | rfl
  written h string := by simp [outputEngine, hD.written]
  terminator h := by simp [outputEngine]
  unhandled c r hc := by
    cases c <;> simp [forwardable] at hc <;> simp [outputEngine]
  bell c r hc hflush := by
    cases c <;> simp [forwardable] at hc <;> simp_all [outputEngine]

section

variable {E : Engine} {m n : StateMachine} {wch : Wchar}

variable (hE : Conpty E)

include hE

theorem call_frame (c : Call) : Frame m (call E c m).2 := by
  refine ⟨rfl, rfl, rfl, rfl, ?_, rfl⟩
  simp [call, hE.macroText]

theorem call_silent {c : Call} (hc : passText c = [])
    (hok : forwardable c = true → (call E c m).1.success = true) : Silent E m (call E c m).2 where
  frame := call_frame hE c
  handled := Handled.refl.step c hok
  passed := by
    have happ : (call E c m).2.calls = m.calls ++ [c] := rfl
    rw [happ]
    simp [Parser.passed, hc]
  cached := rfl

theorem call_passThrough (string : List Wchar) : (call E (.passThroughString string) m).1.success = true ∧
      Frame m (call E (.passThroughString string) m).2 ∧
      passed (call E (.passThroughString string) m).2.calls = passed m.calls ++ string ∧
      Handled E m.calls (call E (.passThroughString string) m).2.calls := by
  refine ⟨hE.written _ _, call_frame hE _, ?_, Handled.refl.step _ (fun h => absurd h (by simp [forwardable]))⟩
  have happ : (call E (.passThroughString string) m).2.calls = m.calls ++ [.passThroughString string] := rfl
  rw [happ]
  simp [passed, passText]

theorem flushToTerminal_flushed : (flushToTerminal E m).1 = true ∧ Flushed m (flushToTerminal E m).2 := by
  unfold flushToTerminal
  cases hcached : m.cachedSequence with
  | none =>
    obtain ⟨hok, hframe, hpassed, hgrows⟩ := call_passThrough (m := m) hE m.currentRun
    refine ⟨hok, hframe, hgrows.grows, ?_, hcached⟩
    rw [flushText, hcached]
    exact hpassed
  | some cached =>
    obtain ⟨hok, hframe, hpassed, hgrows⟩ := call_passThrough (m := m) hE cached
    let m₁ := { (call E (.passThroughString cached) m).2 with cachedSequence := none }
    have hframe₁ : Frame m m₁ := { hframe with }
    obtain ⟨hok', hframe', hpassed', hgrows'⟩ := call_passThrough (m := m₁) hE m₁.currentRun
    dsimp only
    rw [if_pos hok]
    refine ⟨hok', hframe₁.trans hframe', hgrows.grows.trans hgrows'.grows, ?_, rfl⟩
    rw [flushText, hcached]
    refine hpassed'.trans ?_
    rw [hpassed, append_assoc]
    rfl

theorem notify_unflushed {c : Call} (hc : passText c = [])
    (hflush : E.flushes c (call E c m).1 = false) : Silent E m (notify E c m) := by
  have hok : forwardable c = true → (call E c m).1.success = true := by
    intro hf
    rw [hE.unhandled _ _ hf] at hflush
    simpa using hflush
  unfold notify
  simp only [hflush]
  exact call_silent hE hc hok

theorem notify_silent {c : Call} (hc : passText c = []) (hf : forwardable c = false)
    (hbell : c ≠ .execute BEL) : Silent E m (notify E c m) := by
  apply notify_unflushed hE hc
  by_contra hne
  exact hbell (hE.bell c _ hf (by simpa using hne))

theorem notify_flushed {c : Call} (hc : passText c = []) (hflush : E.flushes c (call E c m).1 = true) :
    Flushed m (notify E c m) := by
  have hcall : Flushed (call E c m).2 (flushToTerminal E (call E c m).2).2 := (flushToTerminal_flushed hE).2
  have happ : (call E c m).2.calls = m.calls ++ [c] := rfl
  have hpassed : passed (call E c m).2.calls = passed m.calls := by
    rw [happ]
    simp [passed, hc]
  unfold notify
  simp only [hflush]
  refine ⟨(call_frame hE c).trans hcall.frame, ?_, ?_, hcall.cached⟩
  · exact (prefix_append _ [c]).trans hcall.grows
  · refine hcall.passed.trans ?_
    rw [hpassed]
    rfl

theorem notify_cases {c : Call} (hc : passText c = []) : Silent E m (notify E c m) ∨ Flushed m (notify E c m) := by
  cases hflush : E.flushes c (call E c m).1 with
  | true => exact Or.inr (notify_flushed hE hc hflush)
  | false => exact Or.inl (notify_unflushed hE hc hflush)

end

/-! ## Outcomes -/

def Calm (m : StateMachine) : Prop := ∀ k, m.dcsStringHandler = some k → k = .engine

structure Settled (m : StateMachine) : Prop where
  calm : Calm m
  clear : resting m.state = true → m.cachedSequence = none
  callback : m.onCsiCompleteCallback = none

/-- Nothing, or the flush of a sequence or of an introducer. -/
inductive Outcome (E : Engine) (m m' : StateMachine) : Prop
  | quiet (frame : Frame m m') (handled : Handled E m.calls m'.calls) (passed : passed m'.calls = passed m.calls)
      (cached : m'.cachedSequence = if resting m'.state then none else m.cachedSequence) (calm : Calm m')
  | flushed (h : Flushed m m') (state : m'.state = .ground) (calm : Calm m')
  | opened (h : Flushed m m') (state : m'.state = .dcsPassThrough)
      (handler : m'.dcsStringHandler = some (.passthrough []))

section

variable {E : Engine} {m n k : StateMachine} {wch : Wchar}

theorem Silent.install (h : Silent E m n) (handler : Option StringHandler) :
    Silent E m { n with dcsStringHandler := handler } :=
  { h with frame := { h.frame with } }

theorem Silent.stay (h : Silent E m n) (hs : n.state = m.state) (hc : Calm n) (hm : Settled m) : Outcome E m n := by
  refine .quiet h.frame h.handled h.passed ?_ hc
  rw [h.cached, hs]
  split
  · exact hm.clear ‹_›
  · rfl

theorem Silent.enter (h : Silent E m n) (q : VTStates) (hc : Calm n) : Outcome E m (n.enter q) := by
  have hframe := h.frame
  unfold StateMachine.enter
  split
  · rename_i hq
    refine .quiet { hframe with } h.handled h.passed ?_ hc
    simp only [hq]
    rfl
  · rename_i hq
    refine .quiet { hframe with } h.handled h.passed ?_ hc
    simp only [hq]
    exact h.cached

theorem Flushed.ground (h : Flushed m n) (hc : Calm n) : Outcome E m (enterGround n) :=
  .flushed ⟨{ h.frame with }, h.grows, h.passed, rfl⟩ rfl hc

theorem notify_calm (hc : Calm m) (c : Call) : Calm (notify E c m) := by
  unfold Calm
  rw [(notify_untouched c).handler]
  exact hc

theorem actionExecute_silent (hE : Conpty E) (hb : wch ≠ BEL) : Silent E m (actionExecute E wch m) :=
  notify_silent hE rfl rfl (by simpa using hb)

theorem dispatch_outcome (hE : Conpty E) (hm : Settled m) {c : Call} (hc : passText c = []) :
    Outcome E m (enterGround (notify E c m)) := by
  rcases notify_cases (m := m) hE hc with h | h
  · exact h.enter .ground (notify_calm hm.calm c)
  · exact h.ground (notify_calm hm.calm c)

theorem csiDone_outcome (hE : Conpty E) (hm : Settled m) :
    Outcome E m (executeCsiCompleteCallback E (enterGround (actionCsiDispatch E wch m))) := by
  have h : Outcome E m (enterGround (actionCsiDispatch E wch m)) := dispatch_outcome hE hm rfl
  have hframe : Frame m (enterGround (actionCsiDispatch E wch m)) := by
    cases h with
    | quiet hf => exact hf
    | flushed hf => exact hf.frame
    | opened hf => exact hf.frame
  unfold executeCsiCompleteCallback
  rw [hframe.callback, hm.callback]
  exact h

theorem actionClear_silent (hE : Conpty E) : Silent E m (actionClear E m) ∧ Calm (actionClear E m) := by
  let m₁ := { m with
    identifier := m.identifier.clear, parameters := [], parameterLimitReached := false
    oscString := [], oscParameter := 0, dcsStringHandler := none }
  have h₁ : Silent E m m₁ := ⟨⟨rfl, rfl, rfl, rfl, rfl, rfl⟩, .refl, rfl, rfl⟩
  have h₂ : Silent E m₁ (notify E .clear m₁) := notify_silent hE rfl rfl (by simp)
  exact ⟨h₁.trans h₂, notify_calm (by simp [Calm]) _⟩

theorem enterCleared_silent (hE : Conpty E) (q : VTStates) :
    Silent E m (actionClear E { m with state := q }) ∧ Calm (actionClear E { m with state := q }) ∧
      (actionClear E { m with state := q }).state = q ∧ (actionClear E { m with state := q }).identifier = {} := by
  obtain ⟨h, hc⟩ := actionClear_silent (m := { m with state := q }) hE
  have hq : Silent E m { m with state := q } := ⟨⟨rfl, rfl, rfl, rfl, rfl, rfl⟩, .refl, rfl, rfl⟩
  exact ⟨hq.trans h, hc, (notify_untouched _).state, (notify_untouched _).identifier⟩

theorem enterCleared_outcome (hE : Conpty E) {q : VTStates} (hq : resting q = false) :
    Outcome E m (actionClear E { m with state := q }) := by
  obtain ⟨h, hc, hs, -⟩ := enterCleared_silent (m := m) hE q
  refine .quiet h.frame h.handled h.passed ?_ hc
  rw [hs, hq]
  exact h.cached

theorem Update.silent (u : Update) (wch : Wchar) (m : StateMachine) :
    Silent E m (u.apply wch m) ∧ (u.apply wch m).state = m.state ∧
      (u.apply wch m).dcsStringHandler = m.dcsStringHandler := by
  cases u <;> exact ⟨⟨⟨rfl, rfl, rfl, rfl, rfl, rfl⟩, .refl, rfl, rfl⟩, rfl, rfl⟩

/-! ## Events -/

theorem Silent.outcome (h : Silent E m n) (ho : Outcome E n k) : Outcome E m k := by
  cases ho with
  | quiet hframe hhandled hpassed hcached hcalm =>
    refine .quiet (h.frame.trans hframe) (h.handled.trans hhandled) (hpassed.trans h.passed) ?_ hcalm
    rw [hcached, h.cached]
  | flushed hflush hstate hcalm => exact .flushed (h.flushed hflush) hstate hcalm
  | opened hflush hstate hhandler => exact .opened (h.flushed hflush) hstate hhandler

theorem Silent.settled (h : Silent E m n) (hm : Settled m) (hc : Calm n) (hs : resting n.state = false) : Settled n :=
  ⟨hc, fun hr => by rw [hs] at hr; exact absurd hr (by decide), h.frame.callback.trans hm.callback⟩

/-! ### DCS -/

theorem actionDcsDispatch_outcome (hE : Conpty E) : Outcome E m (actionDcsDispatch E wch m) := by
  let c := Call.dcsDispatch (m.identifier.finalize wch) m.parameters
  have hcall : Silent E m (call E c m).2 := call_silent hE rfl (by simp [forwardable])
  have hhandler : ∀ k, (call E c m).1.handler = some k → k = .engine ∨ ∃ buffer, k = .passthrough buffer :=
    fun k hk => hE.handler _ k hk
  unfold actionDcsDispatch
  dsimp only
  cases hk : (call E c m).1.handler with
  | none => exact (hcall.install none).enter .dcsIgnore (by simp [Calm])
  | some k =>
    rcases hhandler k hk with rfl | ⟨buffer, rfl⟩
    · exact (hcall.install (some .engine)).enter .dcsPassThrough (by simp [Calm])
    · obtain ⟨hok, hflush⟩ := flushToTerminal_flushed (m := (call E c m).2) hE
      have hf := hcall.flushed hflush
      have hinst : installHandler E (some (.passthrough buffer)) (call E c m).2 =
          { (flushToTerminal E (call E c m).2).2 with dcsStringHandler := some (.passthrough []) } := by
        simp only [installHandler, hok]
        rfl
      rw [hinst]
      exact .opened ⟨{ hf.frame with }, hf.grows, hf.passed, rfl⟩ rfl rfl

theorem callStringHandler_silent (wch : Wchar) (hE : Conpty E) (hm : Settled m) :
    Silent E m (callStringHandler E wch m).2 ∧ Calm (callStringHandler E wch m).2 ∧
      (callStringHandler E wch m).2.state = m.state := by
  unfold callStringHandler
  cases hk : m.dcsStringHandler with
  | none => exact ⟨Silent.refl E m, hm.calm, rfl⟩
  | some k =>
    obtain rfl := hm.calm k hk
    exact ⟨call_silent hE rfl (by simp [forwardable]), hm.calm, rfl⟩

theorem actionExecute_outcome (hE : Conpty E) (hm : Settled m) (hbell : wch = BEL → m.state = .ground) :
    Outcome E m (actionExecute E wch m) := by
  have hcalm := notify_calm (E := E) hm.calm (.execute wch)
  by_cases hb : wch = BEL
  · rcases notify_cases (m := m) (c := .execute wch) hE rfl with h | h
    · exact h.stay (notify_untouched _).state hcalm hm
    · exact .flushed h ((notify_untouched _).state.trans (hbell hb)) hcalm
  · exact (actionExecute_silent hE hb).stay (notify_untouched _).state hcalm hm

theorem Act.run_outcome (hE : Conpty E) (hm : Settled m) (act : Act)
    (hbell : act = .execute → wch = BEL → m.state = .ground) : Outcome E m (act.run E wch m) := by
  cases act with
  | change u =>
    obtain ⟨h, hs, hk⟩ := u.silent (E := E) wch m
    exact h.stay hs (by rw [Calm, hk]; exact hm.calm) hm
  | move u q =>
    obtain ⟨h, -, hk⟩ := u.silent (E := E) wch m
    exact h.enter q (by rw [Calm, hk]; exact hm.calm)
  | execute => exact actionExecute_outcome hE hm (hbell rfl)
  | print =>
    exact (notify_silent hE rfl rfl (by simp)).stay (notify_untouched _).state (notify_calm hm.calm _) hm
  | finish e => exact dispatch_outcome hE hm (by cases e <;> rfl)
  | csiDispatch => exact csiDone_outcome hE hm
  | vt52Dispatch =>
    have hm' : Settled (Update.vt52Param.apply wch m) := { hm with }
    exact (Update.vt52Param.silent wch m).1.outcome (dispatch_outcome hE hm' rfl)
  | clear q hq => exact enterCleared_outcome hE hq
  | dcsDispatch => exact actionDcsDispatch_outcome hE
  | put =>
    obtain ⟨h, hc, hs⟩ := callStringHandler_silent wch hE hm
    unfold Act.run
    dsimp only
    split_ifs
    · exact h.stay hs hc hm
    · exact h.enter .dcsIgnore hc

/-! ### Characters -/

/-- Where a BEL is executed although a sequence is unfinished. -/
def midSequence : VTStates → Bool
  | .escape | .escapeIntermediate | .csiEntry | .csiIntermediate | .csiIgnore | .csiParam
  | .oscTermination | .ss3Entry | .ss3Param | .vt52Param => true
  | _ => false

theorem act_execute (h : act wch m = .execute) : m.state = .ground ∨ midSequence m.state = true := by
  unfold act at h
  cases hs : m.state with
  | ground => exact .inl rfl
  | escape | escapeIntermediate | csiEntry | csiIntermediate | csiIgnore | csiParam | oscTermination | ss3Entry
  | ss3Param | vt52Param => exact .inr rfl
  | dcsIgnore | sosPmApcString =>
    rw [hs] at h
    exact absurd h (by simp)
  | _ =>
    rw [hs] at h
    dsimp only at h
    split_ifs at h

theorem event_outcome (hE : Conpty E) (hm : Settled m) (hb : wch = BEL → midSequence m.state = false) :
    Outcome E m (event E wch m) := by
  apply event_of_run E
  · intro _
    refine Act.run_outcome hE hm _ fun hact hbel => (act_execute hact).resolve_right ?_
    rw [hb hbel]
    exact Bool.false_ne_true
  · intro hanew
    obtain ⟨h, hc, hs, -⟩ := enterCleared_silent (m := m) hE .escape
    refine h.outcome (Act.run_outcome hE (h.settled hm hc (by rw [hs]; rfl)) _ fun _ hbel => ?_)
    have hmid := hb hbel
    rw [hanew.1] at hmid
    exact absurd hmid (by decide)

theorem actionInterrupt_silent (hE : Conpty E) (hm : Settled m) :
    Silent E m (actionInterrupt E m) ∧ Calm (actionInterrupt E m) := by
  unfold actionInterrupt
  split_ifs
  · obtain ⟨h, -, -⟩ := callStringHandler_silent ESC hE hm
    exact ⟨h.install none, by simp [Calm]⟩
  · exact ⟨Silent.refl E m, hm.calm⟩

theorem escape_silent (hE : Conpty E) (hm : Settled m) :
    Silent E m (processNonC1 E ESC m) ∧ Calm (processNonC1 E ESC m) ∧
      ((processNonC1 E ESC m).state = .escape ∨ (processNonC1 E ESC m).state = .oscTermination) := by
  by_cases hosc : m.state = .oscString
  · have hstep : processNonC1 E ESC m = enterOscTermination m := by
      simp [processNonC1, isFromAnywhereChar, isEscape, event, eventOscString, isOscTerminator, ESC, hosc]
    rw [hstep]
    exact ⟨⟨⟨rfl, rfl, rfl, rfl, rfl, rfl⟩, .refl, rfl, rfl⟩, hm.calm, Or.inr rfl⟩
  · have hstep : processNonC1 E ESC m = enterEscape E (actionInterrupt E m) := by
      simp [processNonC1, isFromAnywhereChar, isEscape, ESC, hosc]
    obtain ⟨h, -⟩ := actionInterrupt_silent hE hm
    obtain ⟨h', hc, hs, -⟩ := enterCleared_silent (m := actionInterrupt E m) hE .escape
    rw [hstep]
    exact ⟨h.trans h', hc, Or.inl hs⟩

theorem processNonC1_outcome (hE : Conpty E) (hm : Settled m) (hb : wch = BEL → midSequence m.state = false) :
    Outcome E m (processNonC1 E wch m) := by
  by_cases hany : (isFromAnywhereChar wch && !(m.state = .escape && m.isEngineForInput)) = true
  · obtain ⟨h, hc⟩ := actionInterrupt_silent hE hm
    have hne : wch ≠ BEL := by
      rintro rfl
      simp [isFromAnywhereChar, BEL] at hany
    rw [processNonC1, if_pos hany]
    exact (h.trans (actionExecute_silent hE hne)).enter .ground (notify_calm hc _)
  · by_cases hesc : isEscape wch = true
    · have hwch : wch = ESC := BitVec.eq_of_toNat_eq (by simpa [isEscape, ESC] using hesc)
      subst hwch
      obtain ⟨h, hc, hs⟩ := escape_silent hE hm
      refine .quiet h.frame h.handled h.passed ?_ hc
      rcases hs with hs | hs <;> rw [hs, h.cached] <;> rfl
    · have hstep : processNonC1 E wch m = event E wch m := by
        rw [processNonC1, if_neg hany, if_neg (by simp [hesc])]
      rw [hstep]
      exact event_outcome hE hm hb

theorem processCharacter_outcome (hE : Conpty E) (hm : Settled m) (hb : wch = BEL → midSequence m.state = false) :
    Outcome E m (processCharacter E wch m) := by
  unfold processCharacter
  split_ifs with hc1
  · obtain ⟨h, hc, hs⟩ := escape_silent hE hm
    have hrest : resting (processNonC1 E ESC m).state = false := by
      rcases hs with hs | hs <;> rw [hs] <;> rfl
    refine h.outcome (processNonC1_outcome hE (h.settled hm hc hrest) ?_)
    intro heq
    have := congrArg BitVec.toNat heq
    simp [isC1ControlCharacter, c1To7Bit, BEL] at hc1 this
    omega
  · exact (Silent.refl E m).stay rfl hm.calm hm
  · exact processNonC1_outcome hE hm hb

/-! ## Strings that are forwarded -/

/-- The data of the current string goes to the terminal through a buffer. -/
structure Forwarding (m : StateMachine) (buffer : List Wchar) : Prop where
  state : m.state = .dcsPassThrough
  handler : m.dcsStringHandler = some (.passthrough buffer)

theorem passthroughPut_spec (wch : Wchar) (hE : Conpty E) (buffer : List Wchar) :
    (passthroughPut E wch buffer m).1 = !isEscape wch ∧ Frame m (passthroughPut E wch buffer m).2.2 ∧
      Handled E m.calls (passthroughPut E wch buffer m).2.2.calls ∧
      (passthroughPut E wch buffer m).2.2.state = m.state ∧
      (passthroughPut E wch buffer m).2.2.cachedSequence = m.cachedSequence ∧
      passed (passthroughPut E wch buffer m).2.2.calls ++ (passthroughPut E wch buffer m).2.1 =
        passed m.calls ++ (buffer ++ if isEscape wch then [wch, 0x5C] else [wch]) := by
  unfold passthroughPut
  cases hesc : isEscape wch with
  | true =>
    simp only [Bool.or_true, if_true]
    obtain ⟨-, hframe, hpassed, hhandled⟩ := call_passThrough (m := m) hE (buffer ++ [wch] ++ [0x5C])
    refine ⟨trivial, hframe, hhandled, rfl, rfl, ?_⟩
    rw [hpassed, append_nil, append_assoc]
    rfl
  | false =>
    simp only [Bool.false_eq_true, if_false]
    split
    · obtain ⟨-, hframe, hpassed, hhandled⟩ := call_passThrough (m := m) hE (buffer ++ [wch])
      refine ⟨rfl, hframe, hhandled, rfl, rfl, ?_⟩
      rw [hpassed, append_nil]
    · exact ⟨rfl, Frame.refl m, .refl, rfl, rfl, rfl⟩

theorem forward_data (hE : Conpty E) {buffer : List Wchar} (hf : Forwarding m buffer) (hesc : isEscape wch = false)
    (hany : isFromAnywhereChar wch = false)
    (hc1 : isC1ControlCharacter wch = true → m.parserMode.parsesC1 = false) :
    ∃ buffer', Forwarding (processCharacter E wch m) buffer' ∧ Frame m (processCharacter E wch m) ∧
      Handled E m.calls (processCharacter E wch m).calls ∧
      (processCharacter E wch m).cachedSequence = m.cachedSequence ∧
      (passed (processCharacter E wch m).calls ++ buffer' = passed m.calls ++ buffer ∨
        passed (processCharacter E wch m).calls ++ buffer' = passed m.calls ++ (buffer ++ [wch])) := by
  by_cases h1 : isC1ControlCharacter wch = true
  · have hstep : processCharacter E wch m = m := by
      rw [processCharacter, if_pos h1, if_neg (by simp [hc1 h1])]
    rw [hstep]
    exact ⟨buffer, hf, Frame.refl m, .refl, rfl, Or.inl rfl⟩
  · have hstep : processCharacter E wch m = eventDcsPassThrough E wch m := by
      simp [processCharacter, processNonC1, h1, hany, hesc, event, hf.state]
    rw [hstep]
    unfold eventDcsPassThrough
    split
    · obtain ⟨hmore, hframe, hhandled, hstate, hcached, hpassed⟩ := passthroughPut_spec (m := m) wch hE buffer
      have hput : callStringHandler E wch m = (true, { (passthroughPut E wch buffer m).2.2 with
          dcsStringHandler := some (.passthrough (passthroughPut E wch buffer m).2.1) }) := by
        unfold callStringHandler
        rw [hf.handler]
        simp only [hmore, hesc]
        rfl
      rw [hput]
      refine ⟨(passthroughPut E wch buffer m).2.1, ⟨hstate.trans hf.state, rfl⟩, ?_, hhandled, hcached, Or.inr ?_⟩
      · exact { hframe with }
      · rw [hesc] at hpassed
        exact hpassed
    · exact ⟨buffer, hf, Frame.refl m, .refl, rfl, Or.inl rfl⟩

theorem forward_close (hE : Conpty E) {buffer : List Wchar} (hf : Forwarding m buffer) :
    Frame m (processCharacter E ESC m) ∧ Handled E m.calls (processCharacter E ESC m).calls ∧
      (processCharacter E ESC m).state = .escape ∧ (processCharacter E ESC m).identifier = {} ∧
      Calm (processCharacter E ESC m) ∧
      passed (processCharacter E ESC m).calls = passed m.calls ++ (buffer ++ [ESC, 0x5C]) := by
  obtain ⟨-, hframe, hhandled, -, -, hpassed⟩ := passthroughPut_spec (m := m) ESC hE buffer
  let m₁ := { (passthroughPut E ESC buffer m).2.2 with dcsStringHandler := none }
  have hint : actionInterrupt E m = m₁ := by
    unfold actionInterrupt callStringHandler
    rw [if_pos hf.state, hf.handler]
  have hstep : processCharacter E ESC m = enterEscape E m₁ := by
    simp [processCharacter, processNonC1, isC1ControlCharacter, isFromAnywhereChar, isEscape, ESC, hf.state]
    rw [← hint]
  obtain ⟨h, hc, hs, hid⟩ := enterCleared_silent (m := m₁) hE .escape
  rw [hstep]
  refine ⟨?_, hhandled.trans h.handled, hs, hid, hc, ?_⟩
  · have hframe₁ : Frame m m₁ := { hframe with }
    exact hframe₁.trans h.frame
  · have hbuf : (passthroughPut E ESC buffer m).2.1 = [] := by simp [passthroughPut, isEscape, ESC]
    rw [hbuf, append_nil] at hpassed
    exact h.passed.trans hpassed

theorem forward_terminator (hE : Conpty E) (hs : m.state = .escape) (hid : m.identifier = {}) (hc : Calm m) :
    Frame m (processCharacter E 0x5C m) ∧ Handled E m.calls (processCharacter E 0x5C m).calls ∧
      (processCharacter E 0x5C m).state = .ground ∧ (processCharacter E 0x5C m).cachedSequence = none ∧
      Calm (processCharacter E 0x5C m) ∧ passed (processCharacter E 0x5C m).calls = passed m.calls := by
  have hsilent : ∃ c, processCharacter E 0x5C m = enterGround (notify E c m) ∧ Silent E m (notify E c m) := by
    by_cases hansi : m.parserMode.ansi = true
    · refine ⟨.escDispatch (VTID.fromString ['\\']), ?_, ?_⟩
      · simp [processCharacter, processNonC1, isC1ControlCharacter, isFromAnywhereChar, isEscape, event, eventEscape,
          isSosIndicator, isPmIndicator, isApcIndicator, hs, hansi, actionEscDispatch, hid]
        rfl
      · apply notify_unflushed hE rfl
        rw [hE.unhandled _ _ rfl]
        simpa [call] using hE.terminator m.calls
    · refine ⟨.vt52EscDispatch (m.identifier.finalize 0x5C) m.parameters, ?_, notify_silent hE rfl rfl (by simp)⟩
      simp [processCharacter, processNonC1, isC1ControlCharacter, isFromAnywhereChar, isEscape, event, eventEscape,
        isC0Code, isDelete, isIntermediate, isVt52CursorAddress, hs, hansi, actionVt52EscDispatch]
  obtain ⟨c, hstep, h⟩ := hsilent
  rw [hstep]
  exact ⟨{ h.frame with }, h.handled, rfl, rfl, notify_calm hc c, h.passed⟩

end

/-! ## Runs -/

/-- The text since the last rest is waiting, or has been forwarded. -/
inductive Busy (consumed text run : List Wchar) (next : Option Wchar) (m : StateMachine) : Prop
  | waiting (settled : Settled m) (sub : (passed m.calls ++ (m.cachedSequence.getD [] ++ run)).Sublist consumed)
      (whole : resting m.state = false → text <:+ m.cachedSequence.getD [] ++ run)
  | forwarding {buffer : List Wchar} (h : Forwarding m buffer) (cached : m.cachedSequence = none)
      (sub : (passed m.calls ++ buffer).Sublist consumed)
  | closing (state : m.state = .escape) (identifier : m.identifier = {}) (calm : Calm m)
      (sub : (passed m.calls).Sublist (consumed ++ [0x5C])) (next : next = some 0x5C)

inductive Good (consumed text run : List Wchar) (next : Option Wchar) (m : StateMachine) : Prop
  | idle (flag : m.processingIndividually = false) (state : m.state = .ground) (cached : m.cachedSequence = none)
      (calm : Calm m) (sub : (passed m.calls).Sublist consumed)
  | busy (flag : m.processingIndividually = true) (state : m.state ≠ .ground)
      (h : Busy consumed text run next m)

structure Stepped (E : Engine) (m m' : StateMachine) (consumed text run : List Wchar) (next : Option Wchar) :
    Prop where
  frame : Frame m m'
  grows : m.calls <+: m'.calls
  ground : m'.state = .ground → m'.cachedSequence = none ∧ Calm m' ∧ (passed m'.calls).Sublist consumed
  busy : m'.state ≠ .ground → Busy consumed text run next m'
  whole : Unhandled E m.calls m'.calls → ∃ new, passed m'.calls = passed m.calls ++ new ∧ text <:+ new

def forwards (m : StateMachine) : Bool :=
  match m.state, m.dcsStringHandler with
  | .dcsPassThrough, some (.passthrough _) => true
  | _, _ => false

def endsString (m : StateMachine) (wch : Wchar) : Bool :=
  isEscape wch || isFromAnywhereChar wch || isC1ControlCharacter wch && m.parserMode.parsesC1

/-- No BEL inside of a sequence; a forwarded string ends with ESC. -/
structure Allowed (m : StateMachine) (wch : Wchar) (next : Option Wchar) : Prop where
  bell : wch = BEL → midSequence m.state = false
  ends : forwards m = true → endsString m wch = true → wch = ESC ∧ next = some 0x5C

instance (m : StateMachine) (wch : Wchar) (next : Option Wchar) : Decidable (Allowed m wch next) :=
  decidable_of_iff ((wch = BEL → midSequence m.state = false) ∧
    (forwards m = true → endsString m wch = true → wch = ESC ∧ next = some 0x5C))
    ⟨fun h => ⟨h.1, h.2⟩, fun h => ⟨h.bell, h.ends⟩⟩

def proceed (text : List Wchar) (q : VTStates) (wch : Wchar) : List Wchar :=
  if resting q then [wch] else text ++ [wch]

section

variable {E : Engine} {m n : StateMachine} {wch : Wchar} {consumed text run : List Wchar} {next : Option Wchar}

theorem Handled.unhandled {a b c : List Call} (h : Handled E a b) (hbc : b <+: c) (hu : Unhandled E a c) :
    Unhandled E b c := by
  obtain ⟨g, x, hold, hnew, hx, hfail⟩ := hu
  have hbg : b <+: g := by
    rcases prefix_or_prefix_of_prefix hbc hnew with hb | hg
    · rcases prefix_concat_iff.mp hb with rfl | hb
      · exact absurd ⟨g, x, hold, prefix_refl _, hx, hfail⟩ h.not_unhandled
      · exact hb
    · exact absurd ⟨g, x, hold, hg, hx, hfail⟩ h.not_unhandled
  exact ⟨g, x, hbg, hnew, hx, hfail⟩

theorem Forwarding.forwards {buffer : List Wchar} (h : Forwarding m buffer) : forwards m = true := by
  unfold Parser.forwards
  rw [h.state, h.handler]

theorem Busy.withRun (h : Busy consumed text run next m) (string : List Wchar) (offset : Nat) (size : Option Nat)
    (last : Bool) :
    Busy consumed text run next
      { m with currentString := string, runOffset := offset, runSize := size, processingLastCharacter := last } := by
  cases h with
  | waiting hm hsub hwhole => exact .waiting { hm with } hsub hwhole
  | forwarding hf hc hsub => exact .forwarding { hf with } hc hsub
  | closing hs hi hc hsub hnext => exact .closing hs hi hc hsub hnext

theorem Good.withRun (h : Good consumed text run next m) (string : List Wchar) (offset : Nat) (size : Option Nat) :
    Good consumed text run next { m with currentString := string, runOffset := offset, runSize := size } := by
  cases h with
  | idle hflag hs hcached hcalm hsub => exact .idle hflag hs hcached hcalm hsub
  | busy hflag hne hbusy => exact .busy hflag hne (hbusy.withRun string offset size m.processingLastCharacter)

theorem Outcome.stepped {m' : StateMachine} (ho : Outcome E m m') (hm : Settled m) (hrun : m.currentRun = run ++ [wch])
    (hsub : (passed m.calls ++ (m.cachedSequence.getD [] ++ run)).Sublist consumed)
    (hwhole : text <:+ m.cachedSequence.getD [] ++ (run ++ [wch])) :
    Stepped E m m' (consumed ++ [wch]) text (run ++ [wch]) next := by
  have hall : (passed m.calls ++ (m.cachedSequence.getD [] ++ (run ++ [wch]))).Sublist (consumed ++ [wch]) := by
    have := hsub.append (List.Sublist.refl [wch])
    simpa [append_assoc] using this
  have htext : flushText m = m.cachedSequence.getD [] ++ (run ++ [wch]) := by rw [flushText, hrun]
  cases ho with
  | quiet hframe hhandled hpassed hcached hcalm =>
    refine ⟨hframe, hhandled.grows, fun hg => ⟨?_, hcalm, ?_⟩, fun _ => ?_, fun hu => absurd hu hhandled.not_unhandled⟩
    · rw [hcached, hg]
      rfl
    · rw [hpassed]
      exact (sublist_append_left _ _).trans hall
    · cases hr : resting m'.state with
      | true =>
        rw [hr] at hcached
        refine .waiting ⟨hcalm, fun _ => hcached, hframe.callback.trans hm.callback⟩ ?_ (by simp [hr])
        -- The cache is dropped, what is left is still in order.
        rw [hcached, hpassed]
        exact ((List.Sublist.refl _).append (sublist_append_right _ _)).trans hall
      | false =>
        rw [hr] at hcached
        refine .waiting ⟨hcalm, by simp [hr], hframe.callback.trans hm.callback⟩ ?_ (fun _ => ?_)
        · rw [hcached, hpassed]
          exact hall
        · rw [hcached]
          exact hwhole
  | flushed hflush hs hcalm =>
    refine ⟨hflush.frame, hflush.grows, fun _ => ⟨hflush.cached, hcalm, ?_⟩, fun hne => absurd hs hne,
      fun _ => ⟨_, hflush.passed, htext ▸ hwhole⟩⟩
    rw [hflush.passed, htext]
    exact hall
  | opened hflush hs hhandler =>
    refine ⟨hflush.frame, hflush.grows, fun hg => ?_, fun _ => ?_,
      fun _ => ⟨_, hflush.passed, htext ▸ hwhole⟩⟩
    · rw [hs] at hg
      exact absurd hg (by decide)
    · refine .forwarding ⟨hs, hhandler⟩ hflush.cached ?_
      rw [append_nil, hflush.passed, htext]
      exact hall

theorem Forwarding.stepped (hE : Conpty E) {buffer : List Wchar} (hf : Forwarding m buffer)
    (hcached : m.cachedSequence = none) (hsub : (passed m.calls ++ buffer).Sublist consumed)
    (hends : endsString m wch = true → wch = ESC ∧ next = some 0x5C) :
    Stepped E m (processCharacter E wch m) (consumed ++ [wch]) text (run ++ [wch]) next := by
  by_cases hend : endsString m wch = true
  · obtain ⟨rfl, hnext⟩ := hends hend
    obtain ⟨hframe, hhandled, hs, hid, hcalm, hpassed⟩ := forward_close hE hf
    refine ⟨hframe, hhandled.grows, fun hg => ?_, fun _ => .closing hs hid hcalm ?_ hnext,
      fun hu => absurd hu hhandled.not_unhandled⟩
    · rw [hs] at hg
      exact absurd hg (by decide)
    · have := hsub.append (List.Sublist.refl [ESC, 0x5C])
      rw [hpassed]
      simpa [append_assoc] using this
  · simp only [endsString, Bool.or_eq_true, Bool.and_eq_true, not_or, not_and, Bool.not_eq_true] at hend
    obtain ⟨buffer', hf', hframe, hhandled, hcached', hpassed⟩ := forward_data hE hf hend.1.1 hend.1.2 hend.2
    refine ⟨hframe, hhandled.grows, fun hg => ?_, fun _ => .forwarding hf' (hcached'.trans hcached) ?_,
      fun hu => absurd hu hhandled.not_unhandled⟩
    · rw [hf'.state] at hg
      exact absurd hg (by decide)
    · rcases hpassed with hp | hp
      · rw [hp]
        exact hsub.trans (sublist_append_left _ _)
      · rw [hp, ← append_assoc]
        exact hsub.append (List.Sublist.refl _)

theorem Busy.stepped (hE : Conpty E) (hallow : Allowed m wch next) (hrun : m.currentRun = run ++ [wch])
    (h : Busy consumed text run (some wch) m) :
    Stepped E m (processCharacter E wch m) (consumed ++ [wch]) (proceed text m.state wch) (run ++ [wch]) next := by
  cases h with
  | waiting hm hsub hwhole =>
    refine (processCharacter_outcome hE hm hallow.bell).stepped hm hrun hsub ?_
    rw [proceed, ← append_assoc]
    split
    · exact suffix_append _ _
    · rename_i hr
      obtain ⟨pre, hpre⟩ := hwhole (by simpa using hr)
      exact ⟨pre, by rw [← hpre, append_assoc]⟩
  | forwarding hf hcached hsub => exact hf.stepped hE hcached hsub (hallow.ends hf.forwards)
  | closing hs hid hcalm hsub hnext =>
    obtain rfl := Option.some.inj hnext
    obtain ⟨hframe, hhandled, hground, hcached, hcalm', hpassed⟩ := forward_terminator hE hs hid hcalm
    refine ⟨hframe, hhandled.grows, fun _ => ⟨hcached, hcalm', ?_⟩, fun hne => absurd hground hne,
      fun hu => absurd hu hhandled.not_unhandled⟩
    rw [hpassed]
    exact hsub

/-! ### Turns -/

structure Ready (s : List Wchar) (m : StateMachine) : Prop where
  string : m.currentString = s
  callback : m.onCsiCompleteCallback = none
  output : m.isEngineForInput = false

theorem Ready.framed {s : List Wchar} (h : Ready s m) (hf : Frame m n) : Ready s n :=
  ⟨hf.string.trans h.string, hf.callback.trans h.callback, hf.output.trans h.output⟩

def slice (s : List Wchar) (start current : Nat) : List Wchar := (s.drop start).take (current - start)

theorem slice_succ {s : List Wchar} {start current : Nat} (hsc : start ≤ current) (hlt : current < s.length) :
    slice s start (current + 1) = slice s start current ++ [s[current]] := take_drop_succ hsc hlt

structure Turned (E : Engine) (s : List Wchar) (m : StateMachine) (current : Nat) (r : Nat × StateMachine)
    (consumed text : List Wchar) (next : Option Wchar) : Prop where
  ready : Ready s r.2
  start : r.1 ≤ current + 1
  grows : m.calls <+: r.2.calls
  good : Good consumed text (slice s r.1 (current + 1)) next r.2
  whole : Unhandled E m.calls r.2.calls → ∃ new, passed r.2.calls = passed m.calls ++ new ∧ text <:+ new

theorem processIndividually_turned (hE : Conpty E) {s : List Wchar} {start current : Nat} (last : Bool)
    (hsc : start ≤ current) (hlt : current < s.length) (hready : Ready s m) (hallow : Allowed m s[current] next)
    (hflag : m.processingIndividually = true)
    (h : Busy consumed text (slice s start current) (some s[current]) m) :
    Turned E s m current (processIndividually E s[current] last start current m) (consumed ++ [s[current]])
      (proceed text m.state s[current]) next := by
  let m₁ := { m with
    runOffset := start, runSize := some (current - start + 1), processingLastCharacter := last }
  have hrun : m₁.currentRun = slice s start current ++ [s[current]] := by
    rw [← slice_succ hsc hlt, slice, show current + 1 - start = current - start + 1 by omega]
    simp only [currentRun, m₁, hready.string]
  have hbusy : Busy consumed text (slice s start current) (some s[current]) m₁ := h.withRun m.currentString _ _ last
  have hstep : Stepped E m₁ (processCharacter E s[current] m₁) _ _ _ next :=
    hbusy.stepped hE ⟨hallow.bell, hallow.ends⟩ hrun
  have hr : processIndividually E s[current] last start current m =
      if (processCharacter E s[current] m₁).state = .ground then
        (current + 1, { processCharacter E s[current] m₁ with processingIndividually := false })
      else (start, processCharacter E s[current] m₁) := rfl
  have hready₁ : Ready s m₁ := { hready with }
  have hready' := hready₁.framed hstep.frame
  rw [hr]
  by_cases hg : (processCharacter E s[current] m₁).state = .ground
  · obtain ⟨hcached, hcalm, hsub⟩ := hstep.ground hg
    rw [if_pos hg]
    exact ⟨{ hready' with }, Nat.le_refl _, hstep.grows, .idle rfl hg hcached hcalm hsub, hstep.whole⟩
  · rw [if_neg hg]
    refine ⟨hready', Nat.le_succ_of_le hsc, hstep.grows, .busy (hstep.frame.flag.trans hflag) hg ?_, hstep.whole⟩
    rw [slice_succ hsc hlt]
    exact hstep.busy hg

theorem turn_turned (hE : Conpty E) {s : List Wchar} {start current : Nat} (last : Bool) (hsc : start ≤ current)
    (hlt : current < s.length) (hready : Ready s m) (hallow : Allowed m s[current] next)
    (h : Good consumed text (slice s start current) (some s[current]) m) :
    Turned E s m current (turn E s[current] last start current m) (consumed ++ [s[current]])
      (proceed text m.state s[current]) next := by
  cases h with
  | busy hflag hne hbusy =>
    rw [turn_individually hflag]
    have := processIndividually_turned
      (m := { m with runOffset := start, runSize := some (current - start + 1) }) hE last hsc hlt { hready with }
      ⟨hallow.bell, hallow.ends⟩ hflag (hbusy.withRun m.currentString _ _ m.processingLastCharacter)
    exact { this with }
  | idle hflag hs hcached hcalm hsub =>
    have hnf : ¬m.processingIndividually = true := by simp [hflag]
    by_cases hact : isActionableFromGround s[current] = true
    · rw [turn_actionable hnf hact]
      generalize (m.currentString.drop start).take (current - start) = p
      let m₀ := { m with runOffset := start, runSize := some (current - start) }
      have hp : Silent E m₀ (actionPrintString E p m₀) := notify_silent hE rfl rfl (by simp)
      have hkeep := notify_untouched (E := E) (m := m₀) (.printString p)
      let m₁ := { actionPrintString E p m₀ with processingIndividually := true }
      have hready₀ : Ready s m₀ := { hready with }
      have hready₁ : Ready s m₁ := { hready₀.framed hp.frame with }
      have hcalm₁ : Calm m₁ := notify_calm (m := m₀) hcalm _
      have hs₁ : m₁.state = .ground := hkeep.state.trans hs
      have hcached₁ : m₁.cachedSequence = none := hp.cached.trans hcached
      have hpassed₁ : passed m₁.calls = passed m.calls := hp.passed
      have hbusy : Busy consumed text (slice s current current) (some s[current]) m₁ := by
        refine .waiting ⟨hcalm₁, fun _ => hcached₁, hready₁.callback⟩ ?_ ?_
        · rw [hpassed₁, hcached₁]
          simpa [slice] using hsub
        · rw [hs₁]
          exact fun h => absurd h (by decide)
      have hallow₁ : Allowed m₁ s[current] next := by
        refine ⟨fun _ => by rw [hs₁]; rfl, fun hf => ?_⟩
        simp [forwards, hs₁] at hf
      have ht := processIndividually_turned (m := m₁) hE last (Nat.le_refl current) hlt hready₁ hallow₁ rfl hbusy
      have hproceed : proceed text m.state s[current] = proceed text m₁.state s[current] := by rw [hs, hs₁]
      rw [hproceed]
      refine ⟨ht.ready, ht.start, hp.handled.grows.trans ht.grows, ht.good, fun hu => ?_⟩
      obtain ⟨new, hnew, hsuf⟩ := ht.whole (hp.handled.unhandled ht.grows hu)
      exact ⟨new, by rw [hnew, hpassed₁], hsuf⟩
    · rw [turn_text hnf hact]
      refine ⟨{ hready with }, Nat.le_succ_of_le hsc, prefix_refl _,
        .idle hflag hs hcached hcalm (hsub.trans (sublist_append_left _ _)), fun hu => ?_⟩
      exact absurd hu (Handled.refl).not_unhandled

end

/-! ### Traces -/

structure Turn where
  before : StateMachine
  wch : Wchar
  after : StateMachine

def turns (E : Engine) : List Wchar → Nat → Nat → StateMachine → List Turn
  | [], _, _, _ => []
  | wch :: rest, start, current, m =>
    let r := turn E wch rest.isEmpty start current m
    ⟨m, wch, r.2⟩ :: turns E rest r.1 (current + 1) r.2

def trace (E : Engine) : List (List Wchar) → StateMachine → List Turn
  | [], _ => []
  | chunk :: chunks, m =>
    turns E chunk 0 0 { m with currentString := chunk, runOffset := 0, runSize := some 0 } ++
      trace E chunks (processString E chunk m)

/-- The input since the last rest, with the sequence being read. -/
def unfinished (ts : List Turn) : List Wchar := ts.foldl (fun text t => proceed text t.before.state t.wch) []

def nextWch (ts : List Turn) : Option Wchar := ts.head?.map (·.wch)

/-- No BEL inside of a sequence, and `ESC \` behind a forwarded string. -/
def Tame : List Turn → Prop
  | [] => True
  | t :: ts => Allowed t.before t.wch (nextWch ts) ∧ Tame ts

instance : (ts : List Turn) → Decidable (Tame ts)
  | [] => isTrue trivial
  | t :: ts =>
    have : Decidable (Tame ts) := instDecidableTame ts
    inferInstanceAs (Decidable (Allowed t.before t.wch (nextWch ts) ∧ Tame ts))

/-- Every unhandled dispatch forwards the text since the last rest. -/
def Whole (E : Engine) (text : List Wchar) : List Turn → Prop
  | [] => True
  | t :: ts =>
    (Unhandled E t.before.calls t.after.calls → proceed text t.before.state t.wch <:+ passed
      (callsSince t.before t.after)) ∧
    Whole E (proceed text t.before.state t.wch) ts

section

variable {E : Engine} {m : StateMachine} {consumed text run : List Wchar}

variable {a b : List Turn} {s : List Wchar} {next : Option Wchar}

theorem Tame.append_right (h : Tame (a ++ b)) : Tame b := by
  induction a with
  | nil => exact h
  | cons t a ih => exact ih h.2

theorem Whole.append (ha : Whole E text a)
    (hb : Whole E (a.foldl (fun text t => proceed text t.before.state t.wch) text) b) : Whole E text (a ++ b) := by
  induction a generalizing text with
  | nil => exact hb
  | cons t a ih => exact ⟨ha.1, ih ha.2 hb⟩

theorem Whole.unhandled {t : Turn} (h : Whole E text (a ++ t :: b)) (hu : Unhandled E t.before.calls t.after.calls) :
    (a ++ [t]).foldl (fun text t => proceed text t.before.state t.wch) text <:+ passed
      (callsSince t.before t.after) := by
  induction a generalizing text with
  | nil => exact h.1 hu
  | cons u a ih => exact ih h.2

theorem passed_callsSince {m' : StateMachine} (hgrows : m.calls <+: m'.calls) {new : List Wchar}
    (h : passed m'.calls = passed m.calls ++ new) : passed (callsSince m m') = new := by
  obtain ⟨more, hmore⟩ := hgrows
  have hsince : callsSince m m' = more := by rw [callsSince, ← hmore, drop_left]
  rw [hsince]
  rw [← hmore, passed_append] at h
  exact append_cancel_left h

theorem processLoop_good (hE : Conpty E) {ahead : List Turn} (rest : List Wchar) :
    ∀ (start current : Nat) (m : StateMachine) (consumed text : List Wchar),
      s.drop current = rest → start ≤ current → current ≤ s.length → Ready s m →
      Tame (turns E rest start current m ++ ahead) →
      Good consumed text (slice s start current) (nextWch (turns E rest start current m ++ ahead)) m →
      Ready s (processLoop E rest start current m).2 ∧ Good (consumed ++ rest)
          ((turns E rest start current m).foldl (fun text t => proceed text t.before.state t.wch) text)
          (s.drop (processLoop E rest start current m).1) (nextWch ahead) (processLoop E rest start current m).2 ∧
        Whole E text (turns E rest start current m) := by
  induction rest with
  | nil =>
    intro start current m consumed text hdrop hsc hcl hready htame hgood
    have hslice : slice s start current = s.drop start := by
      have := drop_eq_nil_iff.mp hdrop
      exact take_of_length_le (by rw [length_drop]; omega)
    rw [hslice] at hgood
    exact ⟨hready, by rw [append_nil]; exact hgood, trivial⟩
  | cons wch rest ih =>
    intro start current m consumed text hdrop hsc hcl hready htame hgood
    obtain ⟨hlt, rfl, hrest⟩ := drop_eq_cons hdrop
    have ht := turn_turned hE rest.isEmpty hsc hlt hready htame.1 hgood
    obtain ⟨hready', hgood', hwhole'⟩ := ih _ _ _ _ _ hrest ht.start (by omega) ht.ready htame.2 ht.good
    rw [append_assoc] at hgood'
    refine ⟨hready', hgood', fun hu => ?_, hwhole'⟩
    obtain ⟨new, hnew, hsuf⟩ := ht.whole hu
    rw [passed_callsSince ht.grows hnew]
    exact hsuf

theorem finishRun_good {start : Nat} (hready : Ready s m) (h : Good consumed text (s.drop start) next m) :
    Ready s (finishRun start m) ∧ Good consumed text (s.drop start) next (finishRun start m) := by
  obtain ⟨-, offset, size, hfin⟩ := finishRun_eq start m
  rw [hfin]
  exact ⟨{ hready with }, h.withRun m.currentString offset size⟩

theorem Busy.cache (h : Busy consumed text run next m) (hne : m.state ≠ .ground) : Busy consumed text [] next
      (if m.state != .sosPmApcString && m.state != .dcsPassThrough && m.state != .dcsIgnore then
        { m with cachedSequence := some (m.cachedSequence.getD [] ++ run) }
      else m) := by
  cases h with
  | waiting hm hsub hwhole =>
    split_ifs with hkept
    · have hr : resting m.state = false := by cases hs : m.state <;> simp_all [resting]
      refine .waiting ⟨hm.calm, ?_, hm.callback⟩ ?_ ?_
      · simp [hr]
      · simpa using hsub
      · simpa using hwhole
    · have hr : resting m.state = true := by cases hs : m.state <;> simp_all [resting]
      refine .waiting hm ?_ (by simp [hr])
      rw [append_nil]
      exact ((List.Sublist.refl _).append (sublist_append_left _ _)).trans hsub
  | forwarding hf hcached hsub =>
    rw [if_neg (by simp [hf.state])]
    exact .forwarding hf hcached hsub
  | closing hs hid hcalm hsub hnext =>
    rw [if_pos (by simp [hs])]
    exact .closing hs hid hcalm hsub hnext

theorem finishString_good (hE : Conpty E) {start : Nat} (hready : Ready s m)
    (h : Good consumed text (s.drop start) next m) :
    Good consumed text [] next (finishString E start m) ∧ (finishString E start m).onCsiCompleteCallback = none ∧
      (finishString E start m).isEngineForInput = false := by
  obtain ⟨hready', hgood'⟩ := finishRun_good hready h
  have hrun := (finishRun_eq start m).1
  rw [hready.string] at hrun
  unfold finishString
  dsimp only
  rw [hrun]
  generalize finishRun start m = m' at hready' hgood' ⊢
  cases hgood' with
  | idle hflag hs hcached hcalm hsub =>
    rw [hflag]
    simp only [Bool.false_eq_true, if_false]
    split
    · have hp : Silent E m' (actionPrintString E (s.drop start) m') := notify_silent hE rfl rfl (by simp)
      have hkeep := notify_untouched (E := E) (m := m') (.printString (s.drop start))
      refine ⟨.idle (hp.frame.flag.trans hflag) (hkeep.state.trans hs) (hp.cached.trans hcached)
        (notify_calm hcalm _) ?_, (hready'.framed hp.frame).callback, (hready'.framed hp.frame).output⟩
      rw [hp.passed]
      exact hsub
    · exact ⟨.idle hflag hs hcached hcalm hsub, hready'.callback, hready'.output⟩
  | busy hflag hne hbusy =>
    rw [if_neg (by simp [hflag]), if_pos hflag, if_neg (by simp [hready'.output])]
    have hcache := hbusy.cache hne
    split_ifs at hcache ⊢
    · exact ⟨.busy hflag hne hcache, hready'.callback, hready'.output⟩
    · exact ⟨.busy hflag hne hcache, hready'.callback, hready'.output⟩

theorem trace_good (hE : Conpty E) (chunks : List (List Wchar)) :
    ∀ (m : StateMachine) (consumed text : List Wchar), m.onCsiCompleteCallback = none →
      m.isEngineForInput = false → Tame (trace E chunks m) →
      Good consumed text [] (nextWch (trace E chunks m)) m →
      (∃ text', Good (consumed ++ chunks.flatten) text' [] none
        (chunks.foldl (fun m chunk => processString E chunk m) m)) ∧ Whole E text (trace E chunks m) := by
  induction chunks with
  | nil =>
    intro m consumed text _ _ _ hgood
    exact ⟨⟨text, by rw [flatten_nil, append_nil]; exact hgood⟩, trivial⟩
  | cons chunk chunks ih =>
    intro m consumed text hcb hout htame hgood
    let m₀ := { m with currentString := chunk, runOffset := 0, runSize := some 0 }
    have hgood₀ : Good consumed text (slice chunk 0 0)
        (nextWch (turns E chunk 0 0 m₀ ++ trace E chunks (processString E chunk m))) m₀ :=
      hgood.withRun chunk 0 (some 0)
    obtain ⟨hready, hloop, hwhole⟩ := processLoop_good hE chunk 0 0 m₀ consumed text rfl (Nat.le_refl 0)
      (Nat.zero_le _) ⟨rfl, hcb, hout⟩ htame hgood₀
    obtain ⟨hfin, hcb', hout'⟩ := finishString_good hE hready hloop
    obtain ⟨⟨text', hrest⟩, hwhole'⟩ := ih (processString E chunk m) _ _ hcb' hout' htame.append_right hfin
    rw [append_assoc] at hrest
    exact ⟨⟨text', hrest⟩, hwhole.append hwhole'⟩

theorem Good.sublist {run : List Wchar} (h : Good consumed text run none m) : (passed m.calls).Sublist consumed := by
  cases h with
  | idle _ _ _ _ hsub => exact hsub
  | busy _ _ hbusy =>
    cases hbusy with
    | waiting _ hsub _ => exact (sublist_append_left _ _).trans hsub
    | forwarding _ _ hsub => exact (sublist_append_left _ _).trans hsub
    | closing _ _ _ _ hnext => exact absurd hnext (by simp)

end

/-- A subsequence of the input is forwarded, with every unhandled sequence whole. -/
theorem passThrough_faithful {D : List Call → Reply} {inject : List Wchar → StateMachine → StateMachine}
    (hD : Plain D) (chunks : List (List Wchar))
    (htame : Tame (trace (outputEngine true D inject) chunks (new (outputEngine true D inject) false))) :
    let E := outputEngine true D inject
    (passed (chunks.foldl (fun m chunk => processString E chunk m) (new E false)).calls).Sublist chunks.flatten ∧
      ∀ a t b, trace E chunks (new E false) = a ++ t :: b → Unhandled E t.before.calls t.after.calls →
        unfinished (a ++ [t]) <:+ passed (callsSince t.before t.after) := by
  intro E
  have hE : Conpty E := conpty_outputEngine hD inject
  obtain ⟨hclear, hcalm⟩ := actionClear_silent (m := { isEngineForInput := false }) hE
  have hstate : (new E false).state = .ground := (notify_untouched _).state
  have hgood : Good [] [] [] (nextWch (trace E chunks (new E false))) (new E false) := by
    refine .idle hclear.frame.flag hstate hclear.cached hcalm ?_
    exact List.Sublist.refl _
  obtain ⟨⟨text, hrun⟩, hwhole⟩ := trace_good hE chunks (new E false) [] [] hclear.frame.callback
    hclear.frame.output htame hgood
  refine ⟨hrun.sublist, fun a t b hsplit hu => ?_⟩
  rw [hsplit] at hwhole
  exact hwhole.unhandled hu

def rejectAll (calls : List Call) : Reply :=
  match calls.getLast? with
  | some (.passThroughString _) => {}
  | _ => { success := false, handler := some (.passthrough []) }

theorem plain_rejectAll : Plain rejectAll where
  handler h k hk := by
    unfold rejectAll at hk
    split at hk
    · exact Or.inl (by simpa using hk.symm)
    · exact Or.inr ⟨[], by simpa using hk.symm⟩
  macroText h := by
    unfold rejectAll
    split <;> rfl
  written h string := by simp [rejectAll]

theorem passThrough_faithful_chunks :
    let E := outputEngine true rejectAll (fun _ m => m)
    let chunks : List (List Wchar) := [[0x61, ESC, 0x5B], [0x7A, 0x62, ESC, 0x50, 0x71, 0x63, ESC], [0x5C, 0x07]]
    passed (chunks.foldl (fun m chunk => processString E chunk m) (new E false)).calls =
        [ESC, 0x5B, 0x7A, ESC, 0x50, 0x71, 0x63, ESC, 0x5C, 0x07] ∧
      (passed (chunks.foldl (fun m chunk => processString E chunk m) (new E false)).calls).Sublist chunks.flatten := by
  intro E chunks
  have htame : Tame (trace E chunks (new E false)) := by decide
  exact ⟨by decide, (passThrough_faithful plain_rejectAll chunks htame).1⟩

def loadFont : List Call → Reply := fun _ => { handler := some (.drcs false false []) }

/-- BEL in a sequence and strings cut short are forwarded twice; terminators and a font name are
made up; VT52 is lost. -/
theorem passThrough_unfaithful :
    let E := outputEngine true rejectAll (fun _ m => m)
    let F := outputEngine true loadFont (fun _ m => m)
    let m := new E false
    let m52 := setParserMode .ansi false m
    passed (processString E [ESC, 0x5B, 0x07, 0x7A] m).calls = [ESC, 0x5B, 0x07, ESC, 0x5B, 0x07, 0x7A] ∧
      passed (processString E [ESC, 0x50, 0x71, 0x63, ESC, 0x5B, 0x7A] m).calls =
        [ESC, 0x50, 0x71, 0x63, ESC, 0x5C, ESC, 0x50, 0x71, 0x63, ESC, 0x5B, 0x7A] ∧
      passed (processString E [ESC, 0x50, 0x71, 0x63, CAN] m).calls = [ESC, 0x50, 0x71, 0x63, ESC, 0x5C] ∧
      passed (processString F [ESC, 0x50, 0x7B, 0x42, 0x63, ESC, 0x5C] m).calls =
        [ESC, 0x50, 0x7B, 0x40, 0x63, ESC, 0x5C, ESC, 0x29, 0x40] ∧
      (processString E [ESC, 0x7A] m52).calls.getLast? = some (.vt52EscDispatch (VTID.fromString ['z']) []) ∧
      passed (processString E [ESC, 0x7A] m52).calls = [] := by
  decide

end Terminal.Parser
