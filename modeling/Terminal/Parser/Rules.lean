import Terminal.Parser.Acts

/-!
# Rules for invariants

What calls of the engine keep is kept by every action, character and string.
-/

namespace Terminal.Parser

open StateMachine

structure FlushRule (E : Engine) (ok : Call → Prop) (P : StateMachine → Prop) : Prop where
  call : ∀ {c m}, ok c → P m → P (call E c m).2
  uncached : ∀ {m}, P m → P { m with cachedSequence := none }
  passes : ∀ string, ok (.passThroughString string)

def StateMachine.outer (m : StateMachine) : List Call × ParserMode × Option (List Wchar) × Bool :=
  (m.calls, m.parserMode, m.onCsiCompleteCallback, m.isEngineForInput)

structure CallRule (E : Engine) (ok : Call → Prop) (P : StateMachine → Prop) : Prop extends FlushRule E ok P where
  inner : ∀ {m m'}, P m → m'.outer = m.outer → P m'
  puts : ∀ wch, ok (.stringHandler wch)

section

variable {E : Engine} {ok : Call → Prop} {P : StateMachine → Prop} {m : StateMachine} {wch : Wchar}

theorem FlushRule.flushToTerminal (h : FlushRule E ok P) (hm : P m) : P (flushToTerminal E m).2 := by
  unfold StateMachine.flushToTerminal
  cases m.cachedSequence with
  | none => exact h.call (h.passes _) hm
  | some cached =>
    have hcached := h.uncached (h.call (h.passes cached) hm)
    dsimp only
    split
    · exact h.call (h.passes _) hcached
    · exact hcached

theorem FlushRule.notify (h : FlushRule E ok P) {c : Call} (hc : ok c) (hm : P m) : P (notify E c m) := by
  unfold StateMachine.notify
  dsimp only
  split
  · exact h.flushToTerminal (h.call hc hm)
  · exact h.call hc hm

structure Untouched (m m' : StateMachine) : Prop where
  state : m'.state = m.state
  identifier : m'.identifier = m.identifier
  parameters : m'.parameters = m.parameters
  handler : m'.dcsStringHandler = m.dcsStringHandler
  output : m'.isEngineForInput = m.isEngineForInput
  flag : m'.processingIndividually = m.processingIndividually

theorem untouched_rule (E : Engine) (m : StateMachine) : FlushRule E (fun _ => True) (Untouched m) where
  call _ h := { h with }
  uncached h := { h with }
  passes _ := trivial

theorem flushToTerminal_untouched : Untouched m (flushToTerminal E m).2 :=
  (untouched_rule E m).flushToTerminal ⟨rfl, rfl, rfl, rfl, rfl, rfl⟩

theorem notify_untouched (c : Call) : Untouched m (notify E c m) :=
  (untouched_rule E m).notify trivial ⟨rfl, rfl, rfl, rfl, rfl, rfl⟩

theorem callStringHandler_keeps : (callStringHandler E wch m).2.state = m.state ∧
    (callStringHandler E wch m).2.dcsStringHandler.isSome = m.dcsStringHandler.isSome := by
  have hput (wch : Wchar) (buffer : List Wchar) : (passthroughPut E wch buffer m).2.2.state = m.state := by
    unfold StateMachine.passthroughPut
    dsimp only
    split <;> rfl
  have hdrcs (charset96 gotId : Bool) (buffer : List Wchar) :
      (drcsPut E wch charset96 gotId buffer m).2.state = m.state := by
    unfold StateMachine.drcsPut
    dsimp only
    split_ifs <;> first | rfl | exact hput _ _
  unfold StateMachine.callStringHandler
  cases hm : m.dcsStringHandler with
  | none => exact ⟨rfl, by rw [hm]⟩
  | some handler =>
    cases handler with
    | engine => exact ⟨rfl, congrArg Option.isSome hm⟩
    | passthrough buffer => exact ⟨hput _ _, rfl⟩
    | drcs charset96 gotId buffer => exact ⟨hdrcs _ _ _, rfl⟩

theorem grows_rule (E : Engine) (l : List Call) : CallRule E (fun _ => True) (l <+: ·.calls) where
  call _ h := h.trans (List.prefix_append _ _)
  uncached h := h
  passes _ := trivial
  inner {m m'} h houter := by
    have hcalls : m'.calls = m.calls := congrArg Prod.fst houter
    rwa [hcalls]
  puts _ := trivial

theorem notify_calls (c : Call) : ∃ new, (notify E c m).calls = m.calls ++ c :: new := by
  have hgrows : m.calls ++ [c] <+: (notify E c m).calls := by
    unfold StateMachine.notify
    dsimp only
    split
    · exact (grows_rule E _).flushToTerminal (List.prefix_refl _)
    · exact List.prefix_refl _
  obtain ⟨new, hnew⟩ := hgrows
  exact ⟨new, by rw [← hnew, List.append_assoc, List.singleton_append]⟩

namespace CallRule

section
variable (h : CallRule E ok P) (hm : P m)
include h hm

theorem actionClear (hc : ok .clear) : P (actionClear E m) := h.notify hc (h.inner hm rfl)

theorem passthroughPut (buffer : List Wchar) : P (passthroughPut E wch buffer m).2.2 := by
  unfold StateMachine.passthroughPut
  dsimp only
  split
  · exact h.call (h.passes _) hm
  · exact hm

theorem drcsPut (charset96 gotId : Bool) (buffer : List Wchar) : P (drcsPut E wch charset96 gotId buffer m).2 := by
  have hput (wch : Wchar) : P (StateMachine.passthroughPut E wch buffer m).2.2 := h.passthroughPut hm buffer
  unfold StateMachine.drcsPut
  dsimp only
  split
  · split
    · exact hput _
    · exact hm
  · split
    · exact hput _
    · exact h.call (h.passes _) (hput _)

theorem callStringHandler : P (callStringHandler E wch m).2 := by
  unfold StateMachine.callStringHandler
  split
  · exact hm
  · exact h.call (h.puts _) hm
  · exact h.inner (h.passthroughPut hm _) rfl
  · exact h.call (h.puts _) (h.inner (h.drcsPut hm _ _ _) rfl)

theorem actionInterrupt : P (actionInterrupt E m) := by
  unfold StateMachine.actionInterrupt
  split
  · exact h.inner (h.callStringHandler hm) rfl
  · exact hm

theorem installHandler (handler : Option StringHandler) : P (installHandler E handler m) := by
  unfold StateMachine.installHandler
  split
  · exact h.inner hm rfl
  · exact h.inner hm rfl
  · exact h.inner (h.flushToTerminal hm) rfl
  · exact h.inner (h.flushToTerminal hm) rfl

theorem actionDcsDispatch (hc : ok (.dcsDispatch (m.identifier.finalize wch) m.parameters)) :
    P (actionDcsDispatch E wch m) := by
  have hinstall (handler : Option StringHandler) := h.installHandler (h.call hc hm) handler
  unfold StateMachine.actionDcsDispatch
  dsimp only
  split
  · exact h.inner (hinstall _) rfl
  · exact h.inner (hinstall _) rfl

end

/-! ## Characters -/

section
variable (h : CallRule E (fun _ => True) P) (hcallback : ∀ {m}, P m → P (executeCsiCompleteCallback E m)) (hm : P m)
include h hcallback hm

theorem run (act : Act) : P (act.run E wch m) := by
  cases act with
  | change u => cases u <;> exact h.inner hm rfl
  | move u q => cases u <;> cases q <;> exact h.inner hm rfl
  | finish e => exact h.inner (h.notify trivial hm) rfl
  | csiDispatch => exact hcallback (h.inner (h.notify trivial hm) rfl)
  | vt52Dispatch =>
    refine h.inner (h.notify trivial ?_) rfl
    exact h.inner hm rfl
  | clear q _ => exact h.actionClear (h.inner hm rfl) trivial
  | dcsDispatch => exact h.actionDcsDispatch hm trivial
  | put =>
    unfold Act.run
    dsimp only
    split
    · exact h.callStringHandler hm
    · exact h.inner (h.callStringHandler hm) rfl
  | _ => exact h.notify trivial hm

theorem processNonC1 : P (processNonC1 E wch m) := by
  have hinterrupt := h.actionInterrupt hm
  unfold StateMachine.processNonC1
  split_ifs
  · exact h.inner (h.notify trivial hinterrupt) rfl
  · exact h.actionClear (h.inner hinterrupt rfl) trivial
  · exact event_of_run E (fun _ => h.run hcallback hm _)
      fun _ => h.run hcallback (h.actionClear (m := { m with state := .escape }) (h.inner hm rfl) trivial) _

theorem processCharacter : P (processCharacter E wch m) := by
  unfold StateMachine.processCharacter
  split_ifs
  · exact h.processNonC1 hcallback (h.processNonC1 hcallback hm)
  · exact hm
  · exact h.processNonC1 hcallback hm

end

end CallRule

/-! ## Strings -/

/-- Kept by calls, characters and the return to Ground. -/
structure StringRule (E : Engine) (P : StateMachine → Prop) : Prop where
  frame : ∀ {m m'}, P m → m'.outer = m.outer → m'.state = m.state → m'.dcsStringHandler = m.dcsStringHandler → P m'
  notify : ∀ {m c}, (∀ wch, c ≠ .stringHandler wch) → P m → P (notify E c m)
  ground : ∀ {m}, P m → P (enterGround m)
  character : ∀ {m} wch, P m → P (processCharacter E wch m)

theorem CallRule.string (h : CallRule E (fun _ => True) P)
    (hcallback : ∀ {m}, P m → P (executeCsiCompleteCallback E m)) : StringRule E P where
  frame hm houter _ _ := h.inner hm houter
  notify _ hm := h.notify trivial hm
  ground hm := h.inner hm rfl
  character _ hm := h.processCharacter hcallback hm

namespace StringRule

variable (h : StringRule E P)
include h

theorem processIndividually (hm : P m) (last : Bool) (start current : Nat) :
    P (processIndividually E wch last start current m).2 := by
  unfold StateMachine.processIndividually
  dsimp only
  split
  · refine h.frame (h.character wch ?_) rfl rfl rfl
    exact h.frame hm rfl rfl rfl
  · exact h.character _ (h.frame hm rfl rfl rfl)

theorem turn (hm : P m) (last : Bool) (start current : Nat) : P (turn E wch last start current m).2 := by
  unfold StateMachine.turn
  dsimp only
  split_ifs
  · exact h.processIndividually (h.frame hm rfl rfl rfl) last start current
  · apply h.processIndividually
    refine h.frame (h.notify (c := .printString _) (fun _ => nofun) ?_) rfl rfl rfl
    exact h.frame hm rfl rfl rfl
  · exact h.frame hm rfl rfl rfl

theorem processLoop (string : List Wchar) (start current : Nat) (hm : P m) :
    P (processLoop E string start current m).2 := by
  induction string generalizing start current m with
  | nil => exact hm
  | cons wch rest ih => exact ih _ _ (h.turn hm _ _ _)

theorem flushInput (hm : P m) (run : List Wchar) : P (flushInput E run m) := by
  have hall (s : List Wchar) {k : StateMachine} (hk : P k) : P (s.foldl (fun m wch => processCharacter E wch m) k) := by
    induction s generalizing k with
    | nil => exact hk
    | cons wch s ih => exact ih (h.character wch hk)
  have hlast (wch : Wchar) {k : StateMachine} (hk : P k) : P (dispatchLast E wch k) := by
    unfold dispatchLast
    split <;> first | exact hk | exact h.notify (fun _ => nofun) hk
  unfold StateMachine.flushInput
  split
  · exact hm
  · refine h.ground (hlast _ (h.frame (hall _ ?_) rfl rfl rfl))
    exact h.frame (h.ground hm) rfl rfl rfl

theorem processString (string : List Wchar) (hm : P m) : P (processString E string m) := by
  have hloop := h.processLoop string 0 0 (m := { m with
    currentString := string, runOffset := 0, runSize := some 0 }) (h.frame hm rfl rfl rfl)
  have hrun (start : Nat) {k : StateMachine} (hk : P k) : P (finishRun start k) := by
    unfold finishRun
    split <;> exact h.frame hk rfl rfl rfl
  unfold StateMachine.processString finishString
  dsimp only
  split_ifs
  · exact h.notify (fun _ => nofun) (hrun _ hloop)
  · exact h.flushInput (hrun _ hloop) _
  · exact h.frame (hrun _ hloop) rfl rfl rfl
  · exact hrun _ hloop
  · exact hrun _ hloop

end StringRule

end

end Terminal.Parser
