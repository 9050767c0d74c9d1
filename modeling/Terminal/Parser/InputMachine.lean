import Terminal.Parser.CsiText
import Terminal.Parser.InputEngine

/-!
# The machine of an input engine

It sets no mode and registers no callback, so the machine stays in ANSI mode, and a sequence in
Ground is dispatched once.
-/

namespace Terminal.Parser

open StateMachine

/-! ## The mode never changes -/

structure Mute (E : Engine) : Prop where
  modes : ∀ calls, (E.dispatch calls).modes = []
  macroText : ∀ calls, (E.dispatch calls).macroText = none

/-- In the modes `p`, with no callback, for input or output. -/
def StateMachine.Fixed (p : ParserMode) (b : Bool) (m : StateMachine) : Prop :=
  (m.parserMode, m.onCsiCompleteCallback, m.isEngineForInput) = (p, none, b)

section

variable {E : Engine} {m : StateMachine} {p : ParserMode} {b : Bool}

theorem call_fixed (hE : Mute E) (h : Fixed p b m) (c : Call) : Fixed p b (call E c m).2 := by
  unfold Fixed at h ⊢
  rw [← h]
  simp [call, hE.modes, hE.macroText]

theorem fixed_rule (hE : Mute E) : CallRule E (fun _ => True) (Fixed p b) where
  call _ h := call_fixed hE h _
  uncached h := h
  passes _ := trivial
  inner h houter := (congrArg Prod.snd houter).trans h
  puts _ := trivial

theorem executeCsiCompleteCallback_fixed (h : Fixed p b m) : Fixed p b (executeCsiCompleteCallback E m) := by
  have hnone : m.onCsiCompleteCallback = none := congrArg (·.2.1) h
  rw [executeCsiCompleteCallback, hnone]
  exact h

end

/-! ## Reachable input machines -/

/-- What the machine of an input engine becomes; nobody sets its modes. -/
inductive InputReachable (E : Engine) : StateMachine → Prop
  | new : InputReachable E (new E true)
  | processString {m : StateMachine} (h : InputReachable E m) (string : List Wchar) :
      InputReachable E (processString E string m)
  | processCharacter {m : StateMachine} (h : InputReachable E m) (wch : Wchar) :
      InputReachable E (processCharacter E wch m)
  | resetState {m : StateMachine} (h : InputReachable E m) : InputReachable E (resetState m)
  | flushToTerminal {m : StateMachine} (h : InputReachable E m) : InputReachable E (flushToTerminal E m).2

theorem InputReachable.fixed {E : Engine} {m : StateMachine} (hE : Mute E)
    (h : InputReachable E m) : Fixed {} true m := by
  induction h with
  | new => exact (fixed_rule hE).actionClear rfl trivial
  | processString _ string ih => exact ((fixed_rule hE).string executeCsiCompleteCallback_fixed).processString string ih
  | processCharacter _ wch ih => exact (fixed_rule hE).processCharacter executeCsiCompleteCallback_fixed ih
  | resetState _ ih => exact ih
  | flushToTerminal _ ih => exact (fixed_rule hE).flushToTerminal ih

theorem InputReachable.atRest {E : Engine} {m : StateMachine} (hE : Mute E) (h : InputReachable E m)
    (hground : m.state = .ground) : m.AtRest := by
  have hfixed := h.fixed hE
  refine ⟨hground, ?_, congrArg (·.2.1) hfixed⟩
  rw [show m.parserMode = {} from congrArg (·.1) hfixed]

theorem mute_inputEngine (options : InputOptions) (answers : List Call → Bool) : Mute (inputEngine options answers) :=
  ⟨fun _ => rfl, fun _ => rfl⟩

theorem inert_inputEngine {options : InputOptions} (answers : List Call → Bool) {c : Call}
    (h : options.passes c = false) : Inert (inputEngine options answers) c :=
  ⟨fun _ => rfl, fun _ => rfl, fun _ => h⟩

/-! ## A printed sequence -/

section

variable (keyboard : Keyboard) {options : InputOptions} {answers : List Call → Bool} {m : StateMachine}
  {marker inter : List Wchar} {f : Wchar} {ns : List Nat}

theorem handleAll_printsBefore (options : InputOptions) (clock : Nat → Int) (m : StateMachine) (calls : List Call)
    (n : Nat) (e : InputEngine) :
    ∃ n', e.handleAll keyboard options clock (printsBefore m ++ [.clear, .clear] ++ calls) n =
      e.handleAll keyboard options clock calls n' := by
  have hclear (n : Nat) : e.handle keyboard options (clock n) .clear = ([], e) := by
    simp [InputEngine.handle]
  have hprint (n : Nat) : e.handle keyboard options (clock n) (.printString []) = ([], e) := by
    simp [InputEngine.handle]
  unfold printsBefore
  split
  · refine ⟨n + 1 + 1, ?_⟩
    simp only [List.nil_append, List.cons_append, InputEngine.handleAll, hclear]
  · refine ⟨n + 1 + 1 + 1, ?_⟩
    simp only [List.nil_append, List.cons_append, InputEngine.handleAll, hclear, hprint]

theorem handleAll_csiText (clock : Nat → Int) (hm : InputReachable (inputEngine options answers) m)
    (hground : m.state = .ground) (hbody : CsiBody (marker ++ (formatParams ns ++ inter)) marker
      (formatParams ns) inter)
    (hf : isFinal f = true) (hns : ns ≠ [])
    (hpass : options.passes (.csiDispatch ((identifierOf (marker ++ inter)).finalize f)
      ((ns.take 32).map fun n => { value := (min n 65535 : Nat) })) = false)
    (n : Nat) (e : InputEngine) :
    let k := processString (inputEngine options answers) (csiText marker ns inter f) m
    k.state = .ground ∧ ∃ now, e.handleAll keyboard options clock (callsSince m k) n =
      e.csiDispatch keyboard now ((identifierOf (marker ++ inter)).finalize f)
        ((ns.take 32).map fun n => { value := (min n 65535 : Nat) }) := by
  intro k
  have hinert {c : Call} (hc : options.passes c = false) := inert_inputEngine answers hc
  have hdispatch := hinert hpass
  rw [← parametersOf_formatParams hns] at hdispatch
  obtain ⟨hrest, -, -, hcalls⟩ := processString_csi (hinert (by simp [InputOptions.passes]))
    (hinert (by simp [InputOptions.passes])) (hm.atRest (mute_inputEngine options answers) hground) hbody hf hdispatch
  refine ⟨hrest.state, ?_⟩
  obtain ⟨n', hn'⟩ := handleAll_printsBefore keyboard options clock m
    [.csiDispatch ((identifierOf (marker ++ inter)).finalize f) (parametersOf (formatParams ns))] n e
  refine ⟨clock n', ?_⟩
  have hsince : callsSince m k = printsBefore m ++ [.clear, .clear] ++
      [.csiDispatch ((identifierOf (marker ++ inter)).finalize f) (parametersOf (formatParams ns))] := by
    unfold callsSince
    rw [show k.calls = _ from hcalls, List.drop_left, List.append_assoc]
    rfl
  rw [hsince, hn', parametersOf_formatParams hns]
  simp only [InputEngine.handleAll, InputEngine.handle, hpass, Bool.false_eq_true, if_false, List.append_nil]

end

end Terminal.Parser
