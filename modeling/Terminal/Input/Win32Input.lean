import Terminal.Parser.InputMachine

/-!
# Win32 input mode

A key event is sent as six numbers (`terminalInput.cpp`), which are read back as the same event.
-/

namespace Terminal.Input

open Terminal.Parser Terminal.Parser.StateMachine

/-- `ESC [ Vk ; Sc ; Uc ; Kd ; Cs ; Rc _` -/
def generateWin32KeySequence (key : KeyEvent) : List Wchar :=
  csiText []
    [key.virtualKeyCode.toNat, key.virtualScanCode.toNat, key.charData.toNat, if key.keyDown then 1 else 0,
      key.activeModifierKeys.toNat, key.repeatCount.toNat]
    [] 0x5F

theorem saturatedWord_toNat (w : BitVec 16) : saturatedWord (w.toNat : Nat) = w := by
  have hcast : saturatedCast 0 65535 (w.toNat : Nat) = (w.toNat : Nat) := by
    unfold saturatedCast
    rw [if_neg (by omega), if_neg (by omega)]
  unfold saturatedWord
  rw [hcast]
  simp

theorem generateWin32Key_values (key : KeyEvent) (h : key.activeModifierKeys.toNat ≤ 65535) :
    generateWin32Key (([key.virtualKeyCode.toNat, key.virtualScanCode.toNat, key.charData.toNat,
      if key.keyDown then 1 else 0, key.activeModifierKeys.toNat, key.repeatCount.toNat].take 32).map
        fun n => { value := (min n 65535 : Nat) }) = key := by
  have hword (w : BitVec 16) : min w.toNat 65535 = w.toNat := by
    omega
  have hvalue (n : Nat) (d : Int) : ({ value := (n : Nat) } : VTParameter).valueOr d = n := by
    unfold VTParameter.valueOr
    rw [if_neg]
    simp
  have hstate : saturatedCast 0 4294967295 (key.activeModifierKeys.toNat : Nat) =
    (key.activeModifierKeys.toNat : Nat) := by
    unfold saturatedCast
    rw [if_neg (by omega), if_neg (by omega)]
  unfold generateWin32Key VTParameters.at'
  simp only [List.take, List.map_cons, List.map_nil, List.getD_cons_zero, List.getD_cons_succ, hvalue, hword,
    saturatedWord_toNat, Nat.min_eq_left h, hstate]
  cases key with
  | mk keyDown =>
    cases keyDown <;> simp

theorem csiDispatch_win32Key (keyboard : Keyboard) (now : Int) (parameters : VTParameters) (e : InputEngine) :
    e.csiDispatch keyboard now CsiActionCodes.win32KeyboardInput parameters =
      ([.writeCtrlKey (generateWin32Key parameters)], e) := by
  unfold InputEngine.csiDispatch
  rw [if_neg (by decide), if_neg (not_and_of_not_left _ (by decide)), if_neg (by decide),
    if_neg (by decide), if_neg (by decide),
    if_neg (by decide), if_neg (by decide), if_neg (by decide), if_pos rfl]

/-- Whatever went before, one event is written, the one that was sent. -/
theorem win32Key_roundTrip (keyboard : Keyboard) (options : InputOptions) (answers : List Call → Bool)
    (clock : Nat → Int) (n : Nat) (e : InputEngine) {m : StateMachine}
    (hm : InputReachable (inputEngine options answers) m) (hground : m.state = .ground) (key : KeyEvent)
    (hkey : key.activeModifierKeys.toNat ≤ 65535) :
    let k := processString (inputEngine options answers) (generateWin32KeySequence key) m
    k.state = .ground ∧ e.handleAll keyboard options clock (callsSince m k) n = ([.writeCtrlKey key], e) := by
  have hid : (identifierOf ([] ++ [])).finalize 0x5F = CsiActionCodes.win32KeyboardInput := by decide
  have hbody (ns : List Nat) : CsiBody ([] ++ (formatParams ns ++ [])) [] (formatParams ns) [] :=
    ⟨rfl, Nat.zero_le 1, by simp, isParam_of_mem_formatParams ns, by simp⟩
  -- these sequences are never passed through
  have hpass (params : VTParameters) :
      options.passes (.csiDispatch ((identifierOf ([] ++ [])).finalize 0x5F) params) = false := by
    rw [hid]
    simp [InputOptions.passes]
  obtain ⟨hrest, now, hhandled⟩ :=
    handleAll_csiText keyboard clock hm hground (hbody _) (by decide) (List.cons_ne_nil _ _) (hpass _) n e
  refine ⟨hrest, hhandled.trans ?_⟩
  rw [hid, csiDispatch_win32Key, generateWin32Key_values key hkey]

theorem win32Key_roundTrip_ctrlC :
    let E := inputEngine ⟨true, true⟩ fun _ => true
    let key : KeyEvent := {
      keyDown := true, repeatCount := 1, virtualKeyCode := 0x43, virtualScanCode := 0x2E, charData := 0x03
      activeModifierKeys := 0x0008 }
    let k := processString E (generateWin32KeySequence key) (new E true)
    k.state = .ground ∧ ({ doubleClickTime := 500 } : InputEngine).handleAll plainKeyboard ⟨true, true⟩ (fun n => n)
        (callsSince (new E true) k) 0 = ([.writeCtrlKey key], { doubleClickTime := 500 }) :=
  win32Key_roundTrip plainKeyboard ⟨true, true⟩ (fun _ => true) (fun n => n) 0 { doubleClickTime := 500 }
    InputReachable.new rfl _ (by decide)

end Terminal.Input
